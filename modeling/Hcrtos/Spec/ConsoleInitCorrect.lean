import Hcrtos.Spec.ConsoleInitOrder
import Hcrtos.Spec.ConsoleTree

/-!
# Console commands: the registration of the initial commands

`console_init` registers the entries of its table in their order, each under the command that the
search finds for its parent. The tree that the table declares is built in the same order with the
parents that the table names, and the two agree as long as every parent is on the spine of what is
registered before its child.

## Key results

- `Declares.console_init_eq`: `console_init` ends, and registers the entries in their order
- `Started.parents_agree_iff`: when the search finds the declared parent
-/

namespace Hcrtos.Native.Console

open CString

section

variable (node : Nat → Addr)

/-! ### Registrations in a row -/

/-- Registrations one after the other, each under the parent that `par` gives. -/
def registerAll (par : Console → InitCmd → Option Addr) (s : Console) (ps : List InitCmd) :
    Console :=
  ps.foldl (fun s p => registerUnder node s p (par s p)) s

/-- A parent is a command. -/
def Sound (par : Console → InitCmd → Option Addr) : Prop :=
  ∀ s, Ordered s → ∀ p a, par s p = some a → ∃ c ∈ s.cmds, c.addr = a

/-- The first `n` blocks of `malloc` are different. -/
def Distinct (n : Nat) : Prop := ∀ i < n, ∀ j < n, node i = node j → i = j

/-- `n` commands in the first `n` blocks. -/
structure Allocated (n : Nat) (s : Console) : Prop where
  ordered : Ordered s
  numbered : s.cmds.map ConsoleCmd.addr = (List.range n).map node

variable {node}

theorem Allocated.length {n : Nat} {s : Console} (h : Allocated node n s) : s.cmds.length = n := by
  have := congrArg List.length h.numbered
  simpa using this

theorem Allocated.addr {n : Nat} {s : Console} (h : Allocated node n s) {i : Nat} {c : ConsoleCmd}
    (hc : s.cmds[i]? = some c) : c.addr = node i := by
  have hlt := (List.getElem?_eq_some_iff.mp hc).1
  have hget := congrArg (fun l => l[i]?) h.numbered
  rw [h.length] at hlt
  simpa [hc, hlt] using hget

/-- The commands apart from their abbreviations. -/
def cores (s : Console) : List ConsoleCmd := s.cmds.map ConsoleCmd.core

theorem cores_registerUnder (s : Console) (p : InitCmd) (parent : Option Addr) :
    cores (registerUnder node s p parent) = cores s ++
      [newCmd parent p.cmd p.callback p.mode.toNat p.help (node s.cmds.length)] :=
  register_cores ..

theorem addrs_cores (s : Console) : (cores s).map ConsoleCmd.addr = s.cmds.map ConsoleCmd.addr := by
  simp [cores, ConsoleCmd.core]

theorem names_cores (s : Console) : (cores s).map ConsoleCmd.cmd = s.cmds.map ConsoleCmd.cmd := by
  simp [cores, ConsoleCmd.core]

theorem Allocated.register {n : Nat} {s : Console} (h : Allocated node n s)
    (hnode : Distinct node (n + 1)) {p : InitCmd} {parent : Option Addr}
    (hparent : ∀ a, parent = some a → ∃ c ∈ s.cmds, c.addr = a) :
    Allocated node (n + 1) (registerUnder node s p parent) where
  ordered := by
    refine h.ordered.register ?_ hparent
    intro c hc haddr
    obtain ⟨i, hi⟩ := List.mem_iff_getElem?.mp hc
    have hlt := (List.getElem?_eq_some_iff.mp hi).1
    rw [h.length] at hlt haddr
    rw [h.addr hi] at haddr
    exact absurd (hnode i (by omega) n (by omega) haddr) (by omega)
  numbered := by
    rw [← addrs_cores, cores_registerUnder, List.map_append, addrs_cores, h.numbered, h.length,
      List.range_succ, List.map_append]
    rfl

theorem Allocated.registerAll {par : Console → InitCmd → Option Addr} (hpar : Sound par)
    {ps : List InitCmd} : ∀ {n : Nat} {s : Console}, Allocated node n s →
      Distinct node (n + ps.length) →
      Allocated node (n + ps.length) (registerAll node par s ps) := by
  induction ps with
  | nil =>
    intro n s h _
    exact h
  | cons p ps ih =>
    intro n s h hnode
    have hcount : n + 1 + ps.length = n + (p :: ps).length := by
      rw [List.length_cons]
      omega
    have hstep := h.register (p := p) (fun i hi j hj => hnode i (by omega) j (by omega))
      (hpar s h.ordered p)
    have hrest := ih hstep (hcount ▸ hnode)
    rwa [hcount] at hrest

theorem registerAll_concat (par : Console → InitCmd → Option Addr) (s : Console)
    (ps : List InitCmd) (p : InitCmd) : registerAll node par s (ps ++ [p]) =
      registerUnder node (registerAll node par s ps) p (par (registerAll node par s ps) p) := by
  rw [registerAll, List.foldl_append]
  rfl

/-- The registrations append a command for each entry. -/
theorem registerAll_cores (par : Console → InitCmd → Option Addr) (ps : List InitCmd) :
    ∀ s, ∃ new, cores (registerAll node par s ps) = cores s ++ new ∧
      new.map ConsoleCmd.cmd = ps.map InitCmd.cmd := by
  induction ps with
  | nil => exact fun s => ⟨[], by simp [registerAll], rfl⟩
  | cons p ps ih =>
    intro s
    obtain ⟨new, hnew, hnames⟩ := ih (registerUnder node s p (par s p))
    refine ⟨newCmd (par s p) p.cmd p.callback p.mode.toNat p.help (node s.cmds.length) :: new,
      ?_, ?_⟩
    · rw [registerAll] at hnew ⊢
      rw [List.foldl_cons, hnew, cores_registerUnder, List.append_assoc, List.singleton_append]
    · rw [List.map_cons, List.map_cons, hnames]
      rfl

/-- The command of an entry. -/
theorem registerAll_get? (par : Console → InitCmd → Option Addr) (s : Console)
    (pre : List InitCmd) (p : InitCmd) (post : List InitCmd) :
    (cores (registerAll node par s (pre ++ p :: post)))[s.cmds.length + pre.length]? =
      some (newCmd (par (registerAll node par s pre) p) p.cmd p.callback p.mode.toNat p.help
        (node (s.cmds.length + pre.length))) := by
  obtain ⟨new, hnew, hnames⟩ := @registerAll_cores node par pre s
  obtain ⟨new', hnew', -⟩ := @registerAll_cores node par post
    (registerUnder node (registerAll node par s pre) p (par (registerAll node par s pre) p))
  have hsplit : registerAll node par s (pre ++ p :: post) = registerAll node par
      (registerUnder node (registerAll node par s pre) p (par (registerAll node par s pre) p))
      post := by
    simp [registerAll]
  have hlen : (cores (registerAll node par s pre)).length = s.cmds.length + pre.length := by
    rw [hnew, List.length_append, cores, List.length_map]
    have := congrArg List.length hnames
    simp only [List.length_map] at this
    rw [this]
  have hlen' : (registerAll node par s pre).cmds.length = s.cmds.length + pre.length := by
    rw [← hlen, cores, List.length_map]
  rw [hsplit, hnew', cores_registerUnder, hlen', List.append_assoc, List.singleton_append, ← hlen,
    List.getElem?_append_right (Nat.le_refl _), Nat.sub_self]
  rfl

/-! ### The commands that are always there -/

variable (console_help console_exit console_history : UInt32)

/-- `help`, `exit` and `history`. -/
def builtinNames : List CStr := (builtins 0 0 0).map InitCmd.cmd

theorem builtins_allocated (hnode : Distinct node 3) :
    Allocated node 3 (registerBuiltins node console_help console_exit console_history) := by
  have hnone : Sound (fun _ _ => none) := by
    intro s _ p a ha
    cases ha
  have hinit : Allocated node 0 init := ⟨ordered_init, rfl⟩
  have hthree : Distinct node
      (0 + (builtins console_help console_exit console_history).length) := hnode
  exact hinit.registerAll hnone hthree

/-- The commands of a table are registered behind the ones that are always there. -/
def tableCmds (s : Console) : List ConsoleCmd := s.cmds.drop 3

variable (node) in
/-- The commands that are always there, and those of some entries. -/
structure Started (s : Console) (names : List CStr) : Prop where
  allocated : Allocated node (3 + names.length) s
  names : s.cmds.map ConsoleCmd.cmd = builtinNames ++ names
  roots : ∀ i < 3, ∀ c, s.cmds[i]? = some c → c.parent = none

variable {console_help console_exit console_history}

variable (console_help console_exit console_history) in
theorem started_registerAll {par : Console → InitCmd → Option Addr} (hpar : Sound par)
    {ps : List InitCmd} (hnode : Distinct node (3 + ps.length)) :
    Started node
      (registerAll node par (registerBuiltins node console_help console_exit console_history) ps)
      (ps.map InitCmd.cmd) where
  allocated := by
    rw [List.length_map]
    exact (builtins_allocated console_help console_exit console_history
      fun i hi j hj => hnode i (by omega) j (by omega)).registerAll hpar hnode
  names := by
    obtain ⟨new, hnew, hnames⟩ := @registerAll_cores node par ps
      (registerBuiltins node console_help console_exit console_history)
    rw [← names_cores, hnew, List.map_append, hnames]
    rfl
  roots := by
    intro i hi c hc
    obtain ⟨new, hnew, -⟩ := @registerAll_cores node par ps
      (registerBuiltins node console_help console_exit console_history)
    have hcore := congrArg (fun l => l[i]?) hnew
    rw [List.getElem?_append_left (by exact hi), cores, List.getElem?_map, hc,
      Option.map_some] at hcore
    have hparents : ∀ d ∈ cores (registerBuiltins node console_help console_exit console_history),
        d.parent = none := by
      simp [cores, registerBuiltins, builtins, builtin, registerUnder, _console_register_cmd,
        console_build_shortest, console_register_cmd2, init, ConsoleCmd.core]
    exact hparents c.core (List.mem_of_getElem? hcore.symm)

/-! ### Found and declared parents -/

/-- The parent that the code passes for an entry. -/
def foundParent (s : Console) (p : InitCmd) : Option Addr :=
  p.parent.bind fun q => (console_find_cmd s q).join.map ConsoleCmd.addr

/-- The command of the entry that an entry names as its parent. -/
def declaredParent (s : Console) (p : InitCmd) : Option Addr :=
  p.parent.bind fun q => ((tableCmds s).find? fun c => c.cmd = q).map ConsoleCmd.addr

theorem sound_foundParent : Sound foundParent := by
  intro s hs p a ha
  obtain ⟨q, -, hq⟩ := Option.bind_eq_some_iff.mp ha
  obtain ⟨c, hc, rfl⟩ := Option.map_eq_some_iff.mp hq
  obtain ⟨r, hr, hfound, -⟩ := hs.find_cmd_spec q
  rw [hr, Option.join_some] at hc
  exact ⟨c, (hfound c hc).1, rfl⟩

theorem sound_declaredParent : Sound declaredParent := by
  intro s _ p a ha
  obtain ⟨q, -, hq⟩ := Option.bind_eq_some_iff.mp ha
  obtain ⟨c, hc, rfl⟩ := Option.map_eq_some_iff.mp hq
  exact ⟨c, List.mem_of_mem_drop (List.mem_of_find?_eq_some hc), rfl⟩

theorem Started.builtin_names {s : Console} {names : List CStr} (h : Started node s names) :
    (s.cmds.take 3).map ConsoleCmd.cmd = builtinNames := by
  rw [List.map_take, h.names]
  rfl

theorem Started.table_names {s : Console} {names : List CStr} (h : Started node s names) :
    (tableCmds s).map ConsoleCmd.cmd = names := by
  rw [tableCmds, List.map_drop, h.names]
  rfl

/-- The command of a name of the table. -/
theorem Started.tableCmd {s : Console} {names : List CStr} (h : Started node s names)
    (hnodup : names.Nodup) {c : ConsoleCmd} (hc : c ∈ tableCmds s) :
    ((tableCmds s).find? fun d => d.cmd = c.cmd) = some c := by
  cases hfind : (tableCmds s).find? fun d => d.cmd = c.cmd with
  | none =>
    have := List.find?_eq_none.mp hfind c hc
    simp at this
  | some d =>
    rw [← h.table_names] at hnodup
    have hname : d.cmd = c.cmd := by simpa using List.find?_some hfind
    rw [List.inj_on_of_nodup_map hnodup (List.mem_of_find?_eq_some hfind) hc hname]

/-- A name of a command that is always there is found there. -/
theorem Started.find_builtin {s : Console} {names : List CStr} (h : Started node s names)
    {q : CStr} (hq : q ∈ builtinNames) :
    ∃ i c, i < 3 ∧ s.cmds[i]? = some c ∧ console_find_cmd s q = some (some c) := by
  -- they are the first commands of the root level
  have hroots : (s.cmds.take 3).filter (fun c => c.parent = none) = s.cmds.take 3 := by
    rw [List.filter_eq_self]
    intro c hc
    obtain ⟨i, hi⟩ := List.mem_iff_getElem?.mp hc
    have hlt : i < 3 := by
      by_contra hge
      rw [List.getElem?_take_eq_none (by omega)] at hi
      cases hi
    rw [List.getElem?_take_of_lt hlt] at hi
    simpa using h.roots i hlt c hi
  have hlevel : s.cmds_root = s.cmds.take 3 ++ (s.cmds.drop 3).filter fun c => c.parent = none := by
    rw [← hroots, ← List.filter_append, List.take_append_drop]
    rfl
  obtain ⟨d, hd, hdq⟩ := List.mem_map.mp (h.builtin_names ▸ hq)
  obtain ⟨c, hfind⟩ := Option.isSome_iff_exists.mp
    (List.find?_isSome.mpr ⟨d, hd, by simpa using hdq⟩ :
      ((s.cmds.take 3).find? fun p => p.cmd = q).isSome)
  obtain ⟨i, hi⟩ := List.mem_iff_getElem?.mp (List.mem_of_find?_eq_some hfind)
  have hlt : i < 3 := by
    by_contra hge
    rw [List.getElem?_take_eq_none (by omega)] at hi
    cases hi
  rw [List.getElem?_take_of_lt hlt] at hi
  refine ⟨i, c, hlt, hi, h.allocated.ordered.find_cmd_root ?_⟩
  rw [hlevel, List.find?_append, hfind]
  rfl

/-- When the search finds the command of the entry that an entry names as its parent. -/
theorem Started.parents_agree_iff {s : Console} {names : List CStr} (h : Started node s names)
    (hnode : Distinct node (3 + names.length)) (hnodup : names.Nodup) {p : InitCmd} {q : CStr}
    (hp : p.parent = some q) (hq : q ∈ names) :
    foundParent s p = declaredParent s p ↔ q ∉ builtinNames ∧ OnSpine s q none := by
  obtain ⟨d, hd, rfl⟩ := List.mem_map.mp (h.table_names ▸ hq)
  have hdmem : d ∈ s.cmds := List.mem_of_mem_drop hd
  obtain ⟨r, hr, hfound, hspine⟩ := h.allocated.ordered.find_cmd_spec d.cmd
  have hdeclared : declaredParent s p = some d.addr := by
    rw [declaredParent, hp, Option.bind_some, h.tableCmd hnodup hd]
    rfl
  have hfoundParent : foundParent s p = r.map ConsoleCmd.addr := by
    rw [foundParent, hp, Option.bind_some, hr, Option.join_some]
  rw [hdeclared, hfoundParent, ← hspine]
  constructor
  · intro haddr
    obtain ⟨c, hc, hcd⟩ := Option.map_eq_some_iff.mp haddr
    refine ⟨?_, by rw [hc]; rfl⟩
    -- the block of a command that is always there is none of the table's
    intro hbuiltin
    obtain ⟨i, b, hi, hb, hfind⟩ := h.find_builtin hbuiltin
    obtain rfl : c = b := by simpa [hr, hc] using hfind
    obtain ⟨j, hj⟩ := List.mem_iff_getElem?.mp hd
    rw [tableCmds, List.getElem?_drop] at hj
    have hlt := (List.getElem?_eq_some_iff.mp hj).1
    rw [h.allocated.length] at hlt
    rw [h.allocated.addr hb, h.allocated.addr hj] at hcd
    have := hnode i (by omega) (3 + j) hlt hcd
    omega
  · rintro ⟨hbuiltin, hsome⟩
    obtain ⟨c, rfl⟩ := Option.isSome_iff_exists.mp hsome
    obtain ⟨hc, hname⟩ := hfound c rfl
    -- the command that is found is one of the table's
    have hctable : c ∈ tableCmds s := by
      rw [← List.take_append_drop 3 s.cmds, List.mem_append] at hc
      refine hc.resolve_left ?_
      intro hc
      apply hbuiltin
      rw [← hname, ← h.builtin_names]
      exact List.mem_map_of_mem hc
    have hcd := h.tableCmd hnodup hctable
    rw [hname, h.tableCmd hnodup hd] at hcd
    rw [Option.some.inj hcd]
    rfl

/-! ### The run -/

/-- The table when some of its entries are registered. -/
def flagged (table done : List InitCmd) : List InitCmd :=
  table.map fun p => { p with initialized := decide (p ∈ done) }

variable {table : List InitCmd}

/-- An entry that is not registered is found. -/
theorem Declares.findIdx (h : Declares table) {done : List InitCmd} {i : Nat} {p : InitCmd}
    (hi : table[i]? = some p) :
    ((flagged table done).findIdx? fun p' => p'.cmd = p.cmd ∧ p'.initialized = false) =
      if p ∈ done then none else some i := by
  have hp := List.mem_of_getElem? hi
  split
  · rename_i hdone
    rw [List.findIdx?_eq_none_iff]
    intro p' hp'
    obtain ⟨p', hmem, rfl⟩ := List.mem_map.mp hp'
    by_cases hname : p'.cmd = p.cmd
    · obtain rfl := h.eq hmem hp hname
      simp [hdone]
    · simp [hname]
  · rename_i hdone
    obtain ⟨hlt, hget⟩ := List.getElem?_eq_some_iff.mp hi
    rw [List.findIdx?_eq_some_iff_getElem]
    refine ⟨by simpa [flagged] using hlt, ?_, ?_⟩
    · simp [flagged, hget, hdone]
    · intro j hj
      have hne : table[j].cmd ≠ p.cmd := by
        intro hname
        have heq := h.eq (List.getElem_mem _) hp hname
        rw [← hget, (List.Nodup.of_map _ h.names).getElem_inj_iff] at heq
        omega
      simp [flagged, hne]

theorem Declares.flagged_modify (h : Declares table) {done : List InitCmd} {i : Nat} {p : InitCmd}
    (hi : table[i]? = some p) :
    (flagged table done).modify i (fun p => { p with initialized := true }) =
      flagged table (done ++ [p]) := by
  apply List.ext_getElem?
  intro j
  rw [List.getElem?_modify, flagged, flagged, List.getElem?_map, List.getElem?_map]
  cases hj : table[j]? with
  | none => rfl
  | some p' =>
    have hsame : p' = p ↔ i = j := by
      obtain ⟨hlt, rfl⟩ := List.getElem?_eq_some_iff.mp hi
      obtain ⟨hlt', rfl⟩ := List.getElem?_eq_some_iff.mp hj
      rw [(List.Nodup.of_map _ h.names).getElem_inj_iff]
      exact eq_comm
    by_cases hij : i = j
    · simp [hij, hsame.mpr hij]
    · have hne : p' ≠ p := fun heq => hij (hsame.mp heq)
      simp [hij, hne]

theorem Closed.length_le {done : List InitCmd} (h : Closed table done) :
    done.length ≤ table.length :=
  (List.subperm_of_subset h.nodup h.sub).length_le

variable (node) in
/-- The state when some entries are registered. -/
def initState (console_help console_exit console_history : UInt32) (table done : List InitCmd) :
    InitState where
  console := registerAll node foundParent
    (registerBuiltins node console_help console_exit console_history) done
  table := flagged table done

theorem Declares.initState_concat (h : Declares table) {done : List InitCmd} {i : Nat}
    {p : InitCmd} (hi : table[i]? = some p) :
    initState node console_help console_exit console_history table (done ++ [p]) =
      let s := initState node console_help console_exit console_history table done
      { console := registerUnder node s.console p (foundParent s.console p)
        table := s.table.modify i fun p => { p with initialized := true } } := by
  dsimp only [initState]
  rw [h.flagged_modify hi, registerAll_concat]

/-- A call registers the entry and those of its ancestors. -/
theorem Declares.register_init_cmds (h : Declares table) (hnode : Distinct node (3 + table.length))
    {fuel : Nat} : ∀ {done : List InitCmd} {name : CStr}, Closed table done →
    name ∈ table.map InitCmd.cmd → ancestor table fuel name = none →
    console_register_init_cmds node fuel
        (initState node console_help console_exit console_history table done) name =
      some (initState node console_help console_exit console_history table
        (visit table fuel done name)) := by
  induction fuel with
  | zero =>
    intro done name _ _ hnone
    cases hnone
  | succ fuel ih =>
    intro done name hclosed hname hnone
    obtain ⟨p, hp, rfl⟩ := List.mem_map.mp hname
    obtain ⟨i, hi⟩ := List.mem_iff_getElem?.mp hp
    rw [console_register_init_cmds, visit, h.entry_eq hp]
    dsimp only
    have hfind : (initState node console_help console_exit console_history table
        done).table.findIdx? (fun p' => p'.cmd = p.cmd ∧ p'.initialized = false) =
        if p ∈ done then none else some i := h.findIdx hi
    by_cases hdone : p ∈ done
    · rw [if_pos hdone] at hfind ⊢
      rw [hfind]
    · rw [if_neg hdone] at hfind ⊢
      have hget : (initState node console_help console_exit console_history table
          done).table[i]? = some p := by
        rw [initState, flagged, List.getElem?_map, hi]
        simp [hdone, ← h.fresh p hp]
      rw [h.initState_concat hi, hfind]
      dsimp only
      rw [hget]
      dsimp only
      cases hparent : p.parent with
      | none => simp [hparent, foundParent]
      | some q =>
        have hq := h.parents p hp q hparent
        rw [ancestor, h.entry_eq hp, Option.bind_some, hparent, Option.bind_some] at hnone
        have hcall := ih hclosed hq hnone
        obtain ⟨hclosed', -, -, -⟩ := h.visit_spec hclosed hq hnone
        rw [Option.elim_some]
        have hstarted := @started_registerAll node console_help console_exit console_history _
          sound_foundParent (visit table fuel done q)
          (fun i hi j hj => hnode i (by have := hclosed'.length_le; omega) j
            (by have := hclosed'.length_le; omega))
        obtain ⟨r, hr, -⟩ := hstarted.allocated.ordered.find_cmd_spec q
        have hr' : console_find_cmd (initState node console_help console_exit console_history
            table (visit table fuel done q)).console q = some r := hr
        simp only [hcall, Option.bind_some, hr', Option.map_some, foundParent, hparent,
          Option.join_some]

/-- A round of the loop skips an entry that is registered. -/
theorem Declares.initBody_eq (h : Declares table) (hnode : Distinct node (3 + table.length))
    {done : List InitCmd} (hclosed : Closed table done) {i : Nat} {p : InitCmd}
    (hi : table[i]? = some p) :
    initBody node table.length
        (initState node console_help console_exit console_history table done) i =
      some (initState node console_help console_exit console_history table
        (visit table table.length done p.cmd)) := by
  have hp := List.mem_of_getElem? hi
  have hname : p.cmd ∈ table.map InitCmd.cmd := List.mem_map_of_mem hp
  have hget : (initState node console_help console_exit console_history table done).table[i]? =
      some { p with initialized := decide (p ∈ done) } := by
    rw [initState, flagged, List.getElem?_map, hi]
    rfl
  rw [initBody, hget]
  dsimp only
  by_cases hdone : p ∈ done
  · obtain ⟨n, hn⟩ : ∃ n, table.length = n + 1 :=
      Nat.exists_eq_add_one.mpr (List.length_pos_of_mem hp)
    rw [hn, visit, h.entry_eq hp]
    simp [hdone]
  · simpa [hdone] using h.register_init_cmds hnode hclosed hname (h.ancestor_length hname)

/-- `console_init` ends, and has registered the entries in their order. -/
theorem Declares.console_init_eq (h : Declares table)
    (hnode : Distinct node (3 + table.length)) :
    console_init node console_help console_exit console_history table.length table =
      some (initState node console_help console_exit console_history table (order table)) := by
  have hstart : ⟨registerBuiltins node console_help console_exit console_history, table⟩ =
      initState node console_help console_exit console_history table [] := by
    have hflagged : flagged table [] = table := by
      conv_rhs => rw [← List.map_id table]
      apply List.map_congr_left
      intro p hp
      simp [← h.fresh p hp]
    rw [initState, hflagged]
    rfl
  -- the loop has come to the entries of a prefix
  have hloop : ∀ n ≤ table.length, (List.range n).foldlM (initBody node table.length)
      (initState node console_help console_exit console_history table []) =
      some (initState node console_help console_exit console_history table
        (orderFrom table [] (table.take n))) := by
    intro n hn
    induction n with
    | zero => simp [orderFrom]
    | succ n ih =>
      obtain ⟨p, hp⟩ : ∃ p, table[n]? = some p := ⟨table[n], List.getElem?_eq_getElem hn⟩
      have htake : table.take (n + 1) = table.take n ++ [p] := by
        rw [List.take_add_one, hp]
        rfl
      obtain ⟨hclosed, -, -⟩ := @Declares.orderFrom_spec _ h (table.take n) [] closed_nil
        fun p hp => List.mem_of_mem_take hp
      have horder : orderFrom table [] (table.take n ++ [p]) =
          visit table table.length (orderFrom table [] (table.take n)) p.cmd := by
        simp [orderFrom]
      rw [List.range_succ, List.foldlM_append, ih (by omega), htake, horder]
      generalize orderFrom table [] (table.take n) = done at hclosed
      simp only [List.foldlM_cons, List.foldlM_nil, bind_pure, Option.bind_eq_bind,
        Option.bind_some]
      exact h.initBody_eq hnode hclosed hp
  rw [console_init, hstart, hloop table.length (Nat.le_refl _), List.take_length]
  rfl

end

end Hcrtos.Native.Console
