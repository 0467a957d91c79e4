import Hcrtos.Spec.ConsoleInitCorrect

/-!
# Console commands: the tree that a table declares

Under which commands the entries of a table end up, against the parents that they name.

## Key results

- `parents_declared_iff`: the entries are under their parents when the search finds each one
- `lookup_complete_iff`: the search for a name, and the registration of a table
- `lookup_complete_fails`: a parent in front of another command with children
-/

namespace Hcrtos.Native.Console

open CString

section

variable {node : Nat → Addr} {console_help console_exit console_history : UInt32}
  {table : List InitCmd}

/-- Every entry has one command, with what it says, under the command of its parent. -/
structure Registered (table : List InitCmd) (s : Console) : Prop where
  once : ((tableCmds s).map ConsoleCmd.cmd).Perm (table.map InitCmd.cmd)
  entry : ∀ p ∈ table, ∀ c ∈ tableCmds s, c.cmd = p.cmd →
    c.callback = (p.callback.map Callback.fn).getD .dummy_callback ∧ c.mode = p.mode.toNat ∧
      c.help = p.help
  parent : ∀ p ∈ table, ∀ c ∈ tableCmds s, c.cmd = p.cmd →
    match p.parent with
    | none => c.parent = none
    | some q => ∃ d ∈ tableCmds s, d.cmd = q ∧ c.parent = some d.addr

variable (node console_help console_exit console_history) in
/-- The commands of some entries, under the parents that `par` gives. -/
def registeredWith (par : Console → InitCmd → Option Addr) (ps : List InitCmd) : Console :=
  registerAll node par (registerBuiltins node console_help console_exit console_history) ps

variable (node console_help console_exit console_history) in
/-- The tree that some entries declare. -/
def declaredTree (ps : List InitCmd) : Console :=
  registeredWith node console_help console_exit console_history declaredParent ps

/-! ### The command of an entry -/

theorem registerAll_congr {par par' : Console → InitCmd → Option Addr} {s : Console}
    {ps : List InitCmd} (h : ∀ pre p post, ps = pre ++ p :: post →
      par (registerAll node par s pre) p = par' (registerAll node par s pre) p) :
    registerAll node par s ps = registerAll node par' s ps := by
  induction ps using List.reverseRecOn with
  | nil => rfl
  | append_singleton ps p ih =>
    have hps : registerAll node par s ps = registerAll node par' s ps := by
      apply ih
      intro pre p' post hsplit
      exact h pre p' (post ++ [p]) (by rw [hsplit, List.append_assoc, List.cons_append])
    have hlast := h ps p [] rfl
    rw [hps] at hlast
    rw [registerAll_concat, registerAll_concat, hps, hlast]

variable (console_help console_exit console_history) in
/-- The command of an entry is the one behind the commands of the entries before it. -/
theorem cmd_of_entry {par : Console → InitCmd → Option Addr} (hpar : Sound par)
    {ps pre post : List InitCmd} {p : InitCmd} (hsplit : ps = pre ++ p :: post)
    (hnode : Distinct node (3 + ps.length)) (hnodup : (ps.map InitCmd.cmd).Nodup) :
    ∃ c ∈ tableCmds (registeredWith node console_help console_exit console_history par ps),
      c.core = newCmd (par (registeredWith node console_help console_exit console_history par pre)
        p) p.cmd p.callback p.mode.toNat p.help (node (3 + pre.length)) ∧
      ∀ c' ∈ tableCmds (registeredWith node console_help console_exit console_history par ps),
        c'.cmd = p.cmd → c' = c := by
  have hstarted := started_registerAll console_help console_exit console_history hpar hnode
  have hcore := @registerAll_get? node par
    (registerBuiltins node console_help console_exit console_history) pre p post
  rw [← hsplit] at hcore
  obtain ⟨c, hc, hcore⟩ := core_get?.mp hcore
  have hlen : (registerBuiltins node console_help console_exit console_history).cmds.length = 3 :=
    rfl
  rw [hlen] at hc hcore
  have hmem : c ∈ tableCmds
      (registeredWith node console_help console_exit console_history par ps) := by
    apply List.mem_of_getElem? (i := pre.length)
    rw [tableCmds, List.getElem?_drop]
    exact hc
  refine ⟨c, hmem, hcore, ?_⟩
  intro c' hc' hname
  have hcmd : c.cmd = p.cmd := congrArg ConsoleCmd.cmd hcore
  have hfind := hstarted.tableCmd hnodup hc'
  rw [hname, ← hcmd, hstarted.tableCmd hnodup hmem] at hfind
  exact (Option.some.inj hfind).symm

/-- The entries are registered under their parents exactly when each one gets the parent that it
    names. -/
theorem parents_declared_iff {par : Console → InitCmd → Option Addr} (hpar : Sound par)
    (h : Declares table) (hnode : Distinct node (3 + table.length)) :
    Registered table
        (registeredWith node console_help console_exit console_history par (order table)) ↔
      ∀ pre p post, order table = pre ++ p :: post →
        par (registeredWith node console_help console_exit console_history par pre) p =
          declaredParent (registeredWith node console_help console_exit console_history par pre)
            p := by
  have hperm := h.order_perm
  have hclosed := h.order_closed
  have hnames : ((order table).map InitCmd.cmd).Nodup :=
    (hperm.map InitCmd.cmd).nodup_iff.mpr h.names
  have hnode' : Distinct node (3 + (order table).length) := hperm.length_eq ▸ hnode
  have hstarted := started_registerAll console_help console_exit console_history hpar hnode'
  -- the declared parent has the same block in every later tree
  have hdeclared : ∀ pre p post q, order table = pre ++ p :: post → p.parent = some q →
      ∃ d ∈ tableCmds (registeredWith node console_help console_exit console_history par
          (order table)),
        d.cmd = q ∧
        (∀ d' ∈ tableCmds (registeredWith node console_help console_exit console_history par
          (order table)), d'.cmd = q → d' = d) ∧
        declaredParent (registeredWith node console_help console_exit console_history par pre) p =
          some d.addr := by
    intro pre p post q hsplit hq
    obtain ⟨p', hp', rfl⟩ := hclosed.parents pre p post hsplit q hq
    obtain ⟨pre', post', rfl⟩ := List.append_of_mem hp'
    have hsplit' : order table = pre' ++ p' :: (post' ++ p :: post) := by
      rw [hsplit, List.append_assoc, List.cons_append]
    obtain ⟨d, hd, hcore, hunique⟩ := cmd_of_entry console_help console_exit console_history
      hpar hsplit' hnode' hnames
    have hpre : (((pre' ++ p' :: post').map InitCmd.cmd)).Nodup := by
      rw [hsplit, List.map_append] at hnames
      exact (List.nodup_append.mp hnames).1
    have hnodePre : Distinct node (3 + (pre' ++ p' :: post').length) := by
      intro i hi j hj
      have hlen := congrArg List.length hsplit
      rw [List.length_append] at hlen
      exact hnode' i (by omega) j (by omega)
    obtain ⟨e, he, hecore, -⟩ := cmd_of_entry console_help console_exit console_history hpar
      (rfl : pre' ++ p' :: post' = pre' ++ p' :: post') hnodePre hpre
    have hstartedPre := started_registerAll console_help console_exit console_history hpar hnodePre
    have hname : e.cmd = p'.cmd := congrArg ConsoleCmd.cmd hecore
    have haddr : e.addr = d.addr := by
      have hd := congrArg ConsoleCmd.addr hcore
      have he := congrArg ConsoleCmd.addr hecore
      exact he.trans hd.symm
    refine ⟨d, hd, congrArg ConsoleCmd.cmd hcore, hunique, ?_⟩
    have hfind := hstartedPre.tableCmd hpre he
    rw [hname] at hfind
    rw [declaredParent, hq, Option.bind_some, registeredWith, hfind, Option.map_some, haddr]
  constructor
  · intro hreg pre p post hsplit
    have hp : p ∈ table := hperm.mem_iff.mp (by rw [hsplit]; simp)
    obtain ⟨c, hc, hcore, -⟩ := cmd_of_entry console_help console_exit console_history hpar
      hsplit hnode' hnames
    have hparent := hreg.parent p hp c hc (congrArg ConsoleCmd.cmd hcore)
    have hcparent : c.parent =
        par (registeredWith node console_help console_exit console_history par pre) p :=
      congrArg ConsoleCmd.parent hcore
    rw [hcparent] at hparent
    cases hq : p.parent with
    | none =>
      rw [hq] at hparent
      simpa [declaredParent, hq] using hparent
    | some q =>
      rw [hq] at hparent
      obtain ⟨d', hd', hdq, hpar'⟩ := hparent
      obtain ⟨d, -, -, hunique, hdecl⟩ := hdeclared pre p post q hsplit hq
      rw [hpar', hdecl, hunique d' hd' hdq]
  · intro hall
    have hentry : ∀ p ∈ table, ∀ c ∈ tableCmds (registeredWith node console_help console_exit
        console_history par (order table)), c.cmd = p.cmd → ∃ pre post,
        order table = pre ++ p :: post ∧ c.core = newCmd
          (par (registeredWith node console_help console_exit console_history par pre) p) p.cmd
          p.callback p.mode.toNat p.help (node (3 + pre.length)) := by
      intro p hp c hc hname
      obtain ⟨pre, post, hsplit⟩ := List.append_of_mem (hperm.mem_iff.mpr hp)
      obtain ⟨c', hc', hcore, hunique⟩ := cmd_of_entry console_help console_exit
        console_history hpar hsplit hnode' hnames
      exact ⟨pre, post, hsplit, hunique c hc hname ▸ hcore⟩
    refine ⟨?_, ?_, ?_⟩
    · rw [registeredWith, hstarted.table_names]
      exact hperm.map InitCmd.cmd
    · intro p hp c hc hname
      obtain ⟨pre, post, -, hcore⟩ := hentry p hp c hc hname
      have hmode : c.mode = p.mode.toNat % 65536 := congrArg ConsoleCmd.mode hcore
      have hlt := p.mode.toNat_lt
      exact ⟨congrArg ConsoleCmd.callback hcore, by omega, congrArg ConsoleCmd.help hcore⟩
    · intro p hp c hc hname
      obtain ⟨pre, post, hsplit, hcore⟩ := hentry p hp c hc hname
      have hcparent : c.parent =
          par (registeredWith node console_help console_exit console_history par pre) p :=
        congrArg ConsoleCmd.parent hcore
      rw [hall pre p post hsplit] at hcparent
      cases hq : p.parent with
      | none => simpa [declaredParent, hq] using hcparent
      | some q =>
        obtain ⟨d, hd, hdq, -, hdecl⟩ := hdeclared pre p post q hsplit hq
        exact ⟨d, hd, hdq, hcparent.trans hdecl⟩

/-- The same for `console_init`, on the tree that the table declares. -/
theorem Declares.registered_iff_spine (h : Declares table)
    (hnode : Distinct node (3 + table.length)) :
    Registered table
        (registeredWith node console_help console_exit console_history foundParent
          (order table)) ↔
      ∀ pre p post q, order table = pre ++ p :: post → p.parent = some q →
        q ∉ builtinNames ∧
          OnSpine (declaredTree node console_help console_exit console_history pre) q none := by
  have hperm := h.order_perm
  have hnames : ((order table).map InitCmd.cmd).Nodup :=
    (hperm.map InitCmd.cmd).nodup_iff.mpr h.names
  have hagree : ∀ pre p post, order table = pre ++ p :: post →
      (foundParent (declaredTree node console_help console_exit console_history pre) p =
          declaredParent (declaredTree node console_help console_exit console_history pre) p ↔
        ∀ q, p.parent = some q → q ∉ builtinNames ∧
          OnSpine (declaredTree node console_help console_exit console_history pre) q none) := by
    intro pre p post hsplit
    cases hq : p.parent with
    | none => simp [foundParent, declaredParent, hq]
    | some q =>
      have hlen := congrArg List.length hsplit
      rw [hperm.length_eq, List.length_append] at hlen
      have hnodePre : Distinct node (3 + pre.length) :=
        fun i hi j hj => hnode i (by omega) j (by omega)
      have hstarted := started_registerAll console_help console_exit console_history
        sound_declaredParent hnodePre
      have hpre : (pre.map InitCmd.cmd).Nodup := by
        rw [hsplit, List.map_append] at hnames
        exact (List.nodup_append.mp hnames).1
      obtain ⟨p', hp', rfl⟩ := h.order_closed.parents pre p post hsplit q hq
      have hiff := hstarted.parents_agree_iff (by simpa using hnodePre) hpre hq
        (List.mem_map_of_mem hp')
      simpa [declaredTree, registeredWith] using hiff
  rw [parents_declared_iff sound_foundParent h hnode]
  constructor
  · -- as long as the parents agree the two trees do
    intro hfound pre p post q hsplit
    have hsame : registeredWith node console_help console_exit console_history foundParent pre =
        declaredTree node console_help console_exit console_history pre := by
      apply registerAll_congr
      intro pre' p' post' hsplit'
      exact hfound pre' p' (post' ++ p :: post) (by rw [hsplit, hsplit']; simp)
    exact (hagree pre p post hsplit).mp (hsame ▸ hfound pre p post hsplit) q
  · intro hspine pre p post hsplit
    have hsame : declaredTree node console_help console_exit console_history pre =
        registeredWith node console_help console_exit console_history foundParent pre := by
      apply registerAll_congr
      intro pre' p' post' hsplit'
      have hsplit'' : order table = pre' ++ p' :: (post' ++ p :: post) := by
        rw [hsplit, hsplit']
        simp
      exact ((hagree pre' p' _ hsplit'').mpr fun q => hspine pre' p' _ q hsplit'').symm
    exact hsame ▸ (hagree pre p post hsplit).mpr fun q => hspine pre p post q hsplit

end

/-! ### The lookup -/

/-- The search finds a name of the tree. -/
def Finds (s : Console) (name : CStr) : Prop :=
  (∃ c ∈ s.cmds, c.cmd = name) →
    ∃ c, console_find_cmd s name = some (some c) ∧ c ∈ s.cmds ∧ c.cmd = name

/-- In every tree the names that are found are those of the spine, and `console_init` registers
    every entry once and under its parent exactly when each parent is on the spine of what the
    entries before it declare. -/
theorem lookup_complete_iff {s : Console} (hs : Ordered s) (name : CStr) (node : Nat → Addr)
    (console_help console_exit console_history : UInt32) {table : List InitCmd}
    (h : Declares table) (hnode : Distinct node (3 + table.length)) :
    (Finds s name ↔ ((∃ c ∈ s.cmds, c.cmd = name) → OnSpine s name none)) ∧
    ((∃ s, console_init node console_help console_exit console_history table.length table =
        some s ∧ Registered table s.console) ↔
      ∀ pre p post q, order table = pre ++ p :: post → p.parent = some q →
        q ∉ builtinNames ∧
          OnSpine (declaredTree node console_help console_exit console_history pre) q none) := by
  constructor
  · obtain ⟨r, hr, hfound, hspine⟩ := hs.find_cmd_spec name
    rw [Finds, ← hspine, hr]
    constructor
    · intro h hname
      obtain ⟨c, hc, -⟩ := h hname
      rw [Option.some.inj hc]
      rfl
    · intro h hname
      obtain ⟨c, rfl⟩ := Option.isSome_iff_exists.mp (h hname)
      exact ⟨c, rfl, hfound c rfl⟩
  · rw [← h.registered_iff_spine hnode, h.console_init_eq hnode]
    simp [initState, registeredWith]

/-- An entry of a table. -/
def exampleEntry (cmd : UInt8) (parent : Option UInt8) : InitCmd :=
  { parent := parent.map fun b => [b]
    cmd := [cmd]
    callback := none
    mode := 0
    initialized := false
    help := none }

/-- The commands `A` with its child `B`, `D` with its child `E`, and `C`, a child of `B`. -/
def exampleTable : List InitCmd :=
  [exampleEntry 65 none, exampleEntry 66 (some 65), exampleEntry 68 none,
   exampleEntry 69 (some 68), exampleEntry 67 (some 66)]

/-- A table in which the names of parents are smaller than those of their children. -/
theorem declares_of_lt {table : List InitCmd} (hnames : (table.map InitCmd.cmd).Nodup)
    (hfresh : ∀ p ∈ table, p.initialized = false)
    (hparents : ∀ p ∈ table, ∀ q ∈ p.parent, q ∈ table.map InitCmd.cmd ∧ q < p.cmd) :
    Declares table where
  names := hnames
  fresh := hfresh
  parents := fun p hp q hq => (hparents p hp q hq).1
  acyclic := by
    have hlt : ∀ {a b}, Relation.TransGen (ParentIn table) a b → a < b := by
      intro a b h
      induction h with
      | single hedge =>
        obtain ⟨p, hp, rfl, hq⟩ := hedge
        exact (hparents p hp _ hq).2
      | tail _ hedge ih =>
        obtain ⟨p, hp, rfl, hq⟩ := hedge
        exact List.lt_trans ih (hparents p hp _ hq).2
    intro x hx
    exact List.lt_irrefl x (hlt hx)

/-- Blocks of 64 bytes. -/
def exampleNode (k : Nat) : Addr := UInt32.ofNat (4096 + 64 * k)

theorem declares_exampleTable : Declares exampleTable :=
  declares_of_lt (by decide) (by decide) (by decide)

theorem distinct_exampleNode : Distinct exampleNode 8 := by
  unfold Distinct
  decide

/-- When `D` has its child `E`, the search for `B` ends in the children of `D`, and `C` is
    registered at the root. -/
theorem lookup_complete_fails :
    (¬ ∀ s, Ordered s → ∀ name, Finds s name) ∧
    ¬ ∀ (node : Nat → Addr) (console_help console_exit console_history : UInt32)
      (table : List InitCmd), Declares table → Distinct node (3 + table.length) →
      ∃ s, console_init node console_help console_exit console_history table.length table =
        some s ∧ Registered table s.console := by
  constructor
  · intro h
    have hstarted := @started_registerAll exampleNode 0 0 0 _ sound_declaredParent
      (exampleTable.take 4) (fun i hi j hj => distinct_exampleNode i
        (Nat.lt_of_lt_of_le hi (by decide)) j (Nat.lt_of_lt_of_le hj (by decide)))
    obtain ⟨c, hc, -⟩ := h _ hstarted.allocated.ordered [66] (by decide +kernel)
    have hmissed : console_find_cmd (registerAll exampleNode declaredParent
        (registerBuiltins exampleNode 0 0 0) (exampleTable.take 4)) [66] = some none := by
      decide +kernel
    rw [hmissed] at hc
    cases hc
  · intro h
    obtain ⟨s, hs, hreg⟩ := h exampleNode 0 0 0 exampleTable declares_exampleTable
      distinct_exampleNode
    -- the command `C` has no parent
    have hroot : (console_init exampleNode 0 0 0 exampleTable.length exampleTable).all
        (fun s => (tableCmds s.console).any fun c => c.cmd = [67] ∧ c.parent = none) = true := by
      decide +kernel
    rw [hs, Option.all_some, List.any_eq_true] at hroot
    obtain ⟨c, hc, hroot⟩ := hroot
    obtain ⟨hname, hnone⟩ : c.cmd = [67] ∧ c.parent = none := by simpa using hroot
    obtain ⟨d, -, -, hd⟩ := hreg.parent (exampleEntry 67 (some 66)) (by decide) c hc hname
    rw [hnone] at hd
    cases hd

/-- The same table, and the tree that it declares. -/
theorem lookup_complete_exampleTable :
    (Finds init [66] ↔ ((∃ c ∈ init.cmds, c.cmd = [66]) → OnSpine init [66] none)) ∧
    ((∃ s, console_init exampleNode 0 0 0 5 exampleTable = some s ∧
        Registered exampleTable s.console) ↔
      ∀ pre p post q, order exampleTable = pre ++ p :: post → p.parent = some q →
        q ∉ builtinNames ∧ OnSpine (declaredTree exampleNode 0 0 0 pre) q none) :=
  lookup_complete_iff ordered_init [66] exampleNode 0 0 0 declares_exampleTable
    distinct_exampleNode

end Hcrtos.Native.Console
