import Hcrtos.Native.ConsoleInit
import Hcrtos.Spec.ConsoleCompletion

/-!
# Console commands: the search for a name

`console_find_cmd_ext` keeps what a child level gave in one variable for the whole level, so the
child level of a later command takes its place. What it finds is on the spine of the tree: a level,
the children of its last command that has some, and so on.

## Key results

- `ordered_run`: a command is registered after its parent
- `Ordered.find_cmd_spec`: the search ends, and finds the names of the spine
- `Ordered.find_cmd_root`: it finds the first root command with a name
-/

namespace Hcrtos.Native.Console

open CString Lts

/-! ### The order of the commands -/

/-- Addresses are unique, and a parent stands in front of its children. -/
structure Ordered (s : Console) : Prop where
  unaliased : Unaliased s
  above : ∀ (j : Nat) (d : ConsoleCmd), s.cmds[j]? = some d → ∀ a, d.parent = some a →
    ∃ i c, i < j ∧ s.cmds[i]? = some c ∧ c.addr = a

theorem ordered_init : Ordered init where
  unaliased := List.nodup_nil
  above := by
    intro j d hd
    cases hd

/-- A command apart from its shortest abbreviation, which every registration computes again. -/
def ConsoleCmd.core (c : ConsoleCmd) : ConsoleCmd := { c with unique_len := 0 }

/-- The command that a registration appends. -/
def newCmd (parent : Option Addr) (cmd : CStr) (callback : Option UInt32) (mode : Nat)
    (help : Option CStr) (a : Addr) : ConsoleCmd :=
  { addr := a
    cmd := cmd
    callback := (callback.map Callback.fn).getD .dummy_callback
    unique_len := 0
    mode := mode % 65536
    help := help
    parent := parent }

theorem register_cores (s : Console) (parent : Option Addr) (cmd : CStr)
    (callback : Option UInt32) (mode : Nat) (help : Option CStr) (a : Addr) :
    (_console_register_cmd s parent cmd callback mode help (some a)).cmds.map ConsoleCmd.core =
      s.cmds.map ConsoleCmd.core ++ [newCmd parent cmd callback mode help a] := by
  simp [_console_register_cmd, console_build_shortest, console_register_cmd2, ConsoleCmd.core,
    newCmd, Function.comp_def]

theorem core_get? {s : Console} {j : Nat} {d : ConsoleCmd} :
    (s.cmds.map ConsoleCmd.core)[j]? = some d ↔ ∃ c, s.cmds[j]? = some c ∧ c.core = d := by
  rw [List.getElem?_map, Option.map_eq_some_iff]

/-- The order is one of the commands without their abbreviations. -/
theorem ordered_iff {s : Console} : Ordered s ↔
    ((s.cmds.map ConsoleCmd.core).map ConsoleCmd.addr).Nodup ∧
      ∀ (j : Nat) (d : ConsoleCmd), (s.cmds.map ConsoleCmd.core)[j]? = some d →
        ∀ a, d.parent = some a →
          ∃ i c, i < j ∧ (s.cmds.map ConsoleCmd.core)[i]? = some c ∧ c.addr = a := by
  have haddr : (s.cmds.map ConsoleCmd.core).map ConsoleCmd.addr = s.cmds.map ConsoleCmd.addr := by
    simp [ConsoleCmd.core]
  rw [haddr]
  constructor
  · intro h
    refine ⟨h.unaliased, ?_⟩
    intro j d hd a ha
    obtain ⟨d', hd', rfl⟩ := core_get?.mp hd
    obtain ⟨i, c, hi, hc, rfl⟩ := h.above j d' hd' a ha
    exact ⟨i, c.core, hi, core_get?.mpr ⟨c, hc, rfl⟩, rfl⟩
  · rintro ⟨hnodup, habove⟩
    refine ⟨hnodup, ?_⟩
    intro j d hd a ha
    obtain ⟨i, c, hi, hc, rfl⟩ := habove j d.core (core_get?.mpr ⟨d, hd, rfl⟩) a ha
    obtain ⟨c', hc', rfl⟩ := core_get?.mp hc
    exact ⟨i, c', hi, hc', rfl⟩

/-- A registration under a command that is there, at an address that is free. -/
theorem Ordered.register {s : Console} (h : Ordered s) {parent : Option Addr} {cmd : CStr}
    {callback : Option UInt32} {mode : Nat} {help : Option CStr} {a : Addr}
    (hfresh : ∀ c ∈ s.cmds, c.addr ≠ a)
    (hparent : ∀ p, parent = some p → ∃ c ∈ s.cmds, c.addr = p) :
    Ordered (_console_register_cmd s parent cmd callback mode help (some a)) := by
  obtain ⟨hnodup, habove⟩ := ordered_iff.mp h
  rw [ordered_iff, register_cores]
  constructor
  · rw [List.map_append, List.map_singleton, List.nodup_append]
    refine ⟨hnodup, List.nodup_singleton _, ?_⟩
    intro b hb b' hb'
    obtain ⟨d, hd, rfl⟩ := List.mem_map.mp hb
    obtain ⟨c, hc, rfl⟩ := List.mem_map.mp hd
    obtain rfl := List.mem_singleton.mp hb'
    exact hfresh c hc
  · intro j d hd b hb
    rcases Nat.lt_or_ge j (s.cmds.map ConsoleCmd.core).length with hlt | hge
    · rw [List.getElem?_append_left hlt] at hd
      obtain ⟨i, c, hi, hc, haddr⟩ := habove j d hd b hb
      exact ⟨i, c, hi, by rwa [List.getElem?_append_left (by omega)], haddr⟩
    · -- the new command
      rw [List.getElem?_append_right hge, List.getElem?_singleton] at hd
      split at hd
      · cases hd
        obtain ⟨c, hc, rfl⟩ := hparent b hb
        obtain ⟨i, hi⟩ := List.mem_iff_getElem?.mp hc
        have hcore := core_get?.mpr ⟨c, hi, rfl⟩
        have hlt := (List.getElem?_eq_some_iff.mp hcore).1
        exact ⟨i, c.core, by omega, by rwa [List.getElem?_append_left hlt], rfl⟩
      · cases hd

theorem ordered_step {s s' : Console} {r : Registration} (h : Ordered s)
    (hs : step s r = some s') : Ordered s' := by
  rw [step] at hs
  split at hs
  · rename_i hok
    cases hs
    cases hnode : r.node with
    | none =>
      -- without a block nothing is registered
      have hcores : (console_build_shortest s).cmds.map ConsoleCmd.core =
          s.cmds.map ConsoleCmd.core := by
        simp [console_build_shortest, ConsoleCmd.core, Function.comp_def]
      rw [ordered_iff] at h ⊢
      rw [_console_register_cmd, console_register_cmd2, hcores]
      exact h
    | some a =>
      have hfresh := hok.1
      have hparent := hok.2
      simp only [hnode, Option.all_some, List.all_eq_true, decide_eq_true_eq] at hfresh
      refine h.register hfresh ?_
      intro p hp
      rw [hp, Option.all_some, List.any_eq_true] at hparent
      simpa using hparent
  · cases hs

theorem ordered_run {s : Console} {tr : List Registration} (hrun : run step init tr = some s) :
    Ordered s :=
  run_invariant step (fun _ _ _ h hs => ordered_step h hs) ordered_init hrun

/-! ### The search -/

/-- The last command of a level that has children. -/
def lastParent (s : Console) (parent : Option Addr) : Option ConsoleCmd :=
  ((s.level parent).filter fun p => s.children p ≠ []).getLast?

/-- A name in a level, or on the spine of the children of its last command with children. -/
inductive OnSpine (s : Console) (name : CStr) : Option Addr → Prop
  | here {parent : Option Addr} {c : ConsoleCmd} (hc : c ∈ s.level parent) (hname : c.cmd = name) :
      OnSpine s name parent
  | deeper {parent : Option Addr} {p : ConsoleCmd} (hp : lastParent s parent = some p)
      (hspine : OnSpine s name (some p.addr)) : OnSpine s name parent

/-- The loop ends at the first command with the name, or with what the last descent gave. -/
theorem findLoop_eq {s : Console} {name : CStr}
    {descend : ConsoleCmd → Option (Option ConsoleCmd)} {ps : List ConsoleCmd}
    (hdescend : ∀ p ∈ ps, s.children p ≠ [] → (descend p).isSome) :
    ∀ n, findLoop s name descend n ps =
      match ps.find? fun p => p.cmd = name with
      | some p => some (some p)
      | none =>
        match (ps.filter fun p => s.children p ≠ []).getLast? with
        | some p => descend p
        | none => some n := by
  induction ps with
  | nil =>
    intro n
    rfl
  | cons p ps ih =>
    intro n
    have ih := ih fun q hq => hdescend q (List.mem_cons_of_mem p hq)
    rw [findLoop]
    by_cases hname : p.cmd = name
    · simp [hname]
    · simp only [hname, if_false, List.find?_cons, decide_false]
      by_cases hchildren : s.children p = []
      · simp only [hchildren, ne_eq, not_true_eq_false, if_false, decide_false,
          List.filter_cons_of_neg, Bool.false_eq_true, not_false_eq_true, ih]
      · obtain ⟨n', hn'⟩ := Option.isSome_iff_exists.mp
          (hdescend p List.mem_cons_self hchildren)
        rw [if_pos hchildren, hn', Option.bind_some, ih, List.filter_cons_of_pos (by simpa)]
        -- a later command with children takes the place of this one
        rw [List.getLast?_cons]
        cases (ps.filter fun p => s.children p ≠ []).getLast? with
        | none => simp [hn']
        | some q => rfl

/-- The commands of a level that are left from any of them on are at most `n`. -/
def Within (s : Console) (n : Nat) (parent : Option Addr) : Prop :=
  ∀ (j : Nat) (d : ConsoleCmd), s.cmds[j]? = some d → d.parent = parent → s.cmds.length ≤ j + n

theorem within_root (s : Console) (parent : Option Addr) : Within s s.cmds.length parent :=
  fun _ _ _ _ => Nat.le_add_left _ _

/-- The children of a command stand behind it. -/
theorem Ordered.within_children {s : Console} (h : Ordered s) {n : Nat} {parent : Option Addr}
    (hwithin : Within s (n + 1) parent) {p : ConsoleCmd} (hp : p ∈ s.level parent) :
    Within s n (some p.addr) := by
  obtain ⟨hmem, hparent⟩ := mem_level.mp hp
  obtain ⟨i, hi⟩ := List.mem_iff_getElem?.mp hmem
  intro j d hd hbelow
  obtain ⟨i', c, hlt, hc, haddr⟩ := h.above j d hd p.addr hbelow
  obtain rfl := h.unaliased.eq (List.mem_of_getElem? hc) hmem haddr
  have hle := hwithin i' c hc hparent
  omega

/-- A name that a level does not have is on its spine when it is below its last parent. -/
theorem onSpine_iff {s : Console} {name : CStr} {parent : Option Addr}
    (hmissed : (s.level parent).find? (fun p => p.cmd = name) = none) :
    OnSpine s name parent ↔ ∃ p, lastParent s parent = some p ∧ OnSpine s name (some p.addr) := by
  constructor
  · intro h
    cases h with
    | here hc hname => exact absurd hname (by simpa using List.find?_eq_none.mp hmissed _ hc)
    | deeper hp hspine => exact ⟨_, hp, hspine⟩
  · rintro ⟨p, hp, hspine⟩
    exact .deeper hp hspine

theorem lastParent_spec {s : Console} {parent : Option Addr} {p : ConsoleCmd}
    (h : lastParent s parent = some p) : p ∈ s.level parent ∧ s.children p ≠ [] := by
  have hp := List.mem_of_getLast? h
  rw [List.mem_filter] at hp
  exact ⟨hp.1, by simpa using hp.2⟩

/-- What the search finds in a level, with a fuel for the commands that are left. -/
theorem Ordered.find_spec {s : Console} (h : Ordered s) (name : CStr) {n : Nat} :
    ∀ {parent : Option Addr}, Within s n parent →
      ∃ r, console_find_cmd_ext s name (n + 1) parent = some r ∧
        (∀ c, r = some c → c ∈ s.cmds ∧ c.cmd = name) ∧ (r.isSome ↔ OnSpine s name parent) := by
  induction n with
  | zero =>
    intro parent hwithin
    -- nothing is left for the level
    have hempty : s.level parent = [] := by
      rw [List.eq_nil_iff_forall_not_mem]
      intro c hc
      obtain ⟨hmem, hparent⟩ := mem_level.mp hc
      obtain ⟨i, hi⟩ := List.mem_iff_getElem?.mp hmem
      have hle := hwithin i c hi hparent
      have hlt := (List.getElem?_eq_some_iff.mp hi).1
      omega
    have hmissed : (s.level parent).find? (fun p => p.cmd = name) = none := by
      rw [hempty]
      rfl
    refine ⟨none, ?_, by simp, ?_⟩
    · rw [console_find_cmd_ext, hempty]
      rfl
    · rw [onSpine_iff hmissed]
      simp [lastParent, hempty]
  | succ n ih =>
    intro parent hwithin
    have hdescend : ∀ p ∈ s.level parent, s.children p ≠ [] →
        (console_find_cmd_ext s name (n + 1) (some p.addr)).isSome := by
      intro p hp _
      obtain ⟨r, hr, -⟩ := ih (h.within_children hwithin hp)
      rw [hr]
      rfl
    rw [console_find_cmd_ext, findLoop_eq hdescend]
    cases hfind : (s.level parent).find? fun p => p.cmd = name with
    | some c =>
      have hc := List.mem_of_find?_eq_some hfind
      have hname : c.cmd = name := by simpa using List.find?_some hfind
      refine ⟨some c, rfl, ?_, iff_of_true rfl (.here hc hname)⟩
      intro d hd
      cases hd
      exact ⟨(mem_level.mp hc).1, hname⟩
    | none =>
      rw [onSpine_iff hfind]
      cases hlast : lastParent s parent with
      | none =>
        rw [lastParent] at hlast
        exact ⟨none, by rw [hlast], by simp, by simp⟩
      | some p =>
        obtain ⟨r, hr, hfound, hspine⟩ := ih (h.within_children hwithin (lastParent_spec hlast).1)
        rw [lastParent] at hlast
        exact ⟨r, by rw [hlast]; exact hr, hfound, by simpa using hspine⟩

/-- The search ends, and finds the names of the spine. -/
theorem Ordered.find_cmd_spec {s : Console} (h : Ordered s) (name : CStr) :
    ∃ r, console_find_cmd s name = some r ∧ (∀ c, r = some c → c ∈ s.cmds ∧ c.cmd = name) ∧
      (r.isSome ↔ OnSpine s name none) :=
  h.find_spec name (within_root s none)

/-- The first command of the root level with the name is found. -/
theorem Ordered.find_cmd_root {s : Console} (h : Ordered s) {name : CStr} {c : ConsoleCmd}
    (hc : s.cmds_root.find? (fun p => p.cmd = name) = some c) :
    console_find_cmd s name = some (some c) := by
  have hdescend : ∀ p ∈ s.level none, s.children p ≠ [] →
      (console_find_cmd_ext s name s.cmds.length (some p.addr)).isSome := by
    intro p hp _
    obtain ⟨i, hi⟩ := List.mem_iff_getElem?.mp (mem_level.mp hp).1
    have hlt := (List.getElem?_eq_some_iff.mp hi).1
    obtain ⟨n, hn⟩ : ∃ n, s.cmds.length = n + 1 := ⟨s.cmds.length - 1, by omega⟩
    obtain ⟨r, hr, -⟩ := h.find_spec name
      (h.within_children (n := n) (hn ▸ within_root s none) hp)
    rw [hn, hr]
    rfl
  rw [console_find_cmd, console_find_cmd_ext, findLoop_eq hdescend]
  rw [Console.cmds_root] at hc
  rw [hc]

end Hcrtos.Native.Console
