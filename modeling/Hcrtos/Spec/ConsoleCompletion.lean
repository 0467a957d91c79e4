import Mathlib.Data.List.Nodup
import Hcrtos.Spec.ConsoleAbbrev

/-!
# Completion and execution

The words before the last one select a command at each level. The lookup takes a full name
whatever its length and only commands of its mode; the completion takes commands of any mode
and wants the length of the shortest abbreviation, also from a full name.

## Key results

- `console_find_cmd2_append`: the lookup goes on from the level to which words lead it
- `completionsFrom_eq`: the level at which a completion ends
- `pathAgrees_iff`: when both walks end at one level
- `completes_iff`: when the completions are what the lookup would take
-/

namespace Hcrtos.Native.Console

open CString Lts

/-! ### The two walks -/

/-- The lookup of words that lead to a level continues from that level with the rest. -/
theorem console_find_cmd2_append (run : UInt32 → List CStr → Console → Int × Console)
    {s : Console} {mode : Nat} {words rest : List CStr} {parent q : Option Addr}
    (h : leadsTo s mode words parent = some q) (hrest : rest ≠ []) :
    ∃ finish : Int × Console → Int × Console,
      console_find_cmd2 run s mode (words ++ rest) parent =
        (console_find_cmd2 run s mode rest q).map finish := by
  induction words generalizing parent with
  | nil =>
    obtain rfl : parent = q := by simpa [leadsTo] using h
    exact ⟨id, by simp⟩
  | cons w words ih =>
    simp only [leadsTo] at h
    cases hlookup : lookup (s.level parent) mode w with
    | found c =>
      simp only [hlookup] at h
      split at h
      · contradiction
      · rename_i hchildren
        obtain ⟨finish, hfinish⟩ := ih h
        rw [List.cons_append, console_find_cmd2, hlookup]
        simp only [hchildren, false_or, List.append_eq_nil_iff, hrest, and_false, if_false,
          hfinish, Option.map_map]
        exact ⟨_, rfl⟩
    | _ => simp [hlookup] at h

/-- A word that reaches the shortest abbreviation of a command. -/
def Abbreviates (word : CStr) (c : ConsoleCmd) : Prop :=
  BeginsWith c.cmd word ∧ c.unique_len ≤ word.length

instance (word : CStr) (c : ConsoleCmd) : Decidable (Abbreviates word c) := by
  unfold Abbreviates; infer_instance

/-- The level that the words reach by abbreviations: each one stands for the first command,
    of any mode, whose shortest abbreviation it reaches. -/
def abbreviated (s : Console) : List CStr → Option Addr → Option (Option Addr)
  | [], parent => some parent
  | w :: words, parent =>
    ((s.level parent).find? fun c => Abbreviates w c).bind fun c =>
      abbreviated s words (some c.addr)

theorem completionsFrom_eq (s : Console) (last : CStr) (words : List CStr)
    (parent : Option Addr) : completionsFrom s (fun _ => true) last words (s.level parent) =
      match abbreviated s words parent with
      | none => []
      | some q => (s.level q).filter fun c => BeginsWith c.cmd last := by
  induction words generalizing parent with
  | nil =>
    simp only [completionsFrom, abbreviated, Bool.true_and]
    apply List.filter_congr
    intro c _
    simp only [← strncasecmp_length_iff, Bool.decide_eq_true]
  | cons w words ih =>
    have htest : (fun c : ConsoleCmd => true && strncasecmp c.cmd w w.length &&
        !decide (w.length < c.unique_len)) = fun c => decide (Abbreviates w c) := by
      funext c
      simp only [Bool.true_and, Abbreviates, ← strncasecmp_length_iff]
      by_cases hle : c.unique_len ≤ w.length
      · simp [hle]
      · simp [hle, Nat.lt_of_not_le hle]
    simp only [completionsFrom, abbreviated, htest]
    cases (s.level parent).find? fun c => decide (Abbreviates w c) with
    | none => rfl
    | some c => exact ih (some c.addr)

/-- A found command is one of the level, and the word begins its name. -/
theorem lookup_found {cmds : List ConsoleCmd} {mode : Nat} {word : CStr} {c : ConsoleCmd}
    (h : lookup cmds mode word = .found c) : c ∈ cmds ∧ BeginsWith c.cmd word := by
  simp only [lookup] at h
  split at h
  · contradiction
  · split at h
    · contradiction
    · split at h
      · contradiction
      · rename_i d hfind
        cases h
        exact ⟨List.mem_of_find?_eq_some hfind, (selects_iff.mp (List.find?_some hfind)).2.1⟩

/-! ### Levels of the tree -/

/-- No two commands have one address. -/
def Unaliased (s : Console) : Prop := (s.cmds.map ConsoleCmd.addr).Nodup

theorem unaliased_step {s s' : Console} {r : Registration} (h : Unaliased s)
    (hs : step s r = some s') : Unaliased s' := by
  simp only [step] at hs
  split at hs
  · rename_i hok
    cases hs
    have haddr : ∀ t, (console_build_shortest t).cmds.map ConsoleCmd.addr =
        t.cmds.map ConsoleCmd.addr := fun t => by
      simp [console_build_shortest]
    rw [Unaliased, _console_register_cmd, haddr]
    cases hnode : r.node with
    | none => exact h
    | some a =>
      simp only [console_register_cmd2, List.map_append, List.map_cons, List.map_nil]
      rw [List.nodup_append]
      refine ⟨h, by simp, ?_⟩
      intro b hb b' hb'
      obtain ⟨c, hc, rfl⟩ := List.mem_map.mp hb
      obtain rfl : b' = a := by simpa using hb'
      have hfresh := hok.1
      simp only [hnode, Option.all_some, List.all_eq_true, decide_eq_true_eq] at hfresh
      exact hfresh c hc
  · contradiction

theorem unaliased_run {s : Console} {tr : List Registration} (hrun : run step init tr = some s) :
    Unaliased s := by
  refine run_invariant step (fun _ _ _ h hs => unaliased_step h hs) ?_ hrun
  simp [Unaliased, init]

theorem Unaliased.eq {s : Console} (h : Unaliased s) {c d : ConsoleCmd} (hc : c ∈ s.cmds)
    (hd : d ∈ s.cmds) (haddr : c.addr = d.addr) : c = d :=
  List.inj_on_of_nodup_map h hc hd haddr

/-- The level above a level. -/
def above (s : Console) (parent : Option Addr) : Option (Option Addr) :=
  parent.bind fun a => (s.cmds.find? fun c => c.addr = a).map ConsoleCmd.parent

/-- The level `n` levels up. -/
def up (s : Console) : Nat → Option Addr → Option (Option Addr)
  | 0, parent => some parent
  | n + 1, parent => (up s n parent).bind (above s)

theorem Unaliased.above_eq {s : Console} (h : Unaliased s) {c : ConsoleCmd}
    {parent : Option Addr} (hc : c ∈ s.level parent) : above s (some c.addr) = some parent := by
  obtain ⟨hmem, hparent⟩ := mem_level.mp hc
  rw [above, Option.bind_some]
  cases hfind : s.cmds.find? fun d => d.addr = c.addr with
  | none =>
    have := List.find?_eq_none.mp hfind c hmem
    simp at this
  | some d =>
    have haddr : d.addr = c.addr := by simpa using List.find?_some hfind
    rw [h.eq (List.mem_of_find?_eq_some hfind) hmem haddr, Option.map_some, hparent]

theorem Unaliased.up_abbreviated {s : Console} (h : Unaliased s) {words : List CStr}
    {parent q : Option Addr} (hq : abbreviated s words parent = some q) :
    up s words.length q = some parent := by
  induction words generalizing parent with
  | nil =>
    obtain rfl : parent = q := by simpa [abbreviated] using hq
    rfl
  | cons w words ih =>
    rw [abbreviated, Option.bind_eq_some_iff] at hq
    obtain ⟨c, hc, hq⟩ := hq
    rw [List.length_cons, up, ih hq, Option.bind_some]
    exact h.above_eq (List.mem_of_find?_eq_some hc)

theorem leadsTo_cons {s : Console} {mode : Nat} {w : CStr} {words : List CStr}
    {parent q : Option Addr} : leadsTo s mode (w :: words) parent = some q ↔
      ∃ c, lookup (s.level parent) mode w = .found c ∧ s.children c ≠ [] ∧
        leadsTo s mode words (some c.addr) = some q := by
  rw [leadsTo]
  cases lookup (s.level parent) mode w with
  | found c =>
    simp only [Lookup.found.injEq, exists_eq_left']
    split
    · simp [*]
    · simp [*]
  | _ => simp

theorem Unaliased.up_leadsTo {s : Console} (h : Unaliased s) {mode : Nat} {words : List CStr}
    {parent q : Option Addr} (hq : leadsTo s mode words parent = some q) :
    up s words.length q = some parent := by
  induction words generalizing parent with
  | nil =>
    obtain rfl : parent = q := by simpa [leadsTo] using hq
    rfl
  | cons w words ih =>
    obtain ⟨c, hc, -, hq⟩ := leadsTo_cons.mp hq
    rw [List.length_cons, up, ih hq, Option.bind_some]
    exact h.above_eq (lookup_found hc).1

/-! ### Agreement of the walks -/

/-- Each word that the lookup finds reaches the shortest abbreviation of its command, and
    that of no command registered before it, whatever its mode. -/
def PathAgrees (s : Console) (mode : Nat) : List CStr → Option Addr → Prop
  | [], _ => True
  | w :: words, parent => ∀ c, lookup (s.level parent) mode w = .found c →
      c.unique_len ≤ w.length ∧
        (∀ d ∈ (s.level parent).takeWhile (· ≠ c), ¬ Abbreviates w d) ∧
        PathAgrees s mode words (some c.addr)

theorem find?_eq_some_iff_takeWhile {α : Type} [DecidableEq α] {l : List α} {p : α → Bool}
    {a : α} (ha : a ∈ l) :
    l.find? p = some a ↔ p a = true ∧ ∀ b ∈ l.takeWhile (· ≠ a), p b = false := by
  induction l with
  | nil => contradiction
  | cons b l ih =>
    by_cases hab : b = a
    · subst hab
      simp only [List.find?_cons, ne_eq, not_true_eq_false, decide_false, Bool.false_eq_true,
        not_false_eq_true, List.takeWhile_cons_of_neg, List.not_mem_nil, false_imp_iff,
        implies_true, and_true]
      cases hp : p b with
      | true => simp
      | false =>
        simp only [Bool.false_eq_true, iff_false]
        intro hfind
        simp [List.find?_some hfind] at hp
    · have ih := ih ((List.mem_cons.mp ha).resolve_left (Ne.symm hab))
      rw [List.takeWhile_cons_of_pos (by simpa using hab), List.find?_cons]
      cases hp : p b with
      | true => simp [hp, hab]
      | false => simp [hp, ih]

/-- The two walks end at one level exactly when they agree at every level of the path. -/
theorem pathAgrees_iff {s : Console} (h : Unaliased s) {mode : Nat} {words : List CStr}
    {parent q : Option Addr} (hq : leadsTo s mode words parent = some q) :
    PathAgrees s mode words parent ↔ abbreviated s words parent = some q := by
  induction words generalizing parent with
  | nil => simpa [PathAgrees, abbreviated, leadsTo] using hq
  | cons w words ih =>
    obtain ⟨c, hc, -, hq⟩ := leadsTo_cons.mp hq
    obtain ⟨hmem, hbegins⟩ := lookup_found hc
    have hfind : (s.level parent).find? (fun d => Abbreviates w d) = some c ↔
        c.unique_len ≤ w.length ∧
          ∀ d ∈ (s.level parent).takeWhile (· ≠ c), ¬ Abbreviates w d := by
      rw [find?_eq_some_iff_takeWhile hmem]
      simp only [decide_eq_true_eq, decide_eq_false_iff_not]
      exact and_congr_left' (and_iff_right hbegins)
    rw [PathAgrees, abbreviated, Option.bind_eq_some_iff]
    constructor
    · intro hagrees
      obtain ⟨hlen, hfirst, hrest⟩ := hagrees c hc
      exact ⟨c, hfind.mpr ⟨hlen, hfirst⟩, (ih hq).mp hrest⟩
    · rintro ⟨d, hd, hdq⟩ c' hc'
      obtain rfl : c = c' := by simpa [hc] using hc'
      -- both paths to the level come from one command of this level
      have hdmem := List.mem_of_find?_eq_some hd
      have haddr : d.addr = c.addr := by
        have hup := h.up_abbreviated hdq
        rw [h.up_leadsTo hq] at hup
        simpa [eq_comm] using hup
      obtain rfl := h.eq (mem_level.mp hdmem).1 (mem_level.mp hmem).1 haddr
      obtain ⟨hlen, hfirst⟩ := hfind.mp hd
      exact ⟨hlen, hfirst, (ih hq).mpr hdq⟩

/-! ### The completions -/

/-- The commands of a level whose names a word begins. -/
def begun (s : Console) (parent : Option Addr) (last : CStr) : List ConsoleCmd :=
  (s.level parent).filter fun c => BeginsWith c.cmd last

/-- What the lookup would take for the last word of a line is what the completion offers. -/
def Completes (s : Console) (mode : Nat) (line : CStr) (max_completions : Nat) : Prop :=
  ∀ words last, completionWords line = some (words, last) →
    ∀ parent, leadsTo s mode words s.current = some parent →
      currentCompletions s line max_completions =
        (s.level parent).filter fun c => c.mode = mode ∧ BeginsWith c.cmd last

/-- The commands begun by the last word that there is room for are those of the mode of the
    lookup. -/
def ModeAgrees (s : Console) (mode : Nat) (parent : Option Addr) (last : CStr)
    (max_completions : Nat) : Prop :=
  (∀ c ∈ (begun s parent last).take max_completions, c.mode = mode) ∧
    ∀ c ∈ (begun s parent last).drop max_completions, c.mode ≠ mode

/-- Neither walk ends at a level with a command to take. -/
def NothingBegun (s : Console) (mode : Nat) (words : List CStr) (parent : Option Addr)
    (last : CStr) (max_completions : Nat) : Prop :=
  (∀ c ∈ begun s parent last, c.mode ≠ mode) ∧
    ∀ q, abbreviated s words s.current = some q → max_completions = 0 ∨ begun s q last = []

/-- The condition on a tree and a line under which completion and lookup agree. -/
def Agrees (s : Console) (mode : Nat) (line : CStr) (max_completions : Nat) : Prop :=
  ∀ words last, completionWords line = some (words, last) →
    ∀ parent, leadsTo s mode words s.current = some parent →
      PathAgrees s mode words s.current ∧ ModeAgrees s mode parent last max_completions ∨
        NothingBegun s mode words parent last max_completions

theorem take_eq_filter_iff {α : Type} {l : List α} {n : Nat} {p : α → Bool} :
    l.take n = l.filter p ↔ (∀ a ∈ l.take n, p a = true) ∧ ∀ a ∈ l.drop n, ¬ p a = true := by
  have hsplit : l.filter p = (l.take n).filter p ++ (l.drop n).filter p := by
    rw [← List.filter_append, List.take_append_drop]
  constructor
  · intro heq
    have htake : ∀ a ∈ l.take n, p a = true := fun a ha => by
      rw [heq] at ha
      exact (List.mem_filter.mp ha).2
    refine ⟨htake, ?_⟩
    -- the taken part is the whole filtered list, so the rest adds nothing to it
    rw [List.filter_eq_self.mpr htake, ← heq, List.self_eq_append_right,
      List.filter_eq_nil_iff] at hsplit
    exact hsplit
  · rintro ⟨htake, hdrop⟩
    rw [hsplit, List.filter_eq_self.mpr htake, List.filter_eq_nil_iff.mpr hdrop, List.append_nil]

theorem filter_mode_eq (s : Console) (mode : Nat) (parent : Option Addr) (last : CStr) :
    ((s.level parent).filter fun c => c.mode = mode ∧ BeginsWith c.cmd last) =
      (begun s parent last).filter fun c => c.mode = mode := by
  rw [begun, List.filter_filter]
  apply List.filter_congr
  intro c _
  simp

/-- What `currentCompletions` takes, by the level that the abbreviations reach. -/
theorem currentCompletions_eq {s : Console} {line last : CStr} {words : List CStr} {n : Nat}
    (h : completionWords line = some (words, last)) : currentCompletions s line n =
      match abbreviated s words s.current with
      | none => []
      | some q => (begun s q last).take n := by
  rw [currentCompletions, h]
  simp only [Console.cmds_current, completionsFrom_eq]
  cases abbreviated s words s.current with
  | none => exact List.take_nil
  | some q => rfl

/-- The completions of one line at one level. -/
theorem currentCompletions_eq_iff {s : Console} (h : Unaliased s) {mode : Nat} {line last : CStr}
    {words : List CStr} {parent : Option Addr} {n : Nat}
    (hline : completionWords line = some (words, last))
    (hlead : leadsTo s mode words s.current = some parent) :
    (currentCompletions s line n =
        (s.level parent).filter fun c => c.mode = mode ∧ BeginsWith c.cmd last) ↔
      PathAgrees s mode words s.current ∧ ModeAgrees s mode parent last n ∨
        NothingBegun s mode words parent last n := by
  have hmode : (begun s parent last).take n =
      (begun s parent last).filter (fun c => c.mode = mode) ↔
        ModeAgrees s mode parent last n := by
    rw [take_eq_filter_iff]
    simp [ModeAgrees]
  rw [currentCompletions_eq hline, filter_mode_eq, pathAgrees_iff h hlead]
  cases hq : abbreviated s words s.current with
  | none =>
    simp only [NothingBegun, hq, reduceCtorEq, false_and, false_or, false_imp_iff, implies_true,
      and_true]
    rw [eq_comm, List.filter_eq_nil_iff]
    simp
  | some q =>
    by_cases hqp : q = parent
    · subst hqp
      simp only [true_and, hmode]
      constructor
      · exact .inl
      · rintro (hm | ⟨hnone, hq'⟩)
        · exact hm
        · refine ⟨?_, fun c hc => hnone c (List.mem_of_mem_drop hc)⟩
          -- nothing is taken at all
          cases hq' q hq with
          | inl hn => simp [hn]
          | inr hnil => simp [hnil]
    · have hqp' : some q ≠ some parent := by simpa using hqp
      simp only [hqp', false_and, false_or]
      constructor
      · intro heq
        -- a command in both lists would be at two levels
        have hnil : (begun s parent last).filter (fun c => c.mode = mode) = [] := by
          apply List.eq_nil_iff_forall_not_mem.mpr
          intro c hc
          have hc' := heq ▸ hc
          have hcp := (mem_level.mp (List.mem_of_mem_filter (List.mem_of_mem_filter hc))).2
          have hcq := (mem_level.mp (List.mem_of_mem_filter (List.mem_of_mem_take hc'))).2
          exact hqp (hcq.symm.trans hcp)
        rw [hnil, List.take_eq_nil_iff] at heq
        refine ⟨by simpa using hnil, ?_⟩
        intro q' hq'
        obtain rfl : q = q' := by simpa [hq] using hq'
        exact heq
      · rintro ⟨hnone, hq'⟩
        have hnil : (begun s parent last).filter (fun c => c.mode = mode) = [] := by
          simpa using hnone
        rw [hnil, List.take_eq_nil_iff]
        exact hq' q hq

/-- From every level of a tree built by registrations, a line is completed by what the lookup
    would take exactly when the walks agree on its words and the commands begun by the last
    one are of the mode of the lookup, or there is nothing to take. -/
theorem completes_iff {s : Console} {tr : List Registration} (hrun : run step init tr = some s)
    (current : Option Addr) (mode : Nat) (line : CStr) (max_completions : Nat) :
    Completes { s with current := current } mode line max_completions ↔
      Agrees { s with current := current } mode line max_completions := by
  have h : Unaliased { s with current := current } := (unaliased_run hrun : Unaliased s)
  constructor
  · intro hc words last hline parent hlead
    exact (currentCompletions_eq_iff h hline hlead).mp (hc words last hline parent hlead)
  · intro ha words last hline parent hlead
    exact (currentCompletions_eq_iff h hline hlead).mpr (ha words last hline parent hlead)

/-- The command `net` with the child `up`. -/
def netCommands : Console where
  cmds := [⟨1, [110, 101, 116], .dummy_callback, 1, 0, none, none⟩,
    ⟨2, [117, 112], .dummy_callback, 1, 0, none, some 1⟩]
  current := none

/-- The line `net ` is completed by `up`. -/
theorem completes_net : Completes netCommands CONSOLE_CMD_MODE_SELF [110, 101, 116, 32] 128 := by
  have hrun : run step init [rootRegistration [110, 101, 116] 1,
      ⟨some 1, [117, 112], none, 0, none, some 2⟩] = some netCommands := by decide
  apply (completes_iff hrun none _ _ _).mpr
  intro words last hline parent hlead
  have hwords : completionWords [110, 101, 116, 32] = some ([[110, 101, 116]], []) := by decide
  obtain ⟨rfl, rfl⟩ : [[110, 101, 116]] = words ∧ [] = last := by
    simpa only [hwords, Option.some.injEq, Prod.mk.injEq] using hline
  obtain rfl : some 1 = parent := Option.some.inj (Eq.trans (by decide) hlead)
  refine .inl ⟨?_, by decide, by decide⟩
  intro c hc
  have hnet : lookup (netCommands.level none) CONSOLE_CMD_MODE_SELF [110, 101, 116] =
      .found ⟨1, [110, 101, 116], .dummy_callback, 1, 0, none, none⟩ := by decide
  obtain rfl := Lookup.found.inj (hnet.symm.trans hc)
  exact ⟨by decide, by decide, trivial⟩

/-- With the commands `set`, which has the child `up`, and `setup`, the lookup takes `set` as
    the full name, and the completion of `set ` takes it as too short an abbreviation. -/
theorem completes_fails : ∃ s, run step init [rootRegistration [115, 101, 116] 1,
    rootRegistration [115, 101, 116, 117, 112] 2, ⟨some 1, [117, 112], none, 0, none, some 3⟩] =
      some s ∧ DistinctNames s ∧ ¬ Completes s CONSOLE_CMD_MODE_SELF [115, 101, 116, 32] 128 := by
  refine ⟨_, rfl, distinctNames_of_pairwise (by decide), fun hc => ?_⟩
  have hline := hc [[115, 101, 116]] [] (by decide) (some 1) (by decide)
  revert hline
  decide

end Hcrtos.Native.Console
