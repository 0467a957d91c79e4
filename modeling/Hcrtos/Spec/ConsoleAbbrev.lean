import Hcrtos.Native.Console

/-!
# Abbreviations of the console commands

`console_build_shortest` compares the names of a level byte by byte, the lookup ignores the
case. A word may therefore be long enough for two commands whose names part only by case, and
even the full name of a command may be an abbreviation of another one.

## Key results

- `shortest_le_iff`: what the length of the shortest abbreviation means for names of usual length
- `selects_iff`: the words that select a command
- `resolves_iff`: the trees in which every word selects at most one command of a level
-/

namespace Hcrtos.Native.Console

open CString Lts

/-! ### The shortest abbreviations -/

theorem prefixLen_eq (c p : CStr) : prefixLen c p = commonLen c p + 1 := by
  induction c generalizing p with
  | nil => cases p <;> rfl
  | cons a c ih =>
    cases p with
    | nil => rfl
    | cons b p =>
      simp only [prefixLen, commonLen]
      split
      · rw [ih]
      · rfl

theorem shortest_le_iff {cmds : List ConsoleCmd} {c : ConsoleCmd} {n : Nat}
    (hlen : c.cmd.length < 65535) : shortest cmds c ≤ n ↔
      1 ≤ n ∧ ∀ p ∈ cmds, p.addr ≠ c.addr → commonLen c.cmd p.cmd < n := by
  suffices h : ∀ init, cmds.foldl (fun unique_len p =>
      if p.addr = c.addr then unique_len
      else if prefixLen c.cmd p.cmd > unique_len then prefixLen c.cmd p.cmd % 65536
      else unique_len) init ≤ n ↔
        init ≤ n ∧ ∀ p ∈ cmds, p.addr ≠ c.addr → commonLen c.cmd p.cmd < n from h 1
  induction cmds with
  | nil => simp
  | cons p cmds ih =>
    intro init
    rw [List.foldl_cons, ih, List.forall_mem_cons, ← and_assoc]
    apply and_congr_left'
    by_cases haddr : p.addr = c.addr
    · simp [haddr]
    · -- a common prefix of a name this short fits into 16 bits
      have hfit : prefixLen c.cmd p.cmd % 65536 = commonLen c.cmd p.cmd + 1 := by
        rw [prefixLen_eq]
        have := commonLen_le_left c.cmd p.cmd
        exact Nat.mod_eq_of_lt (by omega)
      rw [if_neg haddr, hfit, prefixLen_eq]
      simp only [ne_eq, haddr, not_false_eq_true, true_imp_iff]
      split <;> omega

/-- Every command has the abbreviation that its level gives it. -/
def Built (s : Console) : Prop := ∀ c ∈ s.cmds, c.unique_len = shortest (s.level c.parent) c

theorem mem_level {s : Console} {parent : Option Addr} {c : ConsoleCmd} :
    c ∈ s.level parent ↔ c ∈ s.cmds ∧ c.parent = parent := by
  simp [Console.level]

/-- The lengths depend on the names and the addresses of a level only. -/
theorem shortest_map {cmds : List ConsoleCmd} {c c' : ConsoleCmd} (f : ConsoleCmd → Nat)
    (haddr : c'.addr = c.addr) (hcmd : c'.cmd = c.cmd) :
    shortest (cmds.map fun c => { c with unique_len := f c }) c' = shortest cmds c := by
  simp only [shortest, List.foldl_map, haddr, hcmd]

theorem level_build (s : Console) (parent : Option Addr) :
    (console_build_shortest s).level parent = (s.level parent).map fun c =>
      { c with unique_len := shortest (s.level c.parent) c } := by
  simp only [console_build_shortest, Console.level, List.filter_map]
  rfl

theorem built_build (s : Console) : Built (console_build_shortest s) := by
  intro c hc
  obtain ⟨d, -, rfl⟩ := List.mem_map.mp hc
  simp only [level_build]
  exact (shortest_map (fun c => shortest (s.level c.parent) c) rfl rfl).symm

theorem built_step {s s' : Console} {r : Registration} (hs : step s r = some s') : Built s' := by
  simp only [step] at hs
  split at hs
  · cases hs
    exact built_build _
  · contradiction

theorem built_run {s : Console} {tr : List Registration} (hrun : run step init tr = some s) :
    Built s := by
  refine run_invariant step (fun _ _ _ _ hs => built_step hs) ?_ hrun
  intro c hc
  simp [init] at hc

/-! ### The words that select a command -/

theorem selects_iff {mode : Nat} {word : CStr} {c : ConsoleCmd} :
    selects mode word c = true ↔ c.mode = mode ∧ BeginsWith c.cmd word ∧
      (word.length = c.cmd.length ∨ c.unique_len ≤ word.length) := by
  simp only [selects, Bool.and_eq_true, decide_eq_true_eq, strncasecmp_length_iff, and_assoc]
  apply and_congr_right'
  rw [strncasecmp_iff, and_comm]
  apply and_congr_right
  intro hword
  have htake := List.prefix_iff_eq_take.mp hword
  rw [length_lower] at htake
  by_cases hle : c.unique_len ≤ word.length
  · -- the word reaches the abbreviation, whose bytes it then has
    simp only [hle, or_true, iff_true]
    rw [htake, List.take_take, Nat.min_eq_left hle]
  · -- a shorter word is compared to its end, which must be that of the name
    simp only [hle, or_false]
    have hfull : (lower word).take c.unique_len = lower word :=
      List.take_of_length_le (by rw [length_lower]; omega)
    rw [hfull]
    constructor
    · intro heq
      have := congrArg List.length heq
      have hlt := hword.length_le
      simp only [List.length_take, length_lower] at this
      omega
    · intro heq
      rw [List.take_of_length_le (by rw [length_lower]; omega), hword.lower_eq heq]

/-! ### Ambiguous words -/

/-- The beginning of length `n` of the name of `a` selects `a` in its level: it is the whole
    name, or it has the length of the shortest abbreviation. -/
def Covers (cmds : List ConsoleCmd) (a : ConsoleCmd) (n : Nat) : Prop :=
  n = a.cmd.length ∨ shortest cmds a ≤ n

instance (cmds : List ConsoleCmd) (a : ConsoleCmd) (n : Nat) : Decidable (Covers cmds a n) := by
  unfold Covers; infer_instance

/-- The longest beginning that two names share, ignoring case. -/
def shared (a b : ConsoleCmd) : Nat := commonLen (lower a.cmd) (lower b.cmd)

/-- What two commands share does not select both of them. -/
structure Clear (s : Console) : Prop where
  apart : ∀ parent, ∀ a ∈ s.level parent, ∀ b ∈ s.level parent, a ≠ b → a.mode = b.mode →
    ¬ (Covers (s.level parent) a (shared a b) ∧ Covers (s.level parent) b (shared a b))
  named : ∀ c ∈ s.cmds, ∃ b, c.cmd.getLast? = some b ∧ b ≠ 63

/-- A word selects at most one command of a level, and a full name its command. -/
structure Resolves (s : Console) : Prop where
  unique : ∀ parent mode word, ∀ a ∈ s.level parent, ∀ b ∈ s.level parent,
    selects mode word a = true → selects mode word b = true → a = b
  full : ∀ parent, ∀ c ∈ s.level parent, lookup (s.level parent) c.mode c.cmd = .found c

theorem Covers.mono {cmds : List ConsoleCmd} {a : ConsoleCmd} {m n : Nat} (h : Covers cmds a m)
    (hmn : m ≤ n) (hn : n ≤ a.cmd.length) : Covers cmds a n := by
  cases h with
  | inl h => exact .inl (by omega)
  | inr h => exact .inr (by omega)

theorem shared_le_left (a b : ConsoleCmd) : shared a b ≤ a.cmd.length := by
  simpa [shared] using commonLen_le_left (lower a.cmd) (lower b.cmd)

theorem shared_comm (a b : ConsoleCmd) : shared a b = shared b a := commonLen_comm _ _

/-- A command is selected by a beginning of its name that covers it. -/
theorem selects_iff_covers {s : Console} (h : Built s) {parent : Option Addr} {a : ConsoleCmd}
    (ha : a ∈ s.level parent) {mode : Nat} {word : CStr} : selects mode word a = true ↔
      a.mode = mode ∧ BeginsWith a.cmd word ∧ Covers (s.level parent) a word.length := by
  obtain ⟨hmem, hparent⟩ := mem_level.mp ha
  rw [selects_iff, h a hmem, hparent, Covers]

/-- The longest shared beginning is the word that decides about two commands. -/
theorem ambiguous_iff {s : Console} (h : Built s) {parent : Option Addr} {a b : ConsoleCmd}
    (ha : a ∈ s.level parent) (hb : b ∈ s.level parent) :
    (∃ mode word, selects mode word a = true ∧ selects mode word b = true) ↔
      a.mode = b.mode ∧ Covers (s.level parent) a (shared a b) ∧
        Covers (s.level parent) b (shared a b) := by
  constructor
  · rintro ⟨mode, word, hsa, hsb⟩
    obtain ⟨rfl, hba, hca⟩ := (selects_iff_covers h ha).mp hsa
    obtain ⟨hmode, hbb, hcb⟩ := (selects_iff_covers h hb).mp hsb
    have hle : word.length ≤ shared a b := beginsWith_both_length_le hba hbb
    have hcb' := hcb.mono hle (shared_comm a b ▸ shared_le_left b a)
    exact ⟨hmode.symm, hca.mono hle (shared_le_left a b), hcb'⟩
  · rintro ⟨hmode, hca, hcb⟩
    have hlen : (a.cmd.take (shared a b)).length = shared a b := by
      have := shared_le_left a b
      rw [List.length_take]
      omega
    refine ⟨a.mode, a.cmd.take (shared a b), ?_, ?_⟩
    · exact (selects_iff_covers h ha).mpr ⟨rfl, beginsWith_take_left _ _, by rwa [hlen]⟩
    · exact (selects_iff_covers h hb).mpr
        ⟨hmode.symm, beginsWith_take_right (Nat.le_refl _), by rwa [hlen]⟩

theorem selects_self {mode : Nat} {c : ConsoleCmd} : selects mode c.cmd c = true ↔
    c.mode = mode := by
  rw [selects_iff]
  simp [beginsWith_self]

/-- In a tree built by registrations, a word selects at most one command of a level and each
    full name its command exactly when no two commands of a level and a mode are both selected
    by what their names share, and no name is empty or ends in a question mark. -/
theorem resolves_iff {s : Console} {tr : List Registration} (hrun : run step init tr = some s) :
    Resolves s ↔ Clear s := by
  have hbuilt := built_run hrun
  constructor
  · intro hres
    constructor
    · intro parent a ha b hb hne hmode hcovers
      obtain ⟨mode, word, hsa, hsb⟩ := (ambiguous_iff hbuilt ha hb).mpr ⟨hmode, hcovers⟩
      exact hne (hres.unique parent mode word a ha b hb hsa hsb)
    · intro c hc
      have hfull := hres.full c.parent c (mem_level.mpr ⟨hc, rfl⟩)
      -- only a word that does not ask for help is looked up
      simp only [lookup] at hfull
      split at hfull
      · contradiction
      · rename_i b hb
        split at hfull
        · contradiction
        · rename_i hne
          exact ⟨b, hb, hne⟩
  · intro hclear
    have hunique : ∀ parent mode word, ∀ a ∈ s.level parent, ∀ b ∈ s.level parent,
        selects mode word a = true → selects mode word b = true → a = b := by
      intro parent mode word a ha b hb hsa hsb
      by_contra hne
      obtain ⟨hmode, hcovers⟩ := (ambiguous_iff hbuilt ha hb).mp ⟨mode, word, hsa, hsb⟩
      exact hclear.apart parent a ha b hb hne hmode hcovers
    refine ⟨hunique, ?_⟩
    intro parent c hc
    obtain ⟨b, hb, hne⟩ := hclear.named c (mem_level.mp hc).1
    have hself : selects c.mode c.cmd c = true := selects_self.mpr rfl
    simp only [lookup, hb, if_neg hne]
    cases hfind : (s.level parent).find? (selects c.mode c.cmd) with
    | none => exact absurd hself (by simpa using List.find?_eq_none.mp hfind c hc)
    | some d =>
      have hd := hunique parent c.mode c.cmd d (List.mem_of_find?_eq_some hfind) c hc
        (List.find?_some hfind) hself
      simp only [hd]

/-- A registration at the root, in the mode of the current level and without a help text. -/
def rootRegistration (cmd : CStr) (node : Addr) : Registration :=
  ⟨none, cmd, none, CONSOLE_CMD_MODE_SELF, none, some node⟩

/-- The commands `reset` and `remove`, which no word confuses. -/
theorem resolves_reset_remove : ∃ s, run step init
    [rootRegistration [114, 101, 115, 101, 116] 1, rootRegistration [114, 101, 109, 111, 118, 101] 2]
      = some s ∧ Resolves s := by
  have hrun : run step init [rootRegistration [114, 101, 115, 101, 116] 1,
      rootRegistration [114, 101, 109, 111, 118, 101] 2] = some _ := rfl
  refine ⟨_, hrun, (resolves_iff hrun).mpr ?_⟩
  constructor
  · intro parent
    cases parent with
    | none => decide
    | some p => exact fun a ha => absurd ha List.not_mem_nil
  · decide

/-- Sibling names that differ in more than their case. -/
def DistinctNames (s : Console) : Prop :=
  ∀ parent, (s.level parent).Pairwise fun a b => lower a.cmd ≠ lower b.cmd

theorem distinctNames_of_pairwise {s : Console}
    (h : s.cmds.Pairwise fun a b => a.parent = b.parent → lower a.cmd ≠ lower b.cmd) :
    DistinctNames s := by
  intro parent
  apply List.Pairwise.imp_of_mem _ (h.filter _)
  intro a b ha hb hne
  exact hne ((mem_level.mp ha).2.trans (mem_level.mp hb).2.symm)

/-- With the commands `hello` and `He`, the full name of the second runs the first. -/
theorem resolves_fails : ∃ s, run step init
    [rootRegistration [104, 101, 108, 108, 111] 1, rootRegistration [72, 101] 2] = some s ∧
      DistinctNames s ∧ ¬ Resolves s := by
  refine ⟨_, rfl, distinctNames_of_pairwise (by decide), fun hres => ?_⟩
  have hfull := hres.full none _ (List.mem_cons_of_mem _ List.mem_cons_self)
  revert hfull
  decide

end Hcrtos.Native.Console
