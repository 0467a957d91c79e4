import Mathlib.Data.List.Basic
import Mathlib.Tactic.ByContra

/-!
# Runs of deterministic labelled transition systems

A system is a partial step function `step : σ → α → Option σ`: the label carries every
choice of the environment (which party moves, what a call outside the program returns),
and `none` says that the label is not enabled. Safety statements about a system quantify
over its runs.

## Key results

- `run_append`: a run of a concatenation splits at the middle state
- `run_invariant`: an invariant kept by every step holds after every run
- `run_invariant_of_meets`: the same when each step of the run meets a side condition
- `always_of_meets`: a property that the invariant implies holds all along such a run
- `always_iff_meets_of_always`, `always_iff_meets`: when breaking the side condition breaks the
  property, the two hold of the same runs
- `run_iff_meets`: when it breaks the property of the last state
-/

namespace Hcrtos.Lts

variable {σ α : Type*} (step : σ → α → Option σ)

/-- The state after performing the labels of `tr` in order, if each one is enabled. -/
def run : σ → List α → Option σ
  | s, [] => some s
  | s, a :: tr => (step s a).bind fun s' => run s' tr

/-- Every step of the run from `s` along `tr` starts in a state that satisfies `G` together
    with the label taken there. -/
def Meets (G : σ → α → Prop) : σ → List α → Prop
  | _, [] => True
  | s, a :: tr => G s a ∧ ∀ s', step s a = some s' → Meets G s' tr

/-- Every state that the run from `s` along `tr` goes through satisfies `P`. -/
def Always (P : σ → Prop) : σ → List α → Prop
  | s, [] => P s
  | s, a :: tr => P s ∧ ∀ s', step s a = some s' → Always P s' tr

/-- A property of the whole run is one of its start. -/
theorem Always.head {P : σ → Prop} {s : σ} {tr : List α} (h : Always step P s tr) : P s := by
  cases tr with
  | nil => exact h
  | cons a tr => exact h.1

theorem always_true (s : σ) (tr : List α) : Always step (fun _ => True) s tr := by
  induction tr generalizing s with
  | nil => trivial
  | cons a tr ih => exact ⟨trivial, fun s' _ => ih s'⟩

@[simp] theorem run_nil (s : σ) : run step s [] = some s := rfl

theorem run_cons (s : σ) (a : α) (tr : List α) :
    run step s (a :: tr) = (step s a).bind fun s' => run step s' tr := rfl

/-- A run of a nonempty trace takes its first step and runs on from there. -/
theorem run_cons_some {s s' : σ} {a : α} {tr : List α} :
    run step s (a :: tr) = some s' ↔ ∃ t, step s a = some t ∧ run step t tr = some s' := by
  rw [run_cons, Option.bind_eq_some_iff]

theorem run_append (s : σ) (tr tr' : List α) :
    run step s (tr ++ tr') = (run step s tr).bind fun s' => run step s' tr' := by
  induction tr generalizing s with
  | nil => rfl
  | cons a tr ih =>
    rw [List.cons_append, run_cons, run_cons]
    cases step s a with
    | none => rfl
    | some t => exact ih t

/-- A step after a run is a run. -/
theorem run_concat_some {s s' : σ} {a : α} {tr : List α} :
    run step s (tr ++ [a]) = some s' ↔ ∃ t, run step s tr = some t ∧ step t a = some s' := by
  rw [run_append, Option.bind_eq_some_iff]
  constructor
  · rintro ⟨t, ht, hs⟩
    obtain ⟨u, hu, hnil⟩ := (run_cons_some step).mp hs
    cases hnil
    exact ⟨t, ht, hu⟩
  · rintro ⟨t, ht, hs⟩
    exact ⟨t, ht, (run_cons_some step).mpr ⟨s', hs, rfl⟩⟩

/-- A property of the start state that each guarded step keeps holds after every run whose
    steps all meet the guard. -/
theorem run_invariant_of_meets {I : σ → Prop} {G : σ → α → Prop}
    (hstep : ∀ s a s', I s → G s a → step s a = some s' → I s')
    {s s' : σ} {tr : List α} (hinv : I s) (hmeets : Meets step G s tr)
    (hrun : run step s tr = some s') : I s' := by
  induction tr generalizing s with
  | nil => cases hrun; exact hinv
  | cons a tr ih =>
    obtain ⟨t, ht, hrun'⟩ := (run_cons_some step).mp hrun
    exact ih (hstep s a t hinv hmeets.1 ht) (hmeets.2 t ht) hrun'

/-- A property of the start state that each step keeps holds after every run. -/
theorem run_invariant {I : σ → Prop}
    (hstep : ∀ s a s', I s → step s a = some s' → I s')
    {s s' : σ} {tr : List α} (hinv : I s) (hrun : run step s tr = some s') : I s' := by
  induction tr generalizing s with
  | nil => cases hrun; exact hinv
  | cons a tr ih =>
    obtain ⟨t, ht, hrun'⟩ := (run_cons_some step).mp hrun
    exact ih (hstep s a t hinv ht) hrun'

/-- If the invariant implies `P` and is kept by the steps that meet `G`, then `P` holds along
    every run whose steps do. -/
theorem always_of_meets {I P : σ → Prop} {G : σ → α → Prop} (hI : ∀ s, I s → P s)
    (hstep : ∀ s a s', I s → G s a → step s a = some s' → I s')
    {s : σ} {tr : List α} (hinv : I s) (hmeets : Meets step G s tr) : Always step P s tr := by
  induction tr generalizing s with
  | nil => exact hI s hinv
  | cons a tr ih =>
    exact ⟨hI s hinv, fun s' hs' => ih (hstep s a s' hinv hmeets.1 hs') (hmeets.2 s' hs')⟩

/-- Where `H` holds along the run: if the invariant implies `P` and is kept by the steps into `H`
    that meet `G`, and every other step breaks `P`, then `P` holds along the run exactly when its
    steps meet `G`. -/
theorem always_iff_meets_of_always {I P H : σ → Prop} {G : σ → α → Prop} (hI : ∀ s, I s → P s)
    (hstep : ∀ s a s', I s → G s a → H s' → step s a = some s' → I s')
    (hbad : ∀ s a, I s → ¬ G s a → ∃ s', step s a = some s' ∧ ¬ P s')
    {s : σ} {tr : List α} (hinv : I s) (hH : Always step H s tr) :
    Always step P s tr ↔ Meets step G s tr := by
  induction tr generalizing s with
  | nil => exact iff_of_true (hI s hinv) trivial
  | cons a tr ih =>
    obtain ⟨-, hHnext⟩ := hH
    have hnext : ∀ s', step s a = some s' → G s a →
        (Always step P s' tr ↔ Meets step G s' tr) := by
      intro s' hs' hG
      have hHs' := hHnext s' hs'
      exact ih (hstep s a s' hinv hG (hHs'.head step) hs') hHs'
    constructor
    · intro halways
      have hG : G s a := by
        by_contra hG
        obtain ⟨s', hs', hP⟩ := hbad s a hinv hG
        exact hP ((halways.2 s' hs').head step)
      exact ⟨hG, fun s' hs' => (hnext s' hs' hG).mp (halways.2 s' hs')⟩
    · intro hmeets
      exact ⟨hI s hinv, fun s' hs' => (hnext s' hs' hmeets.1).mpr (hmeets.2 s' hs')⟩

/-- If the invariant implies `P`, is kept by the steps that meet `G`, and every other step
    breaks `P`, then `P` holds along a run exactly when its steps meet `G`. -/
theorem always_iff_meets {I P : σ → Prop} {G : σ → α → Prop} (hI : ∀ s, I s → P s)
    (hstep : ∀ s a s', I s → G s a → step s a = some s' → I s')
    (hbad : ∀ s a, I s → ¬ G s a → ∃ s', step s a = some s' ∧ ¬ P s')
    {s : σ} {tr : List α} (hinv : I s) : Always step P s tr ↔ Meets step G s tr :=
  always_iff_meets_of_always step (H := fun _ => True) hI
    (fun s a s' hs hG _ => hstep s a s' hs hG) hbad hinv (always_true step s tr)

/-- If the invariant is kept by the steps that meet `G`, every other step leads to `B`, and no step
    leads out of `B`, then a run meets `G` exactly when its last state has the property that tells
    the two apart. -/
theorem run_iff_meets {I B P : σ → Prop} {G : σ → α → Prop}
    (hstep : ∀ s a s', I s → G s a → step s a = some s' → I s')
    (hbad : ∀ s a s', I s → ¬ G s a → step s a = some s' → B s')
    (hkeep : ∀ s a s', B s → step s a = some s' → B s')
    {s s' : σ} {tr : List α} (hinv : I s) (hrun : run step s tr = some s')
    (hI : I s' → P s') (hB : B s' → ¬ P s') : P s' ↔ Meets step G s tr := by
  induction tr generalizing s with
  | nil =>
    cases hrun
    exact iff_of_true (hI hinv) trivial
  | cons a tr ih =>
    obtain ⟨t, ht, hrun'⟩ := (run_cons_some step).mp hrun
    by_cases hG : G s a
    · rw [ih (hstep s a t hinv hG ht) hrun']
      constructor
      · intro hmeets
        refine ⟨hG, fun t' ht' => ?_⟩
        cases ht.symm.trans ht'
        exact hmeets
      · intro hmeets
        exact hmeets.2 t ht
    · have hbad' : B s' := run_invariant step hkeep (hbad s a t hinv hG ht) hrun'
      exact iff_of_false (hB hbad') fun hmeets => hG hmeets.1

/-- A weaker side condition is met wherever a stronger one is. -/
theorem Meets.mono {G G' : σ → α → Prop} (h : ∀ s a, G s a → G' s a) :
    ∀ {s : σ} {tr : List α}, Meets step G s tr → Meets step G' s tr
  | _, [], _ => trivial
  | _, _ :: _, hm => ⟨h _ _ hm.1, fun s' hs' => Meets.mono h (hm.2 s' hs')⟩

/-- A side condition that the invariant gives from another one is met wherever that one is. -/
theorem Meets.of_invariant {I : σ → Prop} {G G' : σ → α → Prop}
    (hG : ∀ s a, I s → G s a → G' s a)
    (hstep : ∀ s a s', I s → G' s a → step s a = some s' → I s')
    {s : σ} {tr : List α} (hinv : I s) (h : Meets step G s tr) : Meets step G' s tr := by
  induction tr generalizing s with
  | nil => trivial
  | cons a tr ih =>
    have hmeets := hG s a hinv h.1
    exact ⟨hmeets, fun s' hs' => ih (hstep s a s' hinv hmeets hs') (h.2 s' hs')⟩

theorem meets_congr {G G' : σ → α → Prop} (h : ∀ s a, G s a ↔ G' s a) {s : σ} {tr : List α} :
    Meets step G s tr ↔ Meets step G' s tr :=
  ⟨Meets.mono step fun s a => (h s a).mp, Meets.mono step fun s a => (h s a).mpr⟩

/-- A condition on labels alone is met by a run all of whose labels satisfy it. -/
theorem meets_of_forall_mem {p : α → Prop} :
    ∀ {s : σ} {tr : List α}, (∀ a ∈ tr, p a) → Meets step (fun _ a => p a) s tr
  | _, [], _ => trivial
  | _, a :: _, h =>
    ⟨h a List.mem_cons_self, fun _ _ =>
      meets_of_forall_mem fun b hb => h b (List.mem_cons_of_mem a hb)⟩

theorem Meets.and {G G' : σ → α → Prop} :
    ∀ {s : σ} {tr : List α}, Meets step G s tr → Meets step G' s tr →
      Meets step (fun s a => G s a ∧ G' s a) s tr
  | _, [], _, _ => trivial
  | _, _ :: _, hm, hm' => ⟨⟨hm.1, hm'.1⟩, fun s' hs' => Meets.and (hm.2 s' hs') (hm'.2 s' hs')⟩

instance decidableMeets (G : σ → α → Prop) [∀ s a, Decidable (G s a)] :
    ∀ (s : σ) (tr : List α), Decidable (Meets step G s tr)
  | _, [] => inferInstanceAs (Decidable True)
  | s, a :: tr =>
    match h : step s a with
    | none => decidable_of_iff (G s a) (by simp [Meets, h])
    | some t =>
      have := decidableMeets G t tr
      decidable_of_iff (G s a ∧ Meets step G t tr) (by simp [Meets, h])

instance decidableAlways (P : σ → Prop) [∀ s, Decidable (P s)] :
    ∀ (s : σ) (tr : List α), Decidable (Always step P s tr)
  | s, [] => inferInstanceAs (Decidable (P s))
  | s, a :: tr =>
    match h : step s a with
    | none => decidable_of_iff (P s) (by simp [Always, h])
    | some t =>
      have := decidableAlways P t tr
      decidable_of_iff (P s ∧ Always step P t tr) (by simp [Always, h])

end Hcrtos.Lts
