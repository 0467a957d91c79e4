import Mathlib.Data.Nat.Basic
import Mathlib.Data.List.Forall2

/-!
# Loops with a fuel

`loop body` repeats a body that either ends with a result or goes on in a new state. The rule for
it takes an invariant and a measure: the loop ends, and its result is what the invariant says of
the last state. Without a measure the rule is about the loops that end.

## Key results

- `loop_spec`: total correctness of a loop
- `loop_result`: partial correctness
- `loop_mono`: more fuel does not change the result
-/

namespace Hcrtos.Loop

variable {σ β : Type*}

/-- Repeat `body` until it ends, at most `fuel` times. -/
def loop (body : σ → β ⊕ σ) : Nat → σ → Option β
  | 0, _ => none
  | fuel + 1, s =>
    match body s with
    | .inl b => some b
    | .inr s' => loop body fuel s'

/-- A loop whose body keeps `I` and lowers `μ` ends within `μ s + 1` rounds, with a result
    that meets `Q`. -/
theorem loop_spec {body : σ → β ⊕ σ} {I : σ → Prop} {Q : β → Prop} (μ : σ → Nat)
    (hdone : ∀ s b, I s → body s = .inl b → Q b)
    (hnext : ∀ s s', I s → body s = .inr s' → I s' ∧ μ s' < μ s)
    {fuel : Nat} {s : σ} (hI : I s) (hfuel : μ s < fuel) :
    ∃ b, loop body fuel s = some b ∧ Q b := by
  induction fuel generalizing s with
  | zero => omega
  | succ fuel ih =>
    cases hbody : body s with
    | inl b => exact ⟨b, by simp [loop, hbody], hdone s b hI hbody⟩
    | inr s' =>
      obtain ⟨hI', hlt⟩ := hnext s s' hI hbody
      obtain ⟨b, hb, hQ⟩ := ih hI' (by omega)
      exact ⟨b, by simp [loop, hbody, hb], hQ⟩

/-- The result of a loop that ends, when its body keeps `I`. -/
theorem loop_result {body : σ → β ⊕ σ} {I : σ → Prop} {Q : β → Prop}
    (hdone : ∀ s b, I s → body s = .inl b → Q b) (hnext : ∀ s s', I s → body s = .inr s' → I s')
    {fuel : Nat} {s : σ} {b : β} (hI : I s) (h : loop body fuel s = some b) : Q b := by
  induction fuel generalizing s with
  | zero => cases h
  | succ fuel ih =>
    cases hbody : body s with
    | inl b' =>
      simp only [loop, hbody, Option.some.injEq] at h
      exact h ▸ hdone s b' hI hbody
    | inr s' =>
      simp only [loop, hbody] at h
      exact ih (hnext s s' hI hbody) h

/-- A loop that ends with some fuel ends in the same way with more of it. -/
theorem loop_mono {body : σ → β ⊕ σ} {fuel fuel' : Nat} {s : σ} {b : β}
    (h : loop body fuel s = some b) (hle : fuel ≤ fuel') : loop body fuel' s = some b := by
  induction fuel generalizing s fuel' with
  | zero => cases h
  | succ fuel ih =>
    obtain ⟨fuel', rfl⟩ : ∃ k, fuel' = k + 1 := ⟨fuel' - 1, by omega⟩
    cases hbody : body s with
    | inl b' =>
      simp only [loop, hbody] at h ⊢
      exact h
    | inr s' =>
      simp only [loop, hbody] at h ⊢
      exact ih h (by omega)

end Hcrtos.Loop

/-! ## Loops that stop at the first error

A loop goes through a list and changes each entry in turn. An entry may be passed over, or it is
given a code; the loop returns at the first code that is not zero, and leaves the entries behind
it alone. Otherwise it ends with the last code that was given.

#### Key results

- `forEach_error_iff`, `forEach_ok_iff`: what the loop ends with
- `forEach_forall₂_iff`: what becomes of the entries
-/

namespace Hcrtos.ErrorLoop

variable {α ε : Type} [Zero ε]

/-- The entry is passed over or given a zero. -/
def Succeeds (f : α → α × Option ε) (x : α) : Prop := ∀ code ∈ (f x).2, code = 0

/-- The codes, up to the end of the list. -/
def codes (f : α → α × Option ε) (xs : List α) : List ε := xs.filterMap fun x => (f x).2

variable {f : α → α × Option ε} {ret code : ε} {x : α} {xs : List α}

omit [Zero ε] in
theorem codes_cons_none (h : (f x).2 = none) : codes f (x :: xs) = codes f xs :=
  List.filterMap_cons_none h

omit [Zero ε] in
theorem codes_cons_some (h : (f x).2 = some code) : codes f (x :: xs) = code :: codes f xs :=
  List.filterMap_cons_some h

theorem forall_succeeds_iff : (∀ x ∈ xs, Succeeds f x) ↔ ∀ c ∈ codes f xs, c = 0 := by
  unfold codes Succeeds
  simp only [List.mem_filterMap, Option.mem_def]
  exact ⟨fun h c ⟨x, hx, hc⟩ => h x hx c hc, fun h x hx c hc => h c ⟨x, hx, hc⟩⟩

variable [DecidableEq ε]

instance (f : α → α × Option ε) (x : α) : Decidable (Succeeds f x) :=
  Option.decidableForallMem (f x).2

/-- The loop: `.error` for a return from its middle. -/
def forEach (f : α → α × Option ε) (ret : ε) : List α → List α × Except ε ε
  | [] => ([], .ok ret)
  | x :: next =>
    match (f x).2 with
    | none => ((f x).1 :: (forEach f ret next).1, (forEach f ret next).2)
    | some code =>
      if code = 0 then ((f x).1 :: (forEach f 0 next).1, (forEach f 0 next).2)
      else ((f x).1 :: next, .error code)

theorem forEach_cons_none (h : (f x).2 = none) : forEach f ret (x :: xs) =
    ((f x).1 :: (forEach f ret xs).1, (forEach f ret xs).2) := by
  rw [forEach, h]

theorem forEach_cons_zero (h : (f x).2 = some 0) : forEach f ret (x :: xs) =
    ((f x).1 :: (forEach f 0 xs).1, (forEach f 0 xs).2) := by
  rw [forEach, h]
  exact if_pos rfl

theorem forEach_cons_error (h : (f x).2 = some code) (hne : code ≠ 0) :
    forEach f ret (x :: xs) = ((f x).1 :: xs, .error code) := by
  rw [forEach, h]
  exact if_neg hne

/-- The loop returns with the first code that is not zero. -/
theorem forEach_error_iff :
    (forEach f ret xs).2 = .error code ↔ (codes f xs).find? (· ≠ 0) = some code := by
  induction xs generalizing ret with
  | nil => exact iff_of_false nofun nofun
  | cons x next ih =>
    cases hx : (f x).2 with
    | none =>
      rw [forEach_cons_none hx, codes_cons_none hx]
      exact ih
    | some c =>
      rw [codes_cons_some hx]
      by_cases hc : c = 0
      · subst hc
        rw [forEach_cons_zero hx, List.find?_cons_of_neg (by simp)]
        exact ih
      · rw [forEach_cons_error hx hc, List.find?_cons_of_pos (by simp [hc])]
        exact ⟨fun h => congrArg some (Except.error.inj h), fun h => congrArg _ (Option.some.inj h)⟩

/-- Without an error the loop ends with zero, or with what it started with if it has passed over
    everything. -/
theorem forEach_ok_iff : (forEach f ret xs).2 = .ok code ↔
    (∀ c ∈ codes f xs, c = 0) ∧ code = if codes f xs = [] then ret else 0 := by
  induction xs generalizing ret with
  | nil => simp [forEach, codes, eq_comm]
  | cons x next ih =>
    cases hx : (f x).2 with
    | none =>
      rw [forEach_cons_none hx, codes_cons_none hx]
      exact ih
    | some c =>
      rw [codes_cons_some hx, List.forall_mem_cons]
      by_cases hc : c = 0
      · subst hc
        rw [forEach_cons_zero hx]
        simpa using @ih 0
      · rw [forEach_cons_error hx hc]
        exact iff_of_false nofun fun h => hc h.1.1

/-- A relation to the entries as they were: the loop has changed those before the first error, and
    the one with the error. -/
theorem forEach_forall₂_iff {R : α → α → Prop} (hrefl : ∀ x, R x x) :
    List.Forall₂ R xs (forEach f ret xs).1 ↔
      (∀ x ∈ xs.takeWhile fun x => decide (Succeeds f x), R x (f x).1) ∧
        ∀ x ∈ (xs.dropWhile fun x => decide (Succeeds f x)).head?, R x (f x).1 := by
  induction xs generalizing ret with
  | nil => simp [forEach]
  | cons x next ih =>
    cases hx : (f x).2 with
    | none =>
      have hs : Succeeds f x := by simp [Succeeds, hx]
      rw [forEach_cons_none hx]
      simp [hs, ih, and_assoc]
    | some c =>
      by_cases hc : c = 0
      · subst hc
        have hs : Succeeds f x := by simp [Succeeds, hx]
        rw [forEach_cons_zero hx]
        simp [hs, ih, and_assoc]
      · have hs : ¬ Succeeds f x := by simp [Succeeds, hx, hc]
        -- what is behind the error is as it was
        rw [forEach_cons_error hx hc]
        simp [hs, hrefl]

end Hcrtos.ErrorLoop
