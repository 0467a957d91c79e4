import Mathlib.Data.List.Basic
import Mathlib.Order.Lattice

/-!
# Loops over a list

A loop whose rounds write different places, and a loop that keeps the greatest value.

## Key results

- `writes_spec`: a place holds what its own round writes, and that round finds its place and the
  places that no round writes as they were before the loop
- `max_le_iff`: the greatest value is bounded iff all values are
-/

namespace Hcrtos.Fold

section Writes

variable {α P V : Type*} {place : α → P} {write : (P → V) → α → P → V}

theorem writes_spec (hkeep : ∀ m a p, p ≠ place a → write m a p = m p) {as : List α}
    (hnodup : (as.map place).Nodup) (m : P → V) :
    (∀ a ∈ as, ∃ m' : P → V, m' (place a) = m (place a) ∧
      (∀ p ∉ as.map place, m' p = m p) ∧
      as.foldl write m (place a) = write m' a (place a)) ∧
    ∀ p ∉ as.map place, as.foldl write m p = m p := by
  induction as generalizing m with
  | nil => exact ⟨fun a ha => absurd ha List.not_mem_nil, fun _ _ => rfl⟩
  | cons a as ih =>
    rw [List.map_cons, List.nodup_cons] at hnodup
    obtain ⟨hplace, hnodup⟩ := hnodup
    obtain ⟨ihplaces, ihrest⟩ := ih hnodup (write m a)
    have hne : ∀ b ∈ as, place b ≠ place a :=
      fun b hb heq => hplace (heq ▸ List.mem_map_of_mem hb)
    simp only [List.foldl_cons, List.map_cons, List.mem_cons, not_or]
    constructor
    · intro b hb
      rcases hb with rfl | hb
      · exact ⟨m, rfl, fun _ _ => rfl, ihrest _ hplace⟩
      · obtain ⟨m', hself, hother, hvalue⟩ := ihplaces b hb
        exact ⟨m', hself.trans (hkeep m a _ (hne b hb)),
          fun p hp => (hother p hp.2).trans (hkeep m a p hp.1), hvalue⟩
    · intro p hp
      rw [ihrest p hp.2, hkeep m a p hp.1]

end Writes

section Max

variable {α β γ : Type*} [LT β] [DecidableLT β] [LinearOrder γ] (key : β → γ)

/-- The values may be compared by a key. -/
theorem max_le_iff (hkey : ∀ x y, x < y ↔ key x < key y) (f : α → β) (as : List α) (x : β)
    (b : γ) :
    key (as.foldl (fun x a => if f a > x then f a else x) x) ≤ b ↔
      key x ≤ b ∧ ∀ a ∈ as, key (f a) ≤ b := by
  induction as generalizing x with
  | nil => simp
  | cons a as ih =>
    rw [List.foldl_cons, ih, List.forall_mem_cons, ← and_assoc]
    refine and_congr_left fun _ => ?_
    split
    · next h =>
      have hlt := (hkey x (f a)).mp h
      exact ⟨fun hle => ⟨hlt.le.trans hle, hle⟩, fun hle => hle.2⟩
    · next h =>
      have hle := not_lt.mp (mt (hkey x (f a)).mpr h)
      exact ⟨fun hx => ⟨hx, hle.trans hx⟩, fun hx => hx.1⟩

end Max

end Hcrtos.Fold
