import Mathlib.Data.List.Basic

/-!
# Buffers that are filled from the front

A buffer of a fixed length takes elements one after the other. `Filled buf n got` says that its
first `n` elements are those it has taken.

## Key results

- `take_succ_set`: the first elements after one more is written
- `Filled.set`, `Filled.eq`: the next element, and the full buffer
-/

namespace Hcrtos.Buffer

variable {α : Type*}

/-- Writing element `i` of a list adds it to the first `i`. -/
theorem take_succ_set (l : List α) {i : Nat} (x : α) (h : i < l.length) :
    (l.set i x).take (i + 1) = l.take i ++ [x] := by
  rw [List.take_succ_eq_append_getElem (by simpa using h), List.getElem_set_self,
    List.take_set_of_le (Nat.le_refl i)]

/-- The first `n` elements of the buffer are `got`. -/
def Filled (buf : List α) (n : Nat) (got : List α) : Prop := n = got.length ∧ buf.take n = got

theorem filled_zero (buf : List α) : Filled buf 0 [] := ⟨rfl, rfl⟩

/-- The next element. -/
theorem Filled.set {buf got : List α} {n : Nat} (h : Filled buf n got) (hn : n < buf.length)
    (x : α) : Filled (buf.set n x) (n + 1) (got ++ [x]) := by
  constructor
  · rw [List.length_append, List.length_singleton, h.1]
  · rw [take_succ_set buf x hn, h.2]

/-- A buffer that is full holds what it has taken. -/
theorem Filled.eq {buf got : List α} {n : Nat} (h : Filled buf n got) (hn : buf.length ≤ n) :
    buf = got := by
  rw [← h.2, List.take_of_length_le hn]

end Hcrtos.Buffer
