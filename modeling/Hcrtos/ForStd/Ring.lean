import Mathlib.Data.List.Basic
import Mathlib.Data.Nat.ModEq
import Mathlib.Logic.Function.Basic

/-!
# Circular buffers

The live contents of a circular buffer of `n` cells, read from `rd` on. A cell index is taken
modulo `n`, so no lemma needs a case split on the wrap-around.

## Key results

- `contents_push`: writing the cell behind the contents appends to them
- `contents_push_full`: when all cells are live, it also drops the oldest element
- `contents_drop`: advancing `rd` drops from the front
- `contents_take`: elements in front of the wrap-around stand in consecutive cells
-/

namespace Hcrtos.Ring

variable {α : Type*}

/-- The `count` elements of `buf` from cell `rd` on, oldest first. -/
def contents (buf : Nat → α) (n rd count : Nat) : List α :=
  (List.range count).map fun i => buf ((rd + i) % n)

@[simp] theorem contents_length (buf : Nat → α) (n rd count : Nat) :
    (contents buf n rd count).length = count := by
  simp [contents]

@[simp] theorem contents_zero (buf : Nat → α) (n rd : Nat) : contents buf n rd 0 = [] := rfl

theorem contents_getElem (buf : Nat → α) (n rd count i : Nat)
    (h : i < (contents buf n rd count).length) :
    (contents buf n rd count)[i] = buf ((rd + i) % n) := by
  simp [contents]

theorem contents_succ (buf : Nat → α) (n rd count : Nat) :
    contents buf n rd (count + 1) = contents buf n rd count ++ [buf ((rd + count) % n)] := by
  simp [contents, List.range_succ]

/-- Offsets that differ by less than a revolution denote different cells. -/
theorem add_mod_ne {n rd i j : Nat} (hij : i < j) (hj : j < i + n) :
    (rd + i) % n ≠ (rd + j) % n := by
  intro heq
  have hdvd : n ∣ (rd + j) - (rd + i) := (Nat.modEq_iff_dvd' (by omega)).mp heq
  have hle : n ≤ (rd + j) - (rd + i) := Nat.le_of_dvd (by omega) hdvd
  omega

/-- Writing a cell outside of the contents leaves them alone. -/
theorem contents_update_of_ne {buf : Nat → α} {n rd count c : Nat} {x : α}
    (h : ∀ i, i < count → (rd + i) % n ≠ c) :
    contents (Function.update buf c x) n rd count = contents buf n rd count := by
  apply List.map_congr_left
  intro i hi
  exact Function.update_of_ne (h i (List.mem_range.mp hi)) _ _

/-- Writing the cell behind the contents appends to them. -/
theorem contents_push {buf : Nat → α} {n rd count : Nat} {x : α} (h : count < n) :
    contents (Function.update buf ((rd + count) % n) x) n rd (count + 1) =
      contents buf n rd count ++ [x] := by
  rw [contents_succ, Function.update_self, contents_update_of_ne]
  intro i hi
  exact add_mod_ne hi (by omega)

theorem contents_mod (buf : Nat → α) (n rd count : Nat) :
    contents buf n (rd % n) count = contents buf n rd count := by
  simp [contents]

/-- Advancing `rd` drops from the front. -/
theorem contents_drop (buf : Nat → α) (n rd count k : Nat) :
    contents buf n (rd + k) (count - k) = (contents buf n rd count).drop k := by
  apply List.ext_getElem
  · simp
  · intro i h₁ h₂
    rw [List.getElem_drop, contents_getElem, contents_getElem, Nat.add_assoc]

/-- The oldest element stands in the cell of `rd`. -/
theorem contents_eq_cons {buf : Nat → α} {n rd count : Nat} (h : 0 < count) :
    contents buf n rd count = buf (rd % n) :: contents buf n (rd + 1) (count - 1) := by
  rw [contents_drop, ← List.drop_zero (l := contents buf n rd count),
    List.drop_eq_getElem_cons (by simpa using h), contents_getElem]
  rfl

/-- Keeping fewer elements takes from the front. -/
theorem contents_take (buf : Nat → α) {n rd count k : Nat} (h : k ≤ count) :
    (contents buf n rd count).take k = contents buf n rd k := by
  apply List.ext_getElem
  · simp [h]
  · intro i h₁ h₂
    rw [List.getElem_take, contents_getElem, contents_getElem]

/-- Elements in front of the wrap-around stand in consecutive cells. -/
theorem contents_eq_map {buf : Nat → α} {n rd k : Nat} (h : rd + k ≤ n) :
    contents buf n rd k = (List.range k).map fun i => buf (rd + i) := by
  apply List.map_congr_left
  intro i hi
  have := List.mem_range.mp hi
  rw [Nat.mod_eq_of_lt (by omega)]

/-- When all cells are live, writing the cell behind the contents overwrites the oldest
    element. -/
theorem contents_push_full {buf : Nat → α} {n rd : Nat} {x : α} (hn : 0 < n) :
    contents (Function.update buf ((rd + n) % n) x) n (rd + 1) n =
      (contents buf n rd n).drop 1 ++ [x] := by
  obtain ⟨m, rfl⟩ : ∃ m, n = m + 1 := ⟨n - 1, by omega⟩
  have hcell : rd + (m + 1) = rd + 1 + m := by omega
  rw [← contents_drop, Nat.add_sub_cancel, hcell]
  exact contents_push (Nat.lt_succ_self m)

end Hcrtos.Ring
