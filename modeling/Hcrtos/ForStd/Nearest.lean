import Mathlib.Data.List.MinMax
import Mathlib.Data.Nat.Dist

/-!
# The nearest entry of a table

The entries of a table carry labels, numbers that need not be different. A search for a target
takes the first of the entries whose label is nearest to it.

## Key results

- `nearest_label_mono`: a greater target is never given a smaller label
- `first_of_nearest`, `nearest_of_first`: the entries that are found are the first with their
  labels, and each of these is found by its own label
- `nearest_label_idem`: to search again for the label of what was found finds it again
-/

namespace Hcrtos.Nearest

variable {α : Type*} {label : α → Nat} {table : List α} {x y : α} {s t : Nat}

/-- The first entry with the label nearest to the target. -/
def nearest (label : α → Nat) (table : List α) (target : Nat) : Option α :=
  table.argmin fun x => Nat.dist (label x) target

/-- Only an empty table has none. -/
theorem nearest_isSome (h : table ≠ []) (t : Nat) : ∃ x, x ∈ nearest label table t :=
  Option.ne_none_iff_exists'.mp fun hnone => h (List.argmin_eq_none.mp hnone)

variable [DecidableEq α]

/-- An entry without another one of its label before it. -/
def First (label : α → Nat) (table : List α) (x : α) : Prop :=
  x ∈ table ∧ ∀ y ∈ table, label y = label x → table.idxOf x ≤ table.idxOf y

instance (label : α → Nat) (table : List α) (x : α) : Decidable (First label table x) :=
  inferInstanceAs (Decidable (_ ∧ _))

theorem mem_nearest_iff : x ∈ nearest label table t ↔
    x ∈ table ∧ (∀ y ∈ table, Nat.dist (label x) t ≤ Nat.dist (label y) t) ∧
      ∀ y ∈ table, Nat.dist (label y) t ≤ Nat.dist (label x) t → table.idxOf x ≤ table.idxOf y :=
  List.mem_argmin_iff

/-- Two entries that are the first of one label are the same. -/
theorem First.eq (hx : First label table x) (hy : First label table y) (h : label x = label y) :
    x = y :=
  (List.idxOf_inj hx.1).mp (Nat.le_antisymm (hx.2 y hy.1 h.symm) (hy.2 x hx.1 h))

theorem first_of_nearest (h : x ∈ nearest label table t) : First label table x := by
  obtain ⟨hmem, -, hfirst⟩ := mem_nearest_iff.mp h
  refine ⟨hmem, fun y hy heq => hfirst y hy ?_⟩
  rw [heq]

theorem nearest_of_first (h : First label table x) : x ∈ nearest label table (label x) := by
  rw [mem_nearest_iff, Nat.dist_self]
  refine ⟨h.1, fun y _ => Nat.zero_le _, fun y hy hle => h.2 y hy ?_⟩
  exact Nat.eq_of_dist_eq_zero (Nat.le_zero.mp hle)

theorem nearest_label_idem (h : x ∈ nearest label table t) :
    nearest label table (label x) = some x := nearest_of_first (first_of_nearest h)

/-- Between two labels, the greater target is nearer to the greater one. -/
theorem nearest_label_mono (hs : x ∈ nearest label table s) (ht : y ∈ nearest label table t)
    (hle : s ≤ t) : label x ≤ label y := by
  rcases Nat.eq_or_lt_of_le hle with rfl | hlt
  · obtain rfl : x = y := Option.some.inj (hs.symm.trans ht)
    exact Nat.le_refl _
  · have hx := (mem_nearest_iff.mp hs).2.1 y (first_of_nearest ht).1
    have hy := (mem_nearest_iff.mp ht).2.1 x (first_of_nearest hs).1
    unfold Nat.dist at hx hy
    omega

end Hcrtos.Nearest
