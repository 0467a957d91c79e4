import Mathlib.Logic.Function.Basic

/-!
# Memory with 32-bit addresses

A byte at every 32-bit address, and the writes of a run of bytes. Addresses wrap, so a run is
given by its start and its length, and a byte of it by its distance from the start.

## Key results

- `patch_apply_add`, `patch_apply_of_le`: a byte inside and outside of the run
- `patch_patch_add`: two runs, one behind the other, are one run
-/

namespace Hcrtos.WordMemory

/-- The memory, by address. -/
abbrev Mem := UInt32 → UInt8

/-- The memory after the `n` bytes `f` are written at `p`. -/
def patch (m : Mem) (p : UInt32) (n : Nat) (f : Nat → UInt8) : Mem := fun a =>
  if (a - p).toNat < n then f (a - p).toNat else m a

variable (m : Mem) (p : UInt32) (f g : Nat → UInt8)

@[simp] theorem patch_zero : patch m p 0 f = m := by
  funext a
  simp [patch]

theorem patch_apply_of_lt {m : Mem} {p a : UInt32} {n : Nat} (h : (a - p).toNat < n) :
    patch m p n f a = f (a - p).toNat := if_pos h

/-- A byte outside of the run is not written. -/
theorem patch_apply_of_le {m : Mem} {p a : UInt32} {n : Nat} (h : n ≤ (a - p).toNat) :
    patch m p n f a = m a := if_neg (Nat.not_lt.mpr h)

theorem toNat_add_ofNat_sub {i : Nat} (h : i < 4294967296) :
    (p + UInt32.ofNat i - p).toNat = i := by
  rw [UInt32.add_comm, UInt32.add_sub_cancel, UInt32.toNat_ofNat']
  exact Nat.mod_eq_of_lt h

/-- The byte at distance `i`. -/
theorem patch_apply_add {m : Mem} {p : UInt32} {n i : Nat} (h : i < n) (hi : i < 4294967296) :
    patch m p n f (p + UInt32.ofNat i) = f i := by
  have hdist := toNat_add_ofNat_sub p hi
  rw [patch_apply_of_lt f (by omega), hdist]

/-- Only the bytes of the run matter. -/
theorem patch_congr {m : Mem} {p : UInt32} {n : Nat} {f g : Nat → UInt8}
    (h : ∀ i < n, f i = g i) : patch m p n f = patch m p n g := by
  funext a
  unfold patch
  split
  · rename_i hlt
    exact h _ hlt
  · rfl

/-- Distances from a start that is `n` bytes further on. -/
theorem toNat_sub_add {p a : UInt32} {n : Nat} (hn : n < 4294967296) :
    (a - (p + UInt32.ofNat n)).toNat =
      if n ≤ (a - p).toNat then (a - p).toNat - n else (a - p).toNat + 4294967296 - n := by
  have hlt := (a - p).toNat_lt
  have hstep : a - (p + UInt32.ofNat n) = a - p - UInt32.ofNat n := by
    grind
  have hnat : (UInt32.ofNat n).toNat = n := by
    rw [UInt32.toNat_ofNat']
    exact Nat.mod_eq_of_lt hn
  rw [hstep, UInt32.toNat_sub, hnat]
  split <;> omega

/-- A run that is written behind another one. -/
theorem patch_patch_add {n k : Nat} (hn : n < 4294967296) (hnk : n + k ≤ 4294967296) :
    patch (patch m p n f) (p + UInt32.ofNat n) k g =
      patch m p (n + k) fun i => if i < n then f i else g (i - n) := by
  funext a
  have hlt := (a - p).toNat_lt
  have hdist := @toNat_sub_add p a n hn
  unfold patch
  dsimp only
  rw [hdist]
  by_cases hfirst : (a - p).toNat < n
  · have hnot : ¬ n ≤ (a - p).toNat := Nat.not_le.mpr hfirst
    rw [if_neg hnot, if_neg (by omega), if_pos hfirst, if_pos (by omega), if_pos hfirst]
  · rw [if_pos (Nat.not_lt.mp hfirst)]
    by_cases hsecond : (a - p).toNat - n < k
    · rw [if_pos hsecond, if_pos (by omega), if_neg hfirst]
    · rw [if_neg hsecond, if_neg hfirst, if_neg (by omega)]

end Hcrtos.WordMemory
