import Mathlib.Algebra.Ring.Nat
import Mathlib.Data.ZMod.Basic
import Mathlib.Tactic.Ring

/-!
# 32-bit words as natural numbers

`uint32_t` and `size_t` arithmetic on `Nat`, reduced modulo `2 ^ 32`.
-/

namespace Hcrtos.Word

/-- A sum of two words. -/
def add32 (a b : Nat) : Nat := (a + b) % 2 ^ 32

/-- A difference of two words. -/
def sub32 (a b : Nat) : Nat := (a + 2 ^ 32 - b % 2 ^ 32) % 2 ^ 32

/-- A product of two words. -/
def mul32 (a b : Nat) : Nat := (a * b) % 2 ^ 32

theorem add32_of_lt {a b : Nat} (h : a + b < 2 ^ 32) : add32 a b = a + b := Nat.mod_eq_of_lt h

theorem mul32_of_lt {a b : Nat} (h : a * b < 2 ^ 32) : mul32 a b = a * b := Nat.mod_eq_of_lt h

theorem sub32_of_le {a b : Nat} (h : b ≤ a) (ha : a < 2 ^ 32) : sub32 a b = a - b := by
  unfold sub32
  omega

/-- A wrapped difference. -/
theorem sub32_of_lt {a b : Nat} (h : a < b) (hb : b < 2 ^ 32) : sub32 a b = 2 ^ 32 + a - b := by
  unfold sub32
  omega

theorem sub32_lt (a b : Nat) : sub32 a b < 2 ^ 32 := Nat.mod_lt _ (by decide)

/-- Adding the negative of a word subtracts it. -/
theorem add32_neg {a b : Nat} (h : b ≤ a) (ha : a < 2 ^ 32) : add32 a (sub32 0 b) = a - b := by
  unfold add32 sub32
  omega

theorem add32_lt (a b : Nat) : add32 a b < 2 ^ 32 := Nat.mod_lt _ (by decide)

/-! ### Words as a ring

The arithmetic of words is that of the integers modulo `2 ^ 32`.
-/

/-- The integers modulo `2 ^ 32`. -/
abbrev WordRing := ZMod (2 ^ 32)

@[simp] theorem cast_mod (a : Nat) : ((a % 2 ^ 32 : ℕ) : WordRing) = a := ZMod.natCast_mod a _

theorem cast_add32 (a b : Nat) : (add32 a b : WordRing) = a + b := by
  unfold add32
  rw [cast_mod, Nat.cast_add]

theorem cast_mul32 (a b : Nat) : (mul32 a b : WordRing) = a * b := by
  unfold mul32
  rw [cast_mod, Nat.cast_mul]

theorem cast_sub32 (a b : Nat) : (sub32 a b : WordRing) = a - b := by
  have hle : b % 2 ^ 32 ≤ a + 2 ^ 32 := by
    have := Nat.mod_lt b (show 0 < 2 ^ 32 by decide)
    omega
  have hzero : ((2 ^ 32 : ℕ) : WordRing) = 0 := ZMod.natCast_self _
  unfold sub32
  rw [cast_mod, Nat.cast_sub hle, cast_mod, Nat.cast_add, hzero, add_zero]

/-- Words are equal when their classes are. -/
theorem eq_of_cast {a b : Nat} (ha : a < 2 ^ 32) (hb : b < 2 ^ 32)
    (h : (a : WordRing) = b) : a = b := by
  have hmod := (ZMod.natCast_eq_natCast_iff' a b (2 ^ 32)).mp h
  rwa [Nat.mod_eq_of_lt ha, Nat.mod_eq_of_lt hb] at hmod

end Hcrtos.Word
