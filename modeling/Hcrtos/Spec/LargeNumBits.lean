import Hcrtos.Spec.LargeNumShift
import Mathlib.Data.Nat.Size

/-!
# The bits of large numbers

`LargeNumBits` looks for the highest bit, from the highest word on. A number in two's complement of
at most 31 bits and the sign is the value of its lowest word.

## Key results

- `largeNumBits_eq`: the number of bits of the magnitude
- `toInt_word`: the lowest word of a shifted number
-/

namespace Hcrtos.Native.LargeNum

theorem and_twoPow_ne_zero_iff (u : BitVec 32) {j : Nat} (hj : j < 32) :
    u &&& BitVec.twoPow 32 j ≠ 0 ↔ u.toNat.testBit j = true := by
  rw [BitVec.and_twoPow, BitVec.testBit_toNat]
  cases u.getLsbD j with
  | false => simp
  | true =>
    refine iff_of_true (fun h => ?_) rfl
    have hbit := congrArg (BitVec.getLsbD · j) h
    simp [hj] at hbit

/-- The loop over the bits below some bit. -/
theorem find_bit {u : BitVec 32} (hu : u ≠ 0) {n : Nat} (hn : n ≤ 32) (hlt : u.toNat < 2 ^ n) :
    ∃ j, (List.range n).reverse.find? (fun j => u &&& BitVec.twoPow 32 j ≠ 0) = some j ∧
      u.toNat.size = j + 1 := by
  induction n with
  | zero =>
    have hzero : u.toNat = 0 := by omega
    exact absurd (BitVec.eq_of_toNat_eq hzero) hu
  | succ n ih =>
    rw [List.range_succ, List.reverse_append, List.reverse_singleton, List.singleton_append,
      List.find?_cons]
    cases hbit : u.toNat.testBit n with
    | true =>
      have hp := (and_twoPow_ne_zero_iff u (by omega)).mpr hbit
      rw [decide_eq_true hp]
      exact ⟨n, rfl, le_antisymm (Nat.size_le.mpr hlt)
        (Nat.lt_size.mpr (Nat.ge_two_pow_of_testBit hbit))⟩
    | false =>
      have hp : ¬ u &&& BitVec.twoPow 32 n ≠ 0 := by
        rw [and_twoPow_ne_zero_iff u (by omega), hbit]
        decide
      have hlow : u.toNat < 2 ^ n := by
        rw [Nat.testBit_eq_decide_div_mod_eq, decide_eq_false_iff_not] at hbit
        have hdiv : u.toNat / 2 ^ n < 2 := Nat.div_lt_of_lt_mul (by rwa [← Nat.pow_succ])
        have hzero : u.toNat / 2 ^ n = 0 := by
          generalize u.toNat / 2 ^ n = q at *
          omega
        exact (Nat.div_eq_zero_iff_lt (Nat.two_pow_pos n)).mp hzero
      rw [decide_eq_false hp]
      exact ih (by omega) hlow

theorem highestBit_spec {u : BitVec 32} (hu : u ≠ 0) :
    ∃ j, highestBit u = some j ∧ u.toNat.size = j + 1 :=
  find_bit hu le_rfl u.isLt

theorem size_eq_add {x u : Nat} {k : Nat} (hu : u ≠ 0) (hlow : 2 ^ k * u ≤ x)
    (hhigh : x < 2 ^ k * (u + 1)) : x.size = k + u.size := by
  have hpos : 0 < u.size := Nat.size_pos.mpr (Nat.pos_of_ne_zero hu)
  have hle : 2 ^ (u.size - 1) ≤ u := Nat.lt_size.mp (by omega)
  have hlt : u < 2 ^ u.size := Nat.lt_size_self u
  apply le_antisymm
  · rw [Nat.size_le, pow_add]
    exact hhigh.trans_le (Nat.mul_le_mul_left _ hlt)
  · have hsum : k + u.size = k + (u.size - 1) + 1 := by omega
    rw [hsum, Nat.succ_le_iff, Nat.lt_size, pow_add]
    exact (Nat.mul_le_mul_left _ hle).trans hlow

/-- The number of bits of the magnitude. -/
theorem largeNumBits_eq (x : LARGENUM) : LargeNumBits x = x.mag.size := by
  have h0 := (x.u 0).isLt
  have h1 := (x.u 1).isLt
  have hzero : ∀ i, x.u i = 0 → (x.u i).toNat = 0 := fun i h => by rw [h]; rfl
  have hne : ∀ i, x.u i ≠ 0 → (x.u i).toNat ≠ 0 := fun i h hz => h (BitVec.eq_of_toNat_eq hz)
  unfold LargeNumBits LARGENUM.mag
  simp only [List.findSome?_cons, List.findSome?_nil]
  by_cases hu2 : x.u 2 = 0
  · rw [if_neg (not_not.mpr hu2), hzero 2 hu2]
    by_cases hu1 : x.u 1 = 0
    · rw [if_neg (not_not.mpr hu1), hzero 1 hu1]
      by_cases hu0 : x.u 0 = 0
      · rw [if_neg (not_not.mpr hu0), hzero 0 hu0]
        simp
      · obtain ⟨j, hj, hsize⟩ := highestBit_spec hu0
        rw [if_pos hu0, hj]
        simp [hsize]
    · obtain ⟨j, hj, hsize⟩ := highestBit_spec hu1
      rw [if_pos hu1, hj, size_eq_add (k := 32) (hne 1 hu1) (by omega) (by omega), hsize]
      simp
      omega
  · obtain ⟨j, hj, hsize⟩ := highestBit_spec hu2
    rw [if_pos hu2, hj, size_eq_add (k := 64) (hne 2 hu2) (by omega) (by omega), hsize]
    simp
    omega

/-- The lowest word of a number in two's complement that fits in it. -/
theorem toInt_word {x : LARGENUM} (hlow : -2 ^ 31 ≤ x.formatted.toInt)
    (hhigh : x.formatted.toInt < 2 ^ 31) : (x.u 0).toInt = x.formatted.toInt := by
  have h0 := (x.u 0).isLt
  rw [toInt_formatted] at *
  rw [BitVec.toInt_eq_toNat_cond]
  unfold LARGENUM.mag at *
  cases hneg : x.fNegative with
  | false =>
    simp only [hneg, Bool.false_eq_true, if_false] at *
    split <;> omega
  | true =>
    simp only [hneg, if_true] at *
    split <;> omega

end Hcrtos.Native.LargeNum
