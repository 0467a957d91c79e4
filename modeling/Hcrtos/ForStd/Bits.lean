import Mathlib.Algebra.Ring.Nat
import Mathlib.Data.Nat.Basic

/-!
# Bits of a register

## Key results

- `getLsbD_setBit`, `getLsbD_clearBit`: what a bit is after it, or another one, is set or cleared
- `and_mask_eq_zero_iff`: the words whose lower bits are clear
- `and_not_mask_eq`: clearing the lower bits
- `or_eq_add`, `toNat_append_eq`: words that are joined from parts
-/

namespace Hcrtos.Bits

variable {w : Nat}

/-- `reg | (1 << n)`. -/
def setBit (x : BitVec w) (n : Nat) : BitVec w := x ||| BitVec.twoPow w n

/-- `reg & ~(1 << n)`. -/
def clearBit (x : BitVec w) (n : Nat) : BitVec w := x &&& ~~~BitVec.twoPow w n

@[simp] theorem getLsbD_setBit (x : BitVec w) {n : Nat} (hn : n < w) (i : Nat) :
    (setBit x n).getLsbD i = (decide (i = n) || x.getLsbD i) := by
  simp only [setBit, BitVec.getLsbD_or, BitVec.getLsbD_twoPow, hn, decide_true, Bool.true_and]
  by_cases hi : i = n
  · simp [hi]
  · simp [hi, Ne.symm hi]

@[simp] theorem getLsbD_clearBit (x : BitVec w) (n i : Nat) :
    (clearBit x n).getLsbD i = (!decide (i = n) && x.getLsbD i) := by
  simp only [clearBit, BitVec.getLsbD_and, BitVec.getLsbD_not, BitVec.getLsbD_twoPow]
  by_cases hw : i < w
  · by_cases hi : i = n
    · subst hi
      simp [hw]
    · simp [hw, hi, Ne.symm hi]
  · simp [BitVec.getLsbD_of_ge x i (by omega)]

/-- The bits below bit `k` are clear exactly in the multiples of `2 ^ k`. -/
theorem and_mask_eq_zero_iff {x mask : UInt32} {k : Nat} (hmask : mask.toNat = 2 ^ k - 1) :
    x &&& mask = 0 ↔ x.toNat % 2 ^ k = 0 := by
  rw [← UInt32.toNat_inj, UInt32.toNat_and, hmask, Nat.and_two_pow_sub_one_eq_mod]
  rfl

/-- Clearing the bits below bit `k` rounds down to a multiple of `2 ^ k`. -/
theorem and_not_mask_eq {x k : Nat} (hx : x < 2 ^ w) (hk : k ≤ w) :
    x &&& ((2 ^ w - 1) ^^^ (2 ^ k - 1)) = x / 2 ^ k * 2 ^ k := by
  apply Nat.eq_of_testBit_eq
  intro i
  rw [Nat.testBit_and, Nat.testBit_xor, Nat.testBit_two_pow_sub_one, Nat.testBit_two_pow_sub_one,
    Nat.testBit_mul_two_pow, Nat.testBit_div_two_pow]
  by_cases hik : i < k
  · simp [hik, show i < w by omega, show ¬ k ≤ i by omega]
  · by_cases hiw : i < w
    · simp [hik, hiw, show i - k + k = i by omega, show k ≤ i by omega]
    · have hzero : x.testBit i = false := Nat.testBit_lt_two_pow
        (Nat.lt_of_lt_of_le hx (Nat.pow_le_pow_right (by decide) (by omega)))
      simp [hzero, show i - k + k = i by omega]

/-- Numbers without a bit in common. -/
theorem or_eq_add {a b k : Nat} (ha : 2 ^ k ∣ a) (hb : b < 2 ^ k) : a ||| b = a + b := by
  obtain ⟨c, rfl⟩ := ha
  rw [Nat.mul_comm, ← Nat.shiftLeft_eq, Nat.shiftLeft_add_eq_or_of_lt hb]

/-- The upper part counts for the power of two above the lower one. -/
theorem toNat_append_eq {v : Nat} (x : BitVec v) (y : BitVec w) :
    (x ++ y).toNat = x.toNat * 2 ^ w + y.toNat := by
  rw [BitVec.toNat_append, ← Nat.shiftLeft_add_eq_or_of_lt y.isLt, Nat.shiftLeft_eq]

end Hcrtos.Bits

/-! ## Shifts of sequences of words

A number of several words is a sequence of words, the lowest one first; behind its last word it goes
on with the words that fill it up. A shift to the right by any number of bits moves whole words down
and joins the parts of two neighbouring words. A word is not shifted by its own width.

#### Key results

- `bit_shiftRight`: the bits of a shifted sequence are those of the sequence further up
- `shiftRight_congr`: a word of it depends on the words from its own position on
- `shiftRight_fill`: where the sequence is filled up, the shifted sequence is, too
-/

namespace Hcrtos.WordShift

variable {w : Nat}

/-- A bit of a sequence of words. -/
def bit (ws : Nat → BitVec w) (k : Nat) : Bool := (ws (k / w)).getLsbD (k % w)

/-- The sequence shifted to the right by `n` bits. -/
def shiftRight (ws : Nat → BitVec w) (n i : Nat) : BitVec w :=
  let x := ws (i + n / w) >>> (n % w)
  if w - n % w < w then x ||| ws (i + n / w + 1) <<< (w - n % w) else x

theorem bit_shiftRight (hw : 0 < w) (ws : Nat → BitVec w) (n k : Nat) :
    bit (shiftRight ws n) k = bit ws (k + n) := by
  have hb : k % w < w := Nat.mod_lt k hw
  have hc : n % w < w := Nat.mod_lt n hw
  have hsum : k + n = k % w + n % w + w * (k / w + n / w) := by
    have hk := Nat.div_add_mod k w
    have hn := Nat.div_add_mod n w
    rw [Nat.mul_add]
    omega
  unfold bit shiftRight
  dsimp only
  generalize k / w = i at *
  generalize n / w = q at *
  generalize k % w = b at *
  generalize n % w = c at *
  rw [hsum, Nat.add_mul_div_left _ _ hw, Nat.add_mul_mod_self_left]
  by_cases hlow : b + c < w
  · -- the bit comes from the lower word
    rw [Nat.div_eq_of_lt hlow, Nat.mod_eq_of_lt hlow, Nat.zero_add]
    split
    · have hnot : b < w - c := by omega
      simp [hnot, Nat.add_comm]
    · simp [Nat.add_comm]
  · have hdiv : (b + c) / w = 1 := by
      rw [Nat.div_eq_sub_div hw (by omega), Nat.div_eq_of_lt (by omega)]
    have hmod : (b + c) % w = b - (w - c) := by
      rw [Nat.mod_eq_sub_mod (by omega), Nat.mod_eq_of_lt (by omega)]
      omega
    have hpos : w - c < w := by omega
    have hout : (ws (i + q)).getLsbD (c + b) = false := BitVec.getLsbD_of_ge _ _ (by omega)
    have hnot : ¬ b < w - c := by omega
    rw [hdiv, hmod, if_pos hpos, BitVec.getLsbD_or, BitVec.getLsbD_ushiftRight, hout,
      BitVec.getLsbD_shiftLeft, Nat.add_comm 1 (i + q)]
    simp [hb, hnot]

theorem shiftRight_congr {ws ws' : Nat → BitVec w} {i : Nat} (h : ∀ j, i ≤ j → ws j = ws' j)
    (n : Nat) : shiftRight ws n i = shiftRight ws' n i := by
  have hle : i ≤ i + n / w := Nat.le_add_right i _
  unfold shiftRight
  rw [h _ hle, h _ (Nat.le_succ_of_le hle)]

/-- The word that fills up a number with the sign `b`. -/
def fill (w : Nat) (b : Bool) : BitVec w := if b then BitVec.allOnes w else 0

@[simp] theorem getLsbD_fill (b : Bool) (k : Nat) :
    (fill w b).getLsbD k = (decide (k < w) && b) := by
  cases b <;> simp [fill]

@[simp] theorem getElem_fill (b : Bool) {k : Nat} (h : k < w) : (fill w b)[k] = b := by
  rw [← BitVec.getLsbD_eq_getElem, getLsbD_fill, decide_eq_true h, Bool.true_and]

theorem shiftRight_fill (hw : 0 < w) {ws : Nat → BitVec w} {b : Bool} {n i : Nat}
    (h : ∀ j, i + n / w ≤ j → ws j = fill w b) : shiftRight ws n i = fill w b := by
  have hc : n % w < w := Nat.mod_lt n hw
  unfold shiftRight
  rw [h _ (Nat.le_refl _), h _ (Nat.le_succ _)]
  generalize n % w = c at *
  apply BitVec.eq_of_getLsbD_eq
  intro k hk
  split
  · simp only [BitVec.getLsbD_or, BitVec.getLsbD_ushiftRight, BitVec.getLsbD_shiftLeft,
      getLsbD_fill, hk, decide_true, Bool.true_and]
    by_cases hlow : k < w - c
    · simp [hlow, show c + k < w by omega]
    · simp [hlow, show ¬ c + k < w by omega, show k - (w - c) < w by omega]
  · have hzero : c = 0 := by omega
    simp [hzero]

end Hcrtos.WordShift
