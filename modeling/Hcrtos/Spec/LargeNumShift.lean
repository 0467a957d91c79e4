import Hcrtos.Spec.LargeNumDivision
import Hcrtos.ForStd.Bits

/-!
# Shifts of large numbers

`LargeNumRAShift` turns the number into two's complement and shifts it, with a word of ones or zeros
behind the last word. The sign of the number is kept, so that it is the bit above the words.

## Key results

- `signedFormat_spec`: the format is a two's complement of 97 bits, except for a negative zero
- `rashift_words`: every word of the result is a word of the shifted sequence
- `rashift_floor`: the result is the number divided and rounded down
- `normal_addSigned`, `normal_mult`, `normal_div`: the results of sums, products and divisions are
  no negative zeros
-/

namespace Hcrtos.Native.LargeNum

open WordShift

/-- A number with the magnitude zero has no sign. -/
def LARGENUM.Normal (x : LARGENUM) : Prop := x.mag = 0 → x.fNegative = false

instance (x : LARGENUM) : Decidable x.Normal := inferInstanceAs (Decidable (_ → _))

/-- The words of a number in two's complement, with a word that goes on behind them. -/
def words (x : LARGENUM) (filler : BitVec 32) (i : Nat) : BitVec 32 :=
  if h : i < 3 then x.u ⟨i, h⟩ else filler

/-- The words of a number. -/
def LARGENUM.bits (x : LARGENUM) : BitVec 96 := x.u 2 ++ x.u 1 ++ x.u 0

/-- The two's complement with the sign as the bit above the words. -/
def LARGENUM.formatted (x : LARGENUM) : BitVec 97 := .cons x.fNegative x.bits

theorem toNat_bits (x : LARGENUM) : x.bits.toNat = x.mag := by
  unfold LARGENUM.bits LARGENUM.mag
  rw [Bits.toNat_append_eq, Bits.toNat_append_eq]
  omega

/-- The sign counts for the power of two above the words. -/
theorem toInt_formatted (x : LARGENUM) :
    x.formatted.toInt = x.mag - if x.fNegative then 2 ^ 96 else 0 := by
  have hmag := mag_lt x
  have hcons : x.formatted.toNat = x.fNegative.toNat * 2 ^ 96 + x.mag := by
    unfold LARGENUM.formatted
    rw [BitVec.toNat_cons, toNat_bits, ← Nat.shiftLeft_add_eq_or_of_lt hmag, Nat.shiftLeft_eq]
  rw [BitVec.toInt_eq_toNat_cond, hcons]
  cases x.fNegative with
  | false =>
    rw [Bool.toNat_false, if_pos (by omega)]
    simp
  | true =>
    rw [Bool.toNat_true, if_neg (by omega)]
    push_cast
    simp only [if_true]
    ring

theorem getLsbD_formatted (x : LARGENUM) {k : Nat} (hk : k < 97) :
    x.formatted.getLsbD k = bit (words x (fill 32 x.fNegative)) k := by
  unfold LARGENUM.formatted LARGENUM.bits bit words
  rw [BitVec.getLsbD_cons, BitVec.getLsbD_append, BitVec.getLsbD_append]
  by_cases h0 : k < 32
  · have hdiv : k / 32 = 0 := by omega
    have hmod : k % 32 = k := by omega
    simp [hdiv, hmod, h0, show k ≠ 96 by omega]
  · by_cases h1 : k < 64
    · have hdiv : k / 32 = 1 := by omega
      have hmod : k % 32 = k - 32 := by omega
      simp [hdiv, hmod, h0, show k - 32 < 32 by omega, show k ≠ 96 by omega]
    · by_cases h2 : k < 96
      · have hdiv : k / 32 = 2 := by omega
        have hmod : k % 32 = k - 32 - 32 := by omega
        simp [hdiv, hmod, h0, show ¬ k - 32 < 32 by omega, show k ≠ 96 by omega]
      · have heq : k = 96 := by omega
        simp [heq]

section Shift

variable {Ptr : Type} [DecidableEq Ptr] (m : Mem Ptr) (p : Ptr)

/-- The word behind the number, and the number without its sign. -/
theorem signedFormat_spec :
    (LargeNumSignedFormat m p).1 = fill 32 (m p).fNegative ∧
      ((LargeNumSignedFormat m p).2 p).mag =
        (if (m p).fNegative then (2 ^ 96 - (m p).mag) % 2 ^ 96 else (m p).mag) ∧
      (∀ o, ((LargeNumSignedFormat m p).2 o).fNegative = (m o).fNegative) ∧
      ∀ o, o ≠ p → (LargeNumSignedFormat m p).2 o = m o := by
  unfold LargeNumSignedFormat IsLargeNumNegative
  cases hneg : (m p).fNegative with
  | false => exact ⟨rfl, rfl, fun _ => rfl, fun _ _ => rfl⟩
  | true =>
    obtain ⟨hmag, hsign, hother⟩ := foldl_incWord m p (~~~·)
    have hfill : (0xffffffff : BitVec 32) = fill 32 true := by decide
    refine ⟨hfill, hmag.trans ?_, hsign, hother⟩
    have h0 := ((m p).u 0).isLt
    have h1 := ((m p).u 1).isLt
    have h2 := ((m p).u 2).isLt
    rw [BitVec.toNat_not, BitVec.toNat_not, BitVec.toNat_not, if_pos rfl]
    unfold LARGENUM.mag
    omega

/-- Two's complement of 97 bits holds every number. -/
theorem toInt_signedFormat (h : (m p).Normal) :
    ((LargeNumSignedFormat m p).2 p).formatted.toInt = (m p).toInt := by
  obtain ⟨-, hmag, hsign, -⟩ := signedFormat_spec m p
  have hlt := mag_lt (m p)
  rw [toInt_formatted, hsign, hmag]
  unfold LARGENUM.toInt
  cases hneg : (m p).fNegative with
  | false => simp
  | true =>
    have hne : (m p).mag ≠ 0 := by
      intro hzero
      rw [h hzero] at hneg
      cases hneg
    rw [if_pos rfl, if_pos rfl, if_pos rfl, Nat.mod_eq_of_lt (by omega)]
    omega

/-- A round writes the word of the shifted sequence; the words that it reads are not below it. -/
theorem shiftWord_eq (n : Nat) (b : Bool) (i : Fin 3) :
    shiftWord p (n / 32) (n % 32) (fill 32 b) m i =
      setWord m p i (shiftRight (words (m p) (fill 32 b)) n i) := by
  have hc : n % 32 < 32 := Nat.mod_lt n (by decide)
  have htwice : ∀ x y : BitVec 32, setWord (setWord m p i x) p i y = setWord m p i y := by
    intro x y
    simp [setWord]
  unfold shiftWord
  split
  · next h =>
    have hlow : words (m p) (fill 32 b) (i + n / 32) = (m p).u ⟨i + n / 32, h⟩ := dif_pos h
    have hhigh : words (m p) (fill 32 b) (i + n / 32 + 1) =
        if hj : i.val + n / 32 + 1 < 3 then (m p).u ⟨i + n / 32 + 1, hj⟩ else fill 32 b := rfl
    dsimp only [shiftRight]
    rw [hlow, hhigh]
    split
    · rw [htwice, u_setWord, if_pos ⟨rfl, rfl⟩]
      congr 3
      split
      · next hj =>
        have hne : (⟨i + n / 32 + 1, hj⟩ : Fin 3) ≠ i := by
          intro heq
          have := congrArg Fin.val heq
          dsimp only at this
          omega
        rw [u_setWord, if_neg (fun h => hne h.2)]
      · rfl
    · rfl
  · next h =>
    rw [shiftRight_fill (by decide) (b := b)]
    intro j hj
    exact dif_neg (by omega)

/-- The rounds before one leave the words that it reads alone. -/
theorem foldl_shiftWord (n : Nat) (b : Bool) {is : List (Fin 3)} (hsorted : is.Pairwise (· < ·)) :
    (∀ i ∈ is, (is.foldl (shiftWord p (n / 32) (n % 32) (fill 32 b)) m p).u i =
      shiftRight (words (m p) (fill 32 b)) n i) ∧
    (∀ i ∉ is, (is.foldl (shiftWord p (n / 32) (n % 32) (fill 32 b)) m p).u i = (m p).u i) ∧
    (∀ o, (is.foldl (shiftWord p (n / 32) (n % 32) (fill 32 b)) m o).fNegative =
      (m o).fNegative) ∧
    ∀ o, o ≠ p → is.foldl (shiftWord p (n / 32) (n % 32) (fill 32 b)) m o = m o := by
  induction is generalizing m with
  | nil =>
    exact ⟨fun i hi => absurd hi List.not_mem_nil, fun _ _ => rfl, fun _ => rfl, fun _ _ => rfl⟩
  | cons k is ih =>
    obtain ⟨hk, hsorted⟩ := List.pairwise_cons.mp hsorted
    rw [List.foldl_cons, shiftWord_eq]
    obtain ⟨ihmem, ihrest, ihneg, ihother⟩ :=
      ih (setWord m p k (shiftRight (words (m p) (fill 32 b)) n k)) hsorted
    refine ⟨fun i hmem => ?_, fun i hnot => ?_, fun o => (ihneg o).trans (fNegative_setWord ..),
      fun o ho => (ihother o ho).trans (setWord_of_ne _ _ ho ..)⟩
    · by_cases hi : i ∈ is
      · rw [ihmem i hi]
        apply shiftRight_congr
        intro j hj
        unfold words
        split
        · next hlt =>
          have hne : (⟨j, hlt⟩ : Fin 3) ≠ k := by
            rintro rfl
            exact absurd (hk i hi) (Nat.not_lt.mpr hj)
          rw [u_setWord, if_neg (fun h => hne h.2)]
        · rfl
      · obtain rfl : i = k := (List.mem_cons.mp hmem).resolve_right hi
        rw [ihrest i hi, u_setWord, if_pos ⟨rfl, rfl⟩]
    · obtain ⟨hne, hi⟩ := not_or.mp (fun h => hnot (List.mem_cons.mpr h))
      rw [ihrest i hi, u_setWord, if_neg (fun h => hne h.2)]

/-- Every word of the result is one of the shifted sequence. -/
theorem rashift_words (n : Nat) :
    (∀ i, (LargeNumRAShift m p n p).u i = shiftRight
      (words ((LargeNumSignedFormat m p).2 p) (fill 32 (m p).fNegative)) n i) ∧
    (LargeNumRAShift m p n p).fNegative = (m p).fNegative ∧
    ∀ o, o ≠ p → LargeNumRAShift m p n o = m o := by
  obtain ⟨hfill, -, hsign, hother⟩ := signedFormat_spec m p
  unfold LargeNumRAShift
  dsimp only
  rw [hfill]
  generalize (LargeNumSignedFormat m p).2 = m' at *
  split
  · next hall =>
    have h01 : (0 : Fin 3) ≠ 1 := by decide
    have h02 : (0 : Fin 3) ≠ 2 := by decide
    have h12 : (1 : Fin 3) ≠ 2 := by decide
    simp only [List.foldl_cons, List.foldl_nil]
    refine ⟨fun i => ?_, ?_, fun o ho => ?_⟩
    · rw [shiftRight_fill (by decide) (b := (m p).fNegative) (fun j hj => dif_neg (by omega))]
      obtain rfl | rfl | rfl : i = 0 ∨ i = 1 ∨ i = 2 := by omega
      all_goals simp
    · simp [hsign]
    · rw [setWord_of_ne _ _ ho, setWord_of_ne _ _ ho, setWord_of_ne _ _ ho, hother o ho]
  · have hsorted : ([0, 1, 2] : List (Fin 3)).Pairwise (· < ·) := by decide
    obtain ⟨hu, -, hneg, hkeep⟩ := foldl_shiftWord m' p n (m p).fNegative hsorted
    refine ⟨fun i => ?_, (hneg p).trans (hsign p), fun o ho => (hkeep o ho).trans (hother o ho)⟩
    have hmem : i ∈ [0, 1, 2] := by
      obtain rfl | rfl | rfl : i = 0 ∨ i = 1 ∨ i = 2 := by omega
      all_goals decide
    exact hu i hmem

/-- The result is the two's complement, shifted. -/
theorem formatted_rashift (n : Nat) : (LargeNumRAShift m p n p).formatted =
    ((LargeNumSignedFormat m p).2 p).formatted.sshiftRight n := by
  obtain ⟨hu, hneg, -⟩ := rashift_words m p n
  obtain ⟨-, -, hsign, -⟩ := signedFormat_spec m p
  have hsign := hsign p
  generalize (LargeNumSignedFormat m p).2 p = x at *
  have hwords : words (LargeNumRAShift m p n p) (fill 32 (m p).fNegative) =
      shiftRight (words x (fill 32 (m p).fNegative)) n := by
    funext i
    by_cases hi : i < 3
    · exact (dif_pos hi).trans (hu ⟨i, hi⟩)
    · rw [shiftRight_fill (by decide) (b := (m p).fNegative) (fun j hj => dif_neg (by omega))]
      exact dif_neg hi
  apply BitVec.eq_of_getLsbD_eq
  intro k hk
  have hmsb : x.formatted.msb = (m p).fNegative := BitVec.msb_cons.trans hsign
  rw [getLsbD_formatted _ hk, hneg, hwords, bit_shiftRight (by decide), BitVec.getLsbD_sshiftRight,
    hmsb, decide_eq_false (by omega : ¬ 97 ≤ k), Bool.not_false, Bool.true_and]
  by_cases hin : n + k < 97
  · rw [if_pos hin, getLsbD_formatted x hin, hsign, Nat.add_comm]
  · have hout : bit (words x (fill 32 (m p).fNegative)) (k + n) = (m p).fNegative := by
      have hbehind : words x (fill 32 (m p).fNegative) ((k + n) / 32) =
          fill 32 (m p).fNegative := dif_neg (by omega)
      rw [bit, hbehind, getLsbD_fill, decide_eq_true (Nat.mod_lt _ (by decide)), Bool.true_and]
    rw [if_neg hin, hout]

/-- The words of a number in two's complement that fits in them. -/
theorem toInt_bits (x : LARGENUM) (hlow : -2 ^ 95 ≤ x.formatted.toInt)
    (hhigh : x.formatted.toInt < 2 ^ 95) : x.bits.toInt = x.formatted.toInt := by
  have hmag := mag_lt x
  rw [toInt_formatted] at *
  rw [BitVec.toInt_eq_toNat_cond, toNat_bits]
  cases hneg : x.fNegative with
  | false =>
    simp only [hneg, Bool.false_eq_true, if_false] at *
    rw [if_pos (by omega)]
    simp
  | true =>
    simp only [hneg, if_true] at *
    rw [if_neg (by omega)]
    push_cast
    rfl

/-- A number that is no negative zero is divided by a power of two and rounded down. -/
theorem toInt_rashift (n : Nat) (h : (m p).Normal) :
    (LargeNumRAShift m p n p).formatted.toInt = (m p).toInt / 2 ^ n := by
  rw [formatted_rashift, BitVec.toInt_sshiftRight, toInt_signedFormat m p h,
    Int.shiftRight_eq_div_pow]
  norm_cast

/-- The result is the number divided and rounded down, with the sign as the bit above the words; the
    words alone are the result where it fits in them. -/
theorem rashift_floor (n : Nat) (h : (m p).Normal) :
    (LargeNumRAShift m p n p).formatted.toInt = (m p).toInt / 2 ^ n ∧
      (-2 ^ 95 ≤ (m p).toInt / 2 ^ n → (m p).toInt / 2 ^ n < 2 ^ 95 →
        (LargeNumRAShift m p n p).bits.toInt = (m p).toInt / 2 ^ n) := by
  have hfloor := toInt_rashift m p n h
  refine ⟨hfloor, fun hlow hhigh => ?_⟩
  rw [← hfloor] at hlow hhigh ⊢
  exact toInt_bits _ hlow hhigh

/-- Minus five divided by four, rounded down. -/
theorem rashift_floor_minus_five :
    (LargeNumRAShift (fun _ : Unit => LargeNumSet (-5)) () 2 ()).formatted.toInt =
        (LargeNumSet (-5)).toInt / 2 ^ 2 ∧
      (-2 ^ 95 ≤ (LargeNumSet (-5)).toInt / 2 ^ 2 → (LargeNumSet (-5)).toInt / 2 ^ 2 < 2 ^ 95 →
        (LargeNumRAShift (fun _ : Unit => LargeNumSet (-5)) () 2 ()).bits.toInt =
          (LargeNumSet (-5)).toInt / 2 ^ 2) :=
  rashift_floor (fun _ => LargeNumSet (-5)) () 2 (by decide)

/-- A negative zero is filled up with ones. -/
theorem rashift_fails : ¬ ∀ (m : Mem Unit) (n : Nat),
    (LargeNumRAShift m () n ()).formatted.toInt = (m ()).toInt / 2 ^ n ∨
      (LargeNumRAShift m () n ()).bits.toInt = (m ()).toInt / 2 ^ n := by
  intro h
  have h := h (fun _ => ⟨true, fun _ => 0⟩) 1
  revert h
  decide

end Shift

/-! ### Negative zeros -/

theorem normal_set {n : Int} (hlow : -2 ^ 31 ≤ n) (hhigh : n < 2 ^ 31) :
    (LargeNumSet n).Normal := by
  intro hzero
  by_contra hneg
  have hlt : n < 0 := by simpa [LargeNumSet] using hneg
  have hword : (LargeNumSet n).u 0 = .ofInt 32 (-n) := by simp [LargeNumSet, hlt]
  have hnat : -n = (n.natAbs : Int) := by omega
  unfold LARGENUM.mag at hzero
  rw [hword, hnat, BitVec.ofInt_natCast, BitVec.toNat_ofNat, Nat.mod_eq_of_lt (by omega)] at hzero
  omega

section Normal

variable {Ptr : Type} [DecidableEq Ptr] (m : Mem Ptr)

theorem normal_setSign (r : Ptr) (b : Bool) :
    ((if ¬ IsLargeNumNotZero (m r) then setNegative m r false
      else setNegative m r b) r).Normal := by
  intro hzero
  rw [notZero_iff] at *
  split
  · exact fNegative_setNegative m r false
  · next hne =>
    rw [if_neg hne, mag_setNegative] at hzero
    simp [hzero] at hne

theorem normal_addSigned (flip : Bool) (p q r : Ptr) : (addSigned flip m p q r r).Normal := by
  unfold addSigned
  exact normal_setSign _ _ _

theorem normal_mult (p q r : Ptr) : (LargeNumMult m p q r r).Normal := by
  unfold LargeNumMult
  exact normal_setSign _ _ _

theorem normal_setQuotient (r : Ptr) (b : Bool) :
    (setNegative m r (b && IsLargeNumNotZero (m r)) r).Normal := by
  intro hzero
  rw [mag_setNegative] at hzero
  rw [fNegative_setNegative, notZero_iff, hzero]
  simp

/-- A division by zero leaves words of ones. -/
theorem normal_div (p r : Ptr) (d : Int) : ((LargeNumDivInt32 m p d r).2 r).Normal := by
  by_cases hd : d = 0
  · intro hzero
    have hword := (word_eq ((LargeNumDivInt32 m p d r).2 r)).1
    rw [hzero] at hword
    unfold LargeNumDivInt32 at hword
    rw [if_pos hd] at hword
    simp at hword
  · unfold LargeNumDivInt32
    rw [if_neg hd]
    dsimp only
    rw [fNegative_setHalves]
    cases (m p).fNegative with
    | false => exact normal_setQuotient _ _ _
    | true => exact normal_setQuotient _ _ _

end Normal

end Hcrtos.Native.LargeNum
