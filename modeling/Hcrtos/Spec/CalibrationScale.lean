import Hcrtos.Spec.CalibrationMatrix
import Hcrtos.Spec.LargeNumBits
import Hcrtos.ForStd.Fold

/-!
# The scaling of the calibration

The seven determinants are computed one after the other from the sums, two of them are rounded, and
all are shifted by the same number of bits, so that each has the bits that are left for it.

## Key results

- `toInt_determinants`: the seven numbers are the determinants up to the lost carries
- `minShift_eq_zero_iff`: there is no shift iff all numbers have the bits already
- `toInt_scaled`: with a shift the lowest words are the numbers divided and rounded down
- `toInt_scaled_of_eq_zero`: without a shift they are the magnitudes
-/

namespace Hcrtos.Native.Calibration

open LargeNum

/-! ### Determinants -/

theorem values_congr {Ptr : Type} {m m' : Mem Ptr} {pMatrix : MATRIX33 Ptr}
    (h : ∀ p ∈ pMatrix.entries, m' p = m p) : pMatrix.values m' = pMatrix.values m := by
  simp only [MATRIX33.entries, List.forall_mem_cons] at h
  obtain ⟨h11, h12, h13, h21, h22, h23, h31, h32, h33, -⟩ := h
  simp only [MATRIX33.values, h11, h12, h13, h21, h22, h23, h31, h32, h33]

section Determinants

variable {Ptr : Type} [DecidableEq Ptr] (m : Mem Ptr) {pResult : Ptr} (pMatrix : MATRIX33 Ptr)

theorem computeMatrix33_of_ne {o : Ptr} (h : o ≠ pResult) :
    ComputeMatrix33 m pResult pMatrix o = m o := by
  have hr : Var.caller o ≠ .caller pResult := by simpa using h
  have ht : Var.caller o ≠ .lnTemp := by simp
  simp only [ComputeMatrix33, LargeNumAdd, LargeNumSub, addSigned_of_ne _ _ _ _ hr,
    mult_of_ne _ _ _ hr, mult_of_ne _ _ _ ht]
  rfl

theorem normal_computeMatrix33 : (ComputeMatrix33 m pResult pMatrix pResult).Normal :=
  normal_addSigned _ true _ _ _

end Determinants

theorem det_values {Ptr : Type} (m : Mem Ptr) (pMatrix : MATRIX33 Ptr) :
    (pMatrix.values m).det =
      (m pMatrix.pa11).toInt * (m pMatrix.pa22).toInt * (m pMatrix.pa33).toInt -
        (m pMatrix.pa11).toInt * (m pMatrix.pa23).toInt * (m pMatrix.pa32).toInt -
        (m pMatrix.pa12).toInt * (m pMatrix.pa21).toInt * (m pMatrix.pa33).toInt +
        (m pMatrix.pa12).toInt * (m pMatrix.pa23).toInt * (m pMatrix.pa31).toInt +
        (m pMatrix.pa13).toInt * (m pMatrix.pa21).toInt * (m pMatrix.pa32).toInt -
        (m pMatrix.pa13).toInt * (m pMatrix.pa22).toInt * (m pMatrix.pa31).toInt :=
  Matrix.det_fin_three _

theorem exists_entry {Ptr : Type} (m : Mem Ptr) (pMatrix : MATRIX33 Ptr) (i j : Fin 3) :
    ∃ p ∈ pMatrix.entries, pMatrix.values m i j = (m p).toInt := by
  fin_cases i <;> fin_cases j <;> simp [MATRIX33.values, MATRIX33.entries]

/-- Every determinant is computed from the sums. -/
theorem determinants_eq (m : Mem Number) : ∀ q ∈ matrices, ∃ m' : Mem Number,
    (∀ p ∈ q.2.entries, m' p = m p) ∧
      determinants m q.1 = ComputeMatrix33 m' q.1 q.2 q.1 := by
  have hnodup : (matrices.map Prod.fst).Nodup := by decide
  have hentries : ∀ q ∈ matrices, ∀ p ∈ q.2.entries, p ∉ matrices.map Prod.fst := by decide
  intro q hq
  obtain ⟨m', -, hother, hvalue⟩ := (Fold.writes_spec
    (fun m q p hp => computeMatrix33_of_ne m q.2 hp) hnodup m).1 q hq
  exact ⟨m', fun p hp => hother p (hentries q hq p hp), hvalue⟩

/-- Entries of 15 bits lose no carries. -/
theorem lostSum_eq_zero {a : Matrix (Fin 3) (Fin 3) Int} (h : ∀ i j, (a i j).natAbs ≤ 2 ^ 15) :
    lostSum a = 0 := by
  have hlost : ∀ i j k l n o, lostIn (a i j) (a k l * a n o) = 0 := by
    intro i j k l n o
    have hij := h i j
    have hmul : (a k l).natAbs * (a n o).natAbs ≤ 2 ^ 15 * 2 ^ 15 := Nat.mul_le_mul (h k l) (h n o)
    apply lostIn_of_le
    · omega
    · rw [Int.natAbs_mul]
      omega
  unfold lostSum
  simp only [hlost]
  rfl

/-- The determinants, up to the carries that are lost. -/
theorem toInt_determinants {m : Mem Number}
    (hfits : ∀ q ∈ matrices, ∀ p ∈ q.2.entries, Fits (m p)) :
    ∀ q ∈ matrices, (determinants m q.1).toInt =
      (q.2.values m).det - 2 ^ 48 * lostSum (q.2.values m) := by
  have hresult : ∀ q ∈ matrices, q.1 ∉ q.2.entries := by decide
  intro q hq
  obtain ⟨m', hentries, hvalue⟩ := determinants_eq m q hq
  have hfits' : ∀ p ∈ q.2.entries, Fits (m' p) := by
    intro p hp
    rw [hentries p hp]
    exact hfits q hq p hp
  rw [hvalue, (toInt_computeMatrix33 hfits' (hresult q hq)).1, values_congr hentries]

/-- With sums of 15 bits the numbers are the determinants. -/
theorem toInt_determinants_of_le {m : Mem Number}
    (h : ∀ q ∈ matrices, ∀ p ∈ q.2.entries, (m p).toInt.natAbs ≤ 2 ^ 15) :
    ∀ q ∈ matrices, (determinants m q.1).toInt = (q.2.values m).det := by
  have hfits : ∀ q ∈ matrices, ∀ p ∈ q.2.entries, Fits (m p) := by
    intro q hq p hp
    unfold Fits
    rw [← natAbs_toInt]
    exact (h q hq p hp).trans (by decide)
  intro q hq
  rw [toInt_determinants hfits q hq, lostSum_eq_zero, mul_zero, sub_zero]
  intro i j
  obtain ⟨p, hp, hvalue⟩ := exists_entry m q.2 i j
  rw [hvalue]
  exact h q hq p hp

/-! ### Rounding -/

/-- The numbers that are stored. -/
def coefficients : List Number := [.a1, .a2, .b1, .b2, .c1, .c2, .delta]

theorem normal_determinants (m : Mem Number) :
    ∀ p ∈ coefficients, (determinants m p).Normal := by
  have hmem : ∀ p ∈ coefficients, ∃ q ∈ matrices, q.1 = p := by decide
  intro p hp
  obtain ⟨q, hq, rfl⟩ := hmem p hp
  obtain ⟨m', -, hvalue⟩ := determinants_eq m q hq
  rw [hvalue]
  exact normal_computeMatrix33 m' q.2

/-- The rounding changes the two terms. -/
theorem addHalfDelta_of_ne (m : Mem Number) {p : Number} (h1 : p ≠ .c1) (h2 : p ≠ .c2) :
    addHalfDelta m p = m p := by
  have h1' : Rounding.outer p ≠ .outer .c1 := by simpa using h1
  have h2' : Rounding.outer p ≠ .outer .c2 := by simpa using h2
  have hh : Rounding.outer p ≠ .halfDelta := by simp
  unfold addHalfDelta LargeNumAdd
  rw [addSigned_of_ne _ _ _ _ h2', addSigned_of_ne _ _ _ _ h1']
  split <;> exact divInt32_of_ne _ _ _ hh

/-- Half of the magnitude, which for a negative number is too much by one. -/
def half (x : LARGENUM) : Nat := if x.fNegative then x.mag / 2 + 1 else x.mag / 2

/-- The local variable of the block. -/
theorem toInt_halfDelta (m : Mem Rounding) :
    ((if IsLargeNumNegative (m (.outer .delta)) then
        (LargeNumDivInt32 m (.outer .delta) (-2) .halfDelta).2
      else (LargeNumDivInt32 m (.outer .delta) 2 .halfDelta).2) .halfDelta).toInt =
      half (m (.outer .delta)) := by
  have hmag := mag_lt (m (.outer .delta))
  unfold IsLargeNumNegative half
  cases hneg : (m (.outer .delta)).fNegative with
  | false =>
    have hdiv := div_spec m (.outer .delta) .halfDelta (d := 2) (by decide) (by decide)
    exact (hdiv.1 hneg).2
  | true =>
    have hdiv := div_spec m (.outer .delta) .halfDelta (d := -2) (by decide) (by decide)
    have hfit : ((m (.outer .delta)).mag / 2 + 1) % 2 ^ 96 = (m (.outer .delta)).mag / 2 + 1 :=
      Nat.mod_eq_of_lt (by omega)
    have hnat : (-2 : Int).natAbs = 2 := by decide
    rw [if_pos rfl, if_pos rfl, (hdiv.2 hneg).2, if_pos (by decide), hnat, hfit]

/-- The terms without an overflow. -/
theorem toInt_addHalfDelta {m : Mem Number} (h1 : (m .c1).mag + half (m .delta) < 2 ^ 96)
    (h2 : (m .c2).mag + half (m .delta) < 2 ^ 96) :
    (addHalfDelta m .c1).toInt = (m .c1).toInt + half (m .delta) ∧
      (addHalfDelta m .c2).toInt = (m .c2).toInt + half (m .delta) := by
  have h12 : Rounding.outer .c1 ≠ .outer .c2 := by decide
  have hhalf1 : Rounding.halfDelta ≠ .outer .c1 := by decide
  have hne : ∀ p, Rounding.outer p ≠ .halfDelta := by simp
  have hhalf := toInt_halfDelta (enterBlock m)
  have hkeep : ∀ p, (if IsLargeNumNegative (enterBlock m (.outer .delta)) then
        (LargeNumDivInt32 (enterBlock m) (.outer .delta) (-2) .halfDelta).2
      else (LargeNumDivInt32 (enterBlock m) (.outer .delta) 2 .halfDelta).2) (.outer p) = m p := by
    intro p
    split <;> exact divInt32_of_ne _ _ _ (hne p)
  unfold addHalfDelta LargeNumAdd
  generalize (if IsLargeNumNegative (enterBlock m (.outer .delta)) then
      (LargeNumDivInt32 (enterBlock m) (.outer .delta) (-2) .halfDelta).2
    else (LargeNumDivInt32 (enterBlock m) (.outer .delta) 2 .halfDelta).2) = m' at *
  change (m' .halfDelta).toInt = half (m .delta) at hhalf
  have hmag : (m' .halfDelta).mag = half (m .delta) := by
    rw [← natAbs_toInt, hhalf, Int.natAbs_natCast]
  have hsum1 : (m' (.outer .c1)).mag + (m' .halfDelta).mag < 2 ^ 96 := by
    rw [hkeep, hmag]
    exact h1
  have hadd1 := (toInt_addSigned (r := .outer .c1) false hsum1).1
  have hkeep1 := addSigned_of_ne m' (.outer .c1) .halfDelta (r := .outer .c1) false h12.symm
  have hkeephalf := addSigned_of_ne m' (.outer .c1) .halfDelta (r := .outer .c1) false hhalf1
  rw [addSigned_of_ne _ _ _ _ h12, hadd1, hkeep, hhalf]
  generalize addSigned false m' (.outer .c1) .halfDelta (.outer .c1) = m'' at *
  have hsum2 : (m'' (.outer .c2)).mag + (m'' .halfDelta).mag < 2 ^ 96 := by
    rw [hkeep1, hkeephalf, hkeep, hmag]
    exact h2
  have hadd2 := (toInt_addSigned (r := .outer .c2) false hsum2).1
  rw [hkeep1, hkeephalf, hkeep, hhalf] at hadd2
  exact ⟨rfl, hadd2⟩

/-- None of the numbers is a negative zero. -/
theorem normal_numbers (pts : Points) : ∀ p ∈ coefficients, (numbers pts p).Normal := by
  have hnormal := normal_determinants (sums pts pts.cCalibrationPoints.toNat)
  unfold numbers
  generalize determinants (sums pts pts.cCalibrationPoints.toNat) = m at *
  intro p hp
  by_cases h2 : p = .c2
  · subst h2
    exact normal_addSigned _ false _ _ _
  by_cases h1 : p = .c1
  · subst h1
    have hne : Rounding.outer .c1 ≠ .outer .c2 := by decide
    unfold addHalfDelta LargeNumAdd
    rw [addSigned_of_ne _ _ _ _ hne]
    exact normal_addSigned _ false _ _ _
  rw [addHalfDelta_of_ne m h1 h2]
  exact hnormal p hp

/-! ### The shift -/

theorem minShift_le_iff (m : Mem Number) (b : Int) :
    minShift m ≤ b ↔ 0 ≤ b ∧ ∀ q ∈ precisions, LargeNumBits (m q.1) - q.2 ≤ b :=
  Fold.max_le_iff id (fun _ _ => Iff.rfl)
    (fun q : Number × Int => (LargeNumBits (m q.1) - q.2 : Int)) precisions 0 b

theorem minShift_nonneg (m : Mem Number) : 0 ≤ minShift m :=
  ((minShift_le_iff m _).mp le_rfl).1

/-- After the shift a number has the bits that are left for it at most. -/
theorem mag_lt_shift (m : Mem Number) :
    ∀ q ∈ precisions, (m q.1).mag < 2 ^ (q.2.toNat + (minShift m).toNat) := by
  intro q hq
  have hle := ((minShift_le_iff m _).mp le_rfl).2 q hq
  have hnonneg := minShift_nonneg m
  rw [largeNumBits_eq] at hle
  rw [← Nat.size_le]
  omega

theorem minShift_eq_zero_iff (m : Mem Number) :
    minShift m = 0 ↔ ∀ q ∈ precisions, (m q.1).mag < 2 ^ q.2.toNat := by
  have hnonneg := minShift_nonneg m
  have hprecision : ∀ q ∈ precisions, 0 ≤ q.2 := by decide
  have hzero : minShift m = 0 ↔ minShift m ≤ 0 := by omega
  rw [hzero, minShift_le_iff m 0, and_iff_right le_rfl]
  refine forall₂_congr fun q hq => ?_
  have := hprecision q hq
  rw [largeNumBits_eq, ← Nat.size_le]
  omega

/-- Every coefficient has a precision of 31 bits at most. -/
theorem exists_precision :
    ∀ p ∈ coefficients, ∃ q ∈ precisions, q.1 = p ∧ q.2.toNat ≤ 31 := by decide

/-- Without a shift the words are stored without their sign. -/
theorem toInt_scaled_of_eq_zero {m : Mem Number} (h : minShift m = 0) :
    ∀ p ∈ coefficients, ((scaled m p).u 0).toInt = (m p).mag := by
  have hscaled : scaled m = m := if_neg (not_not.mpr h)
  intro p hp
  obtain ⟨q, hq, rfl, hle⟩ := exists_precision p hp
  have hlt := (minShift_eq_zero_iff m).mp h q hq
  have hmag : (m q.1).mag < 2 ^ 31 := hlt.trans_le (Nat.pow_le_pow_right (by decide) hle)
  rw [hscaled, BitVec.toInt_eq_toNat_cond]
  unfold LARGENUM.mag at *
  rw [if_pos (by omega)]
  omega

/-- With a shift the numbers are divided and rounded down. -/
theorem toInt_scaled {m : Mem Number} (hnormal : ∀ p ∈ coefficients, (m p).Normal)
    (h : minShift m ≠ 0) :
    ∀ p ∈ coefficients, ((scaled m p).u 0).toInt = (m p).toInt / 2 ^ (minShift m).toNat := by
  have hscaled : scaled m =
      coefficients.foldl (fun m' p => LargeNumRAShift m' p (minShift m).toNat) m := if_pos h
  have hnodup : (coefficients.map id).Nodup := by decide
  have hbits := mag_lt_shift m
  intro p hp
  obtain ⟨q, hq, rfl, hle⟩ := exists_precision p hp
  generalize (minShift m).toNat = n at *
  obtain ⟨m', hself, -, hvalue⟩ := (Fold.writes_spec
    (fun m' p o ho => (rashift_words m' p n).2.2 o ho) hnodup m).1 q.1 hp
  have hfloor : (LargeNumRAShift m' q.1 n q.1).formatted.toInt = (m q.1).toInt / 2 ^ n := by
    rw [toInt_rashift m' q.1 n (hself ▸ hnormal q.1 hp), hself]
  have hmag : (m q.1).mag < 2 ^ 31 * 2 ^ n := by
    rw [← Nat.pow_add]
    exact (hbits q hq).trans_le (Nat.pow_le_pow_right (by decide) (by omega))
  have habs := natAbs_toInt (m q.1)
  have hpos : (0 : Int) < 2 ^ n := by positivity
  have hmag' : ((m q.1).mag : Int) < 2 ^ 31 * 2 ^ n := by exact_mod_cast hmag
  have hlow : -2 ^ 31 ≤ (m q.1).toInt / 2 ^ n := by
    rw [Int.le_ediv_iff_mul_le hpos, neg_mul]
    omega
  have hhigh : (m q.1).toInt / 2 ^ n < 2 ^ 31 := by
    rw [Int.ediv_lt_iff_lt_mul hpos]
    omega
  rw [hscaled, hvalue, ← hfloor]
  rw [← hfloor] at hlow hhigh
  exact toInt_word hlow hhigh

end Hcrtos.Native.Calibration
