import Hcrtos.Spec.CalibrationSums
import Mathlib.LinearAlgebra.Matrix.Determinant.Basic

/-!
# The determinants of the calibration

`ComputeMatrix33` computes the determinant up to the carries that its products lose. With entries of
32 bits the inner products lose none, and an outer product loses one at most.

## Key results

- `toInt_computeMatrix33`: the result of `ComputeMatrix33`
- `determinant_iff`: it is the determinant iff the lost carries cancel
-/

namespace Hcrtos.Native.Calibration

open LargeNum

section Determinants

variable {Ptr : Type} [DecidableEq Ptr]

/-- The entries of the matrix. -/
def MATRIX33.entries (pMatrix : MATRIX33 Ptr) : List Ptr :=
  [pMatrix.pa11, pMatrix.pa12, pMatrix.pa13, pMatrix.pa21, pMatrix.pa22, pMatrix.pa23, pMatrix.pa31,
    pMatrix.pa32, pMatrix.pa33]

/-- The matrix of the values. -/
def MATRIX33.values (pMatrix : MATRIX33 Ptr) (m : Mem Ptr) : Matrix (Fin 3) (Fin 3) Int :=
  !![(m pMatrix.pa11).toInt, (m pMatrix.pa12).toInt, (m pMatrix.pa13).toInt;
    (m pMatrix.pa21).toInt, (m pMatrix.pa22).toInt, (m pMatrix.pa23).toInt;
    (m pMatrix.pa31).toInt, (m pMatrix.pa32).toInt, (m pMatrix.pa33).toInt]

/-- The lost carries of the six products, signed as in the determinant. -/
def lostSum (a : Matrix (Fin 3) (Fin 3) Int) : Int :=
  lostIn (a 2 2) (a 0 0 * a 1 1) + lostIn (a 0 2) (a 1 0 * a 2 1) +
    lostIn (a 2 0) (a 0 1 * a 1 2) - lostIn (a 2 0) (a 0 2 * a 1 1) -
    lostIn (a 2 2) (a 0 1 * a 1 0) - lostIn (a 0 0) (a 1 2 * a 2 1)

/-- A product of three entries. -/
theorem toInt_triple {m : Mem (Var Ptr)} {x y z : Ptr} {r : Var Ptr} (hx : Fits (m (.caller x)))
    (hy : Fits (m (.caller y))) (hz : Fits (m (.caller z))) (hr : .caller z ≠ r) :
    (LargeNumMult (LargeNumMult m (.caller x) (.caller y) .lnTemp) (.caller z) .lnTemp r r).toInt =
        (m (.caller z)).toInt * ((m (.caller x)).toInt * (m (.caller y)).toInt) -
          2 ^ 48 * lostIn (m (.caller z)).toInt
            ((m (.caller x)).toInt * (m (.caller y)).toInt) ∧
      (LargeNumMult (LargeNumMult m (.caller x) (.caller y) .lnTemp) (.caller z) .lnTemp r r).mag ≤
        2 ^ 93 ∧
      ∀ o, o ≠ .lnTemp → o ≠ r →
        LargeNumMult (LargeNumMult m (.caller x) (.caller y) .lnTemp) (.caller z) .lnTemp r o =
          m o := by
  have hxt : Var.caller x ≠ .lnTemp := by simp
  have hzt : Var.caller z ≠ .lnTemp := by simp
  have hinner : (m (.caller x)).mag * (m (.caller y)).mag ≤ 2 ^ 31 * 2 ^ 31 := Nat.mul_le_mul hx hy
  obtain ⟨hvalue, hmag⟩ := toInt_mult_eq hx (le_trans hy (by decide)) hxt
  have hother := (toInt_mult (q := .caller y) hx.short hxt).2
  -- the inner product is exact
  rw [lostIn_of_le (by rw [natAbs_toInt]; exact hx) (by rw [natAbs_toInt]; exact hy), mul_zero,
    sub_zero] at hvalue
  generalize LargeNumMult m (.caller x) (.caller y) .lnTemp = m' at *
  have hz' : Fits (m' (.caller z)) := by rw [hother _ hzt]; exact hz
  have hle : (m' .lnTemp).mag ≤ 2 ^ 62 := le_trans hmag (by omega)
  obtain ⟨hvalue', hmag'⟩ := toInt_mult_eq hz' hle hr
  have hother' := (toInt_mult (q := .lnTemp) hz'.short hr).2
  have houter : (m' (.caller z)).mag * (m' .lnTemp).mag ≤ 2 ^ 31 * 2 ^ 62 := Nat.mul_le_mul hz' hle
  rw [hother _ hzt, hvalue] at hvalue'
  exact ⟨hvalue', by omega, fun o ht ho => (hother' o ho).trans (hother o ht)⟩

/-- What the product of three entries leaves. -/
def triple (m : Mem Ptr) (x y z : Ptr) : Int :=
  (m z).toInt * ((m x).toInt * (m y).toInt) -
    2 ^ 48 * lostIn (m z).toInt ((m x).toInt * (m y).toInt)

/-- The result after some of the products, each of 2^93 at most. -/
structure Partial (m₀ : Mem Ptr) (pResult : Ptr) (n : Nat) (v : Int) (m : Mem (Var Ptr)) :
    Prop where
  kept : ∀ p, p ≠ pResult → m (.caller p) = m₀ p
  value : (m (.caller pResult)).toInt = v
  mag_le : (m (.caller pResult)).mag ≤ n * 2 ^ 93

variable {m₀ : Mem Ptr} {pResult x y z : Ptr}

/-- The first product is written to the result itself. -/
theorem partial_first (hx : Fits (m₀ x)) (hy : Fits (m₀ y)) (hz : Fits (m₀ z))
    (hne : z ≠ pResult) :
    Partial m₀ pResult 1 (triple m₀ x y z)
      (LargeNumMult (LargeNumMult (enter m₀) (.caller x) (.caller y) .lnTemp) (.caller z) .lnTemp
        (.caller pResult)) := by
  have hr : Var.caller z ≠ .caller pResult := by simpa using hne
  obtain ⟨hvalue, hmag, hother⟩ := toInt_triple (m := enter m₀) (r := .caller pResult) hx hy hz hr
  exact
    { kept := fun p hp => hother (.caller p) (by simp) (by simpa using hp)
      value := hvalue
      mag_le := by omega }

/-- A further product goes to the local variable and is added to the result. -/
theorem Partial.add {n : Nat} {v : Int} {m : Mem (Var Ptr)} (h : Partial m₀ pResult n v m)
    (flip : Bool) (hn : n ≤ 6) (hx : Fits (m₀ x)) (hy : Fits (m₀ y)) (hz : Fits (m₀ z))
    (hxr : x ≠ pResult) (hyr : y ≠ pResult) (hzr : z ≠ pResult) :
    Partial m₀ pResult (n + 1) (if flip then v - triple m₀ x y z else v + triple m₀ x y z)
      (addSigned flip
        (LargeNumMult (LargeNumMult m (.caller x) (.caller y) .lnTemp) (.caller z) .lnTemp .lnTemp)
        (.caller pResult) .lnTemp (.caller pResult)) := by
  have hr : Var.caller z ≠ .lnTemp := by simp
  have hrt : Var.caller pResult ≠ .lnTemp := by simp
  rw [← h.kept x hxr] at hx
  rw [← h.kept y hyr] at hy
  rw [← h.kept z hzr] at hz
  obtain ⟨hvalue, hmag, hother⟩ := toInt_triple hx hy hz hr
  rw [h.kept x hxr, h.kept y hyr, h.kept z hzr] at hvalue
  change _ = triple m₀ x y z at hvalue
  generalize LargeNumMult (LargeNumMult m (.caller x) (.caller y) .lnTemp) (.caller z) .lnTemp
    .lnTemp = m' at *
  have hresult : m' (.caller pResult) = m (.caller pResult) := hother _ hrt hrt
  have hle := h.mag_le
  have hsum : (m' (.caller pResult)).mag + (m' .lnTemp).mag ≤ (n + 1) * 2 ^ 93 := by
    rw [hresult]
    omega
  have hlt : (m' (.caller pResult)).mag + (m' .lnTemp).mag < 2 ^ 96 := by omega
  obtain ⟨hadd, hkeep⟩ := toInt_addSigned (r := Var.caller pResult) flip hlt
  rw [hresult, h.value, hvalue] at hadd
  have hbound : (addSigned flip m' (.caller pResult) .lnTemp (.caller pResult)
      (.caller pResult)).mag ≤ (n + 1) * 2 ^ 93 := by
    have hv : v.natAbs = (m (.caller pResult)).mag := by rw [← h.value, natAbs_toInt]
    have ht : (triple m₀ x y z).natAbs = (m' .lnTemp).mag := by rw [← hvalue, natAbs_toInt]
    rw [hresult] at hsum
    rw [← natAbs_toInt, hadd]
    split <;> omega
  exact
    { kept := fun p hp =>
        (hkeep (.caller p) (by simpa using hp)).trans
          ((hother (.caller p) (by simp) (by simp)).trans (h.kept p hp))
      value := hadd
      mag_le := hbound }

variable {pMatrix : MATRIX33 Ptr}

/-- The result is the determinant up to the lost carries. -/
theorem toInt_computeMatrix33 (hfits : ∀ p ∈ pMatrix.entries, Fits (m₀ p))
    (hresult : pResult ∉ pMatrix.entries) :
    (ComputeMatrix33 m₀ pResult pMatrix pResult).toInt =
        (pMatrix.values m₀).det - 2 ^ 48 * lostSum (pMatrix.values m₀) ∧
      ∀ p, p ≠ pResult → ComputeMatrix33 m₀ pResult pMatrix p = m₀ p := by
  simp only [MATRIX33.entries, List.mem_cons, List.not_mem_nil, or_false, not_or,
    forall_eq_or_imp, forall_eq] at hfits hresult
  obtain ⟨f11, f12, f13, f21, f22, f23, f31, f32, f33⟩ := hfits
  obtain ⟨n11, n12, n13, n21, n22, n23, n31, n32, n33⟩ := hresult
  have h1 := partial_first f11 f22 f33 (Ne.symm n33)
  have h2 := h1.add false (by omega) f21 f32 f13 (Ne.symm n21) (Ne.symm n32) (Ne.symm n13)
  have h3 := h2.add false (by omega) f12 f23 f31 (Ne.symm n12) (Ne.symm n23) (Ne.symm n31)
  have h4 := h3.add true (by omega) f13 f22 f31 (Ne.symm n13) (Ne.symm n22) (Ne.symm n31)
  have h5 := h4.add true (by omega) f12 f21 f33 (Ne.symm n12) (Ne.symm n21) (Ne.symm n33)
  have h6 := h5.add true (by omega) f23 f32 f11 (Ne.symm n23) (Ne.symm n32) (Ne.symm n11)
  have hvalue : (ComputeMatrix33 m₀ pResult pMatrix pResult).toInt = _ := h6.value
  refine ⟨?_, fun p hp => h6.kept p hp⟩
  rw [hvalue, Matrix.det_fin_three]
  simp [MATRIX33.values, lostSum, triple]
  ring

/-- `ComputeMatrix33` leaves the determinant iff the carries that its products lose cancel. -/
theorem determinant_iff (m : Mem Ptr) (pResult : Ptr) (pMatrix : MATRIX33 Ptr)
    (hfits : ∀ p ∈ pMatrix.entries, Fits (m p)) (hresult : pResult ∉ pMatrix.entries) :
    (ComputeMatrix33 m pResult pMatrix pResult).toInt = (pMatrix.values m).det ↔
      lostSum (pMatrix.values m) = 0 := by
  have h := (toInt_computeMatrix33 hfits hresult).1
  rw [h]
  omega

end Determinants

/-- Twenty points, most of them in one corner. -/
def cornerPoints : Points where
  cCalibrationPoints := 20
  pScreenXBuffer := fun _ => 0
  pScreenYBuffer := fun _ => 0
  pUncalXBuffer := fun i => if i < 18 then 4023 else if i = 18 then 456 else 413
  pUncalYBuffer := fun i => if i < 18 then 3543 else if i = 18 then 935 else 206

theorem twelve_cornerPoints : cornerPoints.Twelve where
  screenX := fun i => by simp [cornerPoints]
  screenY := fun i => by simp [cornerPoints]
  uncalX := fun i => by simp only [cornerPoints]; split <;> [simp; (split <;> simp)]
  uncalY := fun i => by simp only [cornerPoints]; split <;> [simp; (split <;> simp)]

/-- The normal equations of the points. -/
theorem values_cornerPoints :
    (∀ p ∈ normalMatrix.entries, (sums cornerPoints 20 p).toInt.natAbs ≤ 2 ^ 31) ∧
      normalMatrix.values (sums cornerPoints 20) =
        !![291700027, 257074240, 73283; 257074240, 226867943, 64915; 73283, 64915, 20] := by
  obtain ⟨hsum, hcount⟩ := sums_spec twelve_cornerPoints (n := 20) (by decide)
  simp only [additions, List.forall_mem_cons] at hsum
  obtain ⟨h11, h21, h31, h22, h32, -⟩ := hsum
  have e11 : (sums cornerPoints 20 .a11).toInt = 291700027 := h11.trans (by decide)
  have e21 : (sums cornerPoints 20 .a21).toInt = 257074240 := h21.trans (by decide)
  have e31 : (sums cornerPoints 20 .a31).toInt = 73283 := h31.trans (by decide)
  have e22 : (sums cornerPoints 20 .a22).toInt = 226867943 := h22.trans (by decide)
  have e32 : (sums cornerPoints 20 .a32).toInt = 64915 := h32.trans (by decide)
  have e33 : (sums cornerPoints 20 .a33).toInt = 20 := by rw [hcount]; decide
  simp only [MATRIX33.entries, MATRIX33.values, normalMatrix, List.forall_mem_cons, e11, e21, e31,
    e22, e32, e33]
  decide

/-- The carries that are lost for these points do not cancel. -/
theorem lostSum_cornerPoints : lostSum (normalMatrix.values (sums cornerPoints 20)) = -1 := by
  rw [values_cornerPoints.2]
  decide

theorem fits_cornerPoints : ∀ p ∈ normalMatrix.entries, Fits (sums cornerPoints 20 p) := by
  intro p hp
  unfold Fits
  rw [← natAbs_toInt]
  exact values_cornerPoints.1 p hp

theorem determinant_cornerPoints :
    (ComputeMatrix33 (sums cornerPoints 20) .delta normalMatrix .delta).toInt =
        (normalMatrix.values (sums cornerPoints 20)).det ↔
      lostSum (normalMatrix.values (sums cornerPoints 20)) = 0 :=
  determinant_iff _ _ _ fits_cornerPoints (by decide)

/-- Points of 12 bits for which the first determinant of the calibration is wrong. -/
theorem determinant_fails :
    ¬ ∀ pts : Points, pts.Twelve → 0 ≤ pts.cCalibrationPoints →
      (∀ p ∈ normalMatrix.entries, Fits (sums pts pts.cCalibrationPoints.toNat p)) →
      (ComputeMatrix33 (sums pts pts.cCalibrationPoints.toNat) .delta normalMatrix .delta).toInt =
        (normalMatrix.values (sums pts pts.cCalibrationPoints.toNat)).det := by
  intro h
  have hwrong := h cornerPoints twelve_cornerPoints (by decide) fits_cornerPoints
  have hresult : Number.delta ∉ normalMatrix.entries := by decide
  have hvalue := (toInt_computeMatrix33 fits_cornerPoints hresult).1
  have hlost := lostSum_cornerPoints
  have hcount : cornerPoints.cCalibrationPoints.toNat = 20 := rfl
  rw [hcount] at hwrong
  omega

end Hcrtos.Native.Calibration
