import Hcrtos.Native.LargeNum

/-!
# Touch calibration

`calibration_ts.c`: the sums over the calibration points, the determinants that
`TouchPanelSetCalibration` computes from them, the shift to 32 bits, and the analysis of the errors.
-/

namespace Hcrtos.Native.Calibration

open LargeNum

/-- `MATRIX33`: pointers to the entries. -/
structure MATRIX33 (Ptr : Type) where
  pa11 : Ptr
  pa12 : Ptr
  pa13 : Ptr
  pa21 : Ptr
  pa22 : Ptr
  pa23 : Ptr
  pa31 : Ptr
  pa32 : Ptr
  pa33 : Ptr

/-- The numbers in reach of `ComputeMatrix33`: those of its caller and a local variable. -/
inductive Var (Ptr : Type) where
  | caller (p : Ptr)
  | lnTemp
  deriving DecidableEq

/-- The numbers at the start of `ComputeMatrix33`. The local variable is written before it is
    read. -/
def enter {Ptr : Type} (m : Mem Ptr) : Mem (Var Ptr)
  | .caller p => m p
  | .lnTemp => LargeNumSet 0

/-- `ComputeMatrix33`. -/
def ComputeMatrix33 {Ptr : Type} [DecidableEq Ptr] (m : Mem Ptr) (pResult : Ptr)
    (pMatrix : MATRIX33 Ptr) : Mem Ptr :=
  let m := enter m
  let m := LargeNumMult m (.caller pMatrix.pa11) (.caller pMatrix.pa22) .lnTemp
  let m := LargeNumMult m (.caller pMatrix.pa33) .lnTemp (.caller pResult)
  let m := LargeNumMult m (.caller pMatrix.pa21) (.caller pMatrix.pa32) .lnTemp
  let m := LargeNumMult m (.caller pMatrix.pa13) .lnTemp .lnTemp
  let m := LargeNumAdd m (.caller pResult) .lnTemp (.caller pResult)
  let m := LargeNumMult m (.caller pMatrix.pa12) (.caller pMatrix.pa23) .lnTemp
  let m := LargeNumMult m (.caller pMatrix.pa31) .lnTemp .lnTemp
  let m := LargeNumAdd m (.caller pResult) .lnTemp (.caller pResult)
  let m := LargeNumMult m (.caller pMatrix.pa13) (.caller pMatrix.pa22) .lnTemp
  let m := LargeNumMult m (.caller pMatrix.pa31) .lnTemp .lnTemp
  let m := LargeNumSub m (.caller pResult) .lnTemp (.caller pResult)
  let m := LargeNumMult m (.caller pMatrix.pa12) (.caller pMatrix.pa21) .lnTemp
  let m := LargeNumMult m (.caller pMatrix.pa33) .lnTemp .lnTemp
  let m := LargeNumSub m (.caller pResult) .lnTemp (.caller pResult)
  let m := LargeNumMult m (.caller pMatrix.pa23) (.caller pMatrix.pa32) .lnTemp
  let m := LargeNumMult m (.caller pMatrix.pa11) .lnTemp .lnTemp
  let m := LargeNumSub m (.caller pResult) .lnTemp (.caller pResult)
  fun p => m (.caller p)

/-- The arguments of `TouchPanelSetCalibration`. -/
structure Points where
  cCalibrationPoints : Int
  pScreenXBuffer : Nat → Int
  pScreenYBuffer : Nat → Int
  pUncalXBuffer : Nat → Int
  pUncalYBuffer : Nat → Int

/-- The numbers of `TouchPanelSetCalibration`: sums, a point, determinants. -/
inductive Number where
  | a11
  | a21
  | a22
  | a31
  | a32
  | a33
  | b11
  | b12
  | b13
  | b21
  | b22
  | b23
  | lnScreenX
  | lnScreenY
  | lnTouchX
  | lnTouchY
  | lnTemp
  | delta
  | a1
  | b1
  | c1
  | a2
  | b2
  | c2
  deriving DecidableEq

def set (m : Mem Number) (p : Number) (n : Int) : Mem Number := Function.update m p (LargeNumSet n)

/-- A product that is added to a sum. -/
def addProduct (m : Mem Number) (p q sum : Number) : Mem Number :=
  let m := LargeNumMult m p q .lnTemp
  LargeNumAdd m sum .lnTemp sum

/-- A round of the loop of `TouchPanelSetCalibration`. -/
def addPoint (pts : Points) (m : Mem Number) (i : Nat) : Mem Number :=
  let m := set m .lnTouchX (pts.pUncalXBuffer i)
  let m := set m .lnTouchY (pts.pUncalYBuffer i)
  let m := set m .lnScreenX (pts.pScreenXBuffer i)
  let m := set m .lnScreenY (pts.pScreenYBuffer i)
  let m := addProduct m .lnTouchX .lnTouchX .a11
  let m := addProduct m .lnTouchX .lnTouchY .a21
  let m := LargeNumAdd m .a31 .lnTouchX .a31
  let m := addProduct m .lnTouchY .lnTouchY .a22
  let m := LargeNumAdd m .a32 .lnTouchY .a32
  let m := addProduct m .lnTouchX .lnScreenX .b11
  let m := addProduct m .lnTouchY .lnScreenX .b12
  let m := LargeNumAdd m .b13 .lnScreenX .b13
  let m := addProduct m .lnTouchX .lnScreenY .b21
  let m := addProduct m .lnTouchY .lnScreenY .b22
  LargeNumAdd m .b23 .lnScreenY .b23

/-- The sums over the first points. The numbers that are not sums are written before they are
    read. -/
def sums (pts : Points) (n : Nat) : Mem Number :=
  (List.range n).foldl (addPoint pts)
    (set (fun _ => LargeNumSet 0) .a33 pts.cCalibrationPoints)

/-- The matrix of the first determinant, the one of the normal equations. -/
def normalMatrix : MATRIX33 Number where
  pa11 := .a11
  pa12 := .a21
  pa13 := .a31
  pa21 := .a21
  pa22 := .a22
  pa23 := .a32
  pa31 := .a31
  pa32 := .a32
  pa33 := .a33

/-! ### Coefficients -/

/-- The determinants in the order in which they are computed, each with its matrix, where the
    vectors of the screen coordinates take the place of one column after the other. -/
def matrices : List (Number × MATRIX33 Number) :=
  [(.delta, normalMatrix),
    (.a1, { normalMatrix with pa11 := .b11, pa21 := .b12, pa31 := .b13 }),
    (.b1, { normalMatrix with pa12 := .b11, pa22 := .b12, pa32 := .b13 }),
    (.c1, { normalMatrix with pa13 := .b11, pa23 := .b12, pa33 := .b13 }),
    (.a2, { normalMatrix with pa11 := .b21, pa21 := .b22, pa31 := .b23 }),
    (.b2, { normalMatrix with pa12 := .b21, pa22 := .b22, pa32 := .b23 }),
    (.c2, { normalMatrix with pa13 := .b21, pa23 := .b22, pa33 := .b23 })]

/-- The calls of `ComputeMatrix33`. -/
def determinants (m : Mem Number) : Mem Number :=
  matrices.foldl (fun m q => ComputeMatrix33 m q.1 q.2) m

/-- The numbers in reach of the block that takes care of truncation: those of the function and a
    local variable. -/
inductive Rounding where
  | outer (p : Number)
  | halfDelta
  deriving DecidableEq

/-- The numbers at the start of the block. The local variable is written before it is read. -/
def enterBlock (m : Mem Number) : Mem Rounding
  | .outer p => m p
  | .halfDelta => LargeNumSet 0

/-- The block, which adds half of `delta` to the terms. -/
def addHalfDelta (m : Mem Number) : Mem Number :=
  let m := enterBlock m
  let m :=
    if IsLargeNumNegative (m (.outer .delta)) then
      (LargeNumDivInt32 m (.outer .delta) (-2) .halfDelta).2
    else (LargeNumDivInt32 m (.outer .delta) 2 .halfDelta).2
  let m := LargeNumAdd m (.outer .c1) .halfDelta (.outer .c1)
  let m := LargeNumAdd m (.outer .c2) .halfDelta (.outer .c2)
  fun p => m (.outer p)

/-- The numbers before they are scaled. -/
def numbers (pts : Points) : Mem Number :=
  addHalfDelta (determinants (sums pts pts.cCalibrationPoints.toNat))

def MAX_TERM_PRECISION : Int := 27
def MAX_COEFF_PRECISION : Int := 15

/-- The bits that are left for the numbers, in the order in which the shift is determined. -/
def precisions : List (Number × Int) :=
  [(.a1, MAX_COEFF_PRECISION), (.b1, MAX_COEFF_PRECISION), (.a2, MAX_COEFF_PRECISION),
    (.b2, MAX_COEFF_PRECISION), (.c1, MAX_TERM_PRECISION), (.c2, MAX_TERM_PRECISION), (.delta, 31)]

/-- `minShift`. -/
def minShift (m : Mem Number) : Int :=
  precisions.foldl (fun minShift q =>
    let cShift : Int := LargeNumBits (m q.1) - q.2
    if cShift > minShift then cShift else minShift) 0

/-- The numbers after the shifts. -/
def scaled (m : Mem Number) : Mem Number :=
  if minShift m ≠ 0 then
    [.a1, .a2, .b1, .b2, .c1, .c2, .delta].foldl
      (fun m' p => LargeNumRAShift m' p (minShift m).toNat) m
  else m

structure CALIBRATION_PARAMETER where
  a1 : BitVec 32
  b1 : BitVec 32
  c1 : BitVec 32
  a2 : BitVec 32
  b2 : BitVec 32
  c2 : BitVec 32
  delta : BitVec 32
  deriving DecidableEq

def v_CalcParam_bak : CALIBRATION_PARAMETER :=
  ⟨-102, 17230, -1970907, -13547, 226, 52204164, 65536⟩

/-- The lowest words. -/
def parameter (m : Mem Number) : CALIBRATION_PARAMETER where
  a1 := (m .a1).u 0
  b1 := (m .b1).u 0
  c1 := (m .c1).u 0
  a2 := (m .a2).u 0
  b2 := (m .b2).u 0
  c2 := (m .c2).u 0
  delta := (m .delta).u 0

/-- The static variables. -/
structure State where
  v_Calibrated : Bool
  v_CalcParam : CALIBRATION_PARAMETER
  deriving DecidableEq

/-- The coordinates that parameters map a point to. A signed overflow wraps around. -/
def CALIBRATION_PARAMETER.map (v : CALIBRATION_PARAMETER) (UncalX UncalY : BitVec 32) :
    BitVec 32 × BitVec 32 :=
  let x := ((v.a1 * UncalX + v.b1 * UncalY + v.c1) * 4).sdiv v.delta
  let y := ((v.a2 * UncalX + v.b2 * UncalY + v.c2) * 4).sdiv v.delta
  (if x.toInt < 0 then 0 else x, if y.toInt < 0 then 0 else y)

def TouchPanelCalibrateAPoint (s : State) (UncalX UncalY : BitVec 32) : BitVec 32 × BitVec 32 :=
  if s.v_Calibrated then s.v_CalcParam.map UncalX UncalY else v_CalcParam_bak.map UncalX UncalY

def MAX_POINT_ERROR : BitVec 32 := 6

/-- `err` of a point. -/
def err (pts : Points) (s : State) (i : Nat) : BitVec 32 :=
  let cal := TouchPanelCalibrateAPoint s (.ofInt 32 (pts.pUncalXBuffer i))
    (.ofInt 32 (pts.pUncalYBuffer i))
  let x := cal.1.sdiv 4
  let y := cal.2.sdiv 4
  let dx := x - .ofInt 32 (pts.pScreenXBuffer i)
  let dy := y - .ofInt 32 (pts.pScreenYBuffer i)
  dx * dx + dy * dy

def maxErr (pts : Points) (s : State) : BitVec 32 :=
  (List.range pts.cCalibrationPoints.toNat).foldl (fun maxErr i =>
    if err pts s i > maxErr then err pts s i else maxErr) 0

def ErrorAnalysis (pts : Points) (s : State) : Bool × State :=
  if maxErr pts s < MAX_POINT_ERROR * MAX_POINT_ERROR then (true, s)
  else (false, ⟨false, v_CalcParam_bak⟩)

def TouchPanelSetCalibration (pts : Points) (s : State) : Bool × State :=
  if pts.cCalibrationPoints = 0 then (true, { s with v_Calibrated := false })
  else
    let v := parameter (scaled (numbers pts))
    -- no division by zero later
    if v.delta = 0 then ErrorAnalysis pts ⟨false, { v with delta := 1 }⟩
    else ErrorAnalysis pts ⟨true, v⟩

end Hcrtos.Native.Calibration
