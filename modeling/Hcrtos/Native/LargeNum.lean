import Mathlib.Algebra.Ring.Nat
import Mathlib.Data.Int.Basic
import Mathlib.Logic.Function.Basic

/-!
# Large numbers of the touch calibration

`largenum_ts.c`: numbers of three words with a separate sign. The functions take pointers, and a
result may be one of the operands, so they are functions of the memory that the pointers refer to.
-/

namespace Hcrtos.Native.LargeNum

-- for the numbers of the words and of their halves
scoped instance neZero_words : NeZero 3 := ⟨by decide⟩
scoped instance neZero_halves : NeZero 6 := ⟨by decide⟩

/-- `LARGENUM`: the sign and the words, the lowest one first. -/
structure LARGENUM where
  fNegative : Bool
  u : Fin 3 → BitVec 32

/-- The numbers that pointers refer to. -/
abbrev Mem (Ptr : Type) := Ptr → LARGENUM

section Memory

variable {Ptr : Type} [DecidableEq Ptr]

/-- `p->u.s32.u[i] = x`. -/
def setWord (m : Mem Ptr) (p : Ptr) (i : Fin 3) (x : BitVec 32) : Mem Ptr :=
  Function.update m p { m p with u := Function.update (m p).u i x }

/-- `p->fNegative = b`. -/
def setNegative (m : Mem Ptr) (p : Ptr) (b : Bool) : Mem Ptr :=
  Function.update m p { m p with fNegative := b }

end Memory

/-- `LargeNumSet`. -/
def LargeNumSet (n : Int) : LARGENUM where
  fNegative := decide (n < 0)
  u := fun i => if i = 0 then (if n < 0 then .ofInt 32 (-n) else .ofInt 32 n) else 0

def IsLargeNumNotZero (pNum : LARGENUM) : Bool := [0, 1, 2].any fun i => pNum.u i ≠ 0

def IsLargeNumNegative (pNum : LARGENUM) : Bool := pNum.fNegative

/-- The loop of `IsLargeNumMagGreaterThan`, from the highest word on. -/
def magGreaterThan (pNum1 pNum2 : LARGENUM) : List (Fin 3) → Bool
  | [] => false
  | i :: is =>
    if pNum1.u i > pNum2.u i then true
    else if pNum1.u i < pNum2.u i then false
    else magGreaterThan pNum1 pNum2 is

def IsLargeNumMagGreaterThan (pNum1 pNum2 : LARGENUM) : Bool :=
  magGreaterThan pNum1 pNum2 [2, 1, 0]

section Arithmetic

variable {Ptr : Type} [DecidableEq Ptr]

/-- A round of the loops of `LargeNumMagAdd` and `LargeNumMagSub`, which takes the complement `f` of
    the second operand: the memory and the carry. -/
def addWord (f : BitVec 32 → BitVec 32) (pNum1 pNum2 pResult : Ptr) (s : Mem Ptr × Bool)
    (i : Fin 3) : Mem Ptr × Bool :=
  let (m, c) := s
  let a := (m pNum1).u i
  let b := f ((m pNum2).u i)
  let r := a + b + (if c then 1 else 0)
  (setWord m pResult i r, if c then r ≤ a else r < a)

def LargeNumMagAdd (m : Mem Ptr) (pNum1 pNum2 pResult : Ptr) : Mem Ptr :=
  ([0, 1, 2].foldl (addWord id pNum1 pNum2 pResult) (m, false)).1

def LargeNumMagSub (m : Mem Ptr) (pNum1 pNum2 pResult : Ptr) : Mem Ptr :=
  ([0, 1, 2].foldl (addWord (~~~·) pNum1 pNum2 pResult) (m, true)).1

/-- `LargeNumAdd`, and with `flip` the function `LargeNumSub`, which compares the signs the other
    way around. -/
def addSigned (flip : Bool) (m : Mem Ptr) (pNum1 pNum2 pResult : Ptr) : Mem Ptr :=
  let fNegative1 := IsLargeNumNegative (m pNum1)
  let fNegative2 := IsLargeNumNegative (m pNum2)
  let (m, fNegative1) :=
    if (fNegative1 != fNegative2) != flip then
      if IsLargeNumMagGreaterThan (m pNum1) (m pNum2) then
        (LargeNumMagSub m pNum1 pNum2 pResult, fNegative1)
      else (LargeNumMagSub m pNum2 pNum1 pResult, !fNegative1)
    else (LargeNumMagAdd m pNum1 pNum2 pResult, fNegative1)
  if ¬ IsLargeNumNotZero (m pResult) then setNegative m pResult false
  else setNegative m pResult fNegative1

def LargeNumAdd (m : Mem Ptr) (pNum1 pNum2 pResult : Ptr) : Mem Ptr :=
  addSigned false m pNum1 pNum2 pResult

def LargeNumSub (m : Mem Ptr) (pNum1 pNum2 pResult : Ptr) : Mem Ptr :=
  addSigned true m pNum1 pNum2 pResult

/-- `LargeNumMulUint32`: the product of the halves of two words. -/
def LargeNumMulUint32 (a b : BitVec 32) : LARGENUM :=
  let a1 := a >>> 16
  let a0 := a &&& 0xffff
  let b1 := b >>> 16
  let b0 := b &&& 0xffff
  let r0 := a0 * b0
  let r1 := a1 * b0 + a0 * b1
  let r2 := a1 * b1
  let u0 := (r1 <<< 16) + r0
  let c : BitVec 32 := if u0 < r0 then 1 else 0
  { fNegative := false
    u := fun i => if i = 0 then u0 else if i = 1 then r2 + (r1 >>> 16) + c else 0 }

/-- The local variables of `LargeNumMult`. -/
inductive Local where
  | lNumTemp
  | lNumSum
  | lNumCarry
  deriving DecidableEq

/-- The inner loop of `LargeNumMult`: the products of the words whose indices add up to `i`. -/
def addProducts (pNum1 pNum2 : LARGENUM) (i : Fin 3) (locals : Mem Local) : Mem Local :=
  ([0, 1, 2].filter fun j : Fin 3 => j ≤ i).foldl
    (fun l j =>
      let l := Function.update l .lNumTemp (LargeNumMulUint32 (pNum1.u j) (pNum2.u (i - j)))
      LargeNumMagAdd l .lNumTemp .lNumSum .lNumSum)
    (Function.update locals .lNumSum (LargeNumSet 0))

/-- A round of the outer loop of `LargeNumMult`. -/
def mulWord (pNum1 pNum2 pResult : Ptr) (s : Mem Ptr × Mem Local) (i : Fin 3) :
    Mem Ptr × Mem Local :=
  let (m, locals) := s
  let locals := addProducts (m pNum1) (m pNum2) i locals
  let locals := LargeNumMagAdd locals .lNumCarry .lNumSum .lNumSum
  let locals := setWord locals .lNumCarry 0 ((locals .lNumSum).u 1)
  let locals := setWord locals .lNumCarry 1 ((locals .lNumSum).u 2)
  (setWord m pResult i ((locals .lNumSum).u 0), locals)

def LargeNumMult (m : Mem Ptr) (pNum1 pNum2 pResult : Ptr) : Mem Ptr :=
  let m := ([0, 1, 2].foldl (mulWord pNum1 pNum2 pResult) (m, fun _ => LargeNumSet 0)).1
  if ¬ IsLargeNumNotZero (m pResult) then setNegative m pResult false
  else setNegative m pResult ((m pNum1).fNegative != (m pNum2).fNegative)

end Arithmetic

/-! ### Shifts and divisions -/

section Division

variable {Ptr : Type} [DecidableEq Ptr]

/-- A round of the loops of `LargeNumMagInc` and `LargeNumSignedFormat`, which takes the complement
    `f` of the word: the memory and the carry. -/
def incWord (f : BitVec 32 → BitVec 32) (pNum : Ptr) (s : Mem Ptr × BitVec 32) (i : Fin 3) :
    Mem Ptr × BitVec 32 :=
  let (m, c) := s
  let m := setWord m pNum i (f ((m pNum).u i) + c)
  (m, if (m pNum).u i ≠ 0 then 0 else c)

def LargeNumMagInc (m : Mem Ptr) (pNum : Ptr) : Mem Ptr :=
  ([0, 1, 2].foldl (incWord id pNum) (m, 1)).1

/-- `LargeNumSignedFormat`: the word that goes on behind the number, and the memory. -/
def LargeNumSignedFormat (m : Mem Ptr) (pNum : Ptr) : BitVec 32 × Mem Ptr :=
  if IsLargeNumNegative (m pNum) then
    (0xffffffff, ([0, 1, 2].foldl (incWord (~~~·) pNum) (m, 1)).1)
  else (0, m)

/-- A round of the two loops of `LargeNumRAShift`: the first one writes the words for which there is
    a word `shift32` further up, the second one the others. -/
def shiftWord (pNum : Ptr) (shift32 count : Nat) (filler : BitVec 32) (m : Mem Ptr) (i : Fin 3) :
    Mem Ptr :=
  if h : i + shift32 < 3 then
    let j : Fin 3 := ⟨i + shift32, h⟩
    let countLeft := 32 - count
    let m := setWord m pNum i ((m pNum).u j >>> count)
    if countLeft < 32 then
      let next := if hj : j.val + 1 < 3 then (m pNum).u ⟨j + 1, hj⟩ else filler
      setWord m pNum i ((m pNum).u i ||| next <<< countLeft)
    else m
  else setWord m pNum i filler

/-- `LargeNumRAShift`. A negative `count` is not defined in C. -/
def LargeNumRAShift (m : Mem Ptr) (pNum : Ptr) (count : Nat) : Mem Ptr :=
  let (filler, m) := LargeNumSignedFormat m pNum
  let shift32 := count / 32
  if shift32 > 2 then [0, 1, 2].foldl (fun m i => setWord m pNum i filler) m
  else [0, 1, 2].foldl (shiftWord pNum shift32 (count % 32) filler) m

/-- The inner loop of `LargeNumBits`: the highest bit of a word. -/
def highestBit (u : BitVec 32) : Option Nat :=
  (List.range 32).reverse.find? fun j => u &&& BitVec.twoPow 32 j ≠ 0

/-- `LargeNumBits`. -/
def LargeNumBits (pNum : LARGENUM) : Nat :=
  (([2, 1, 0] : List (Fin 3)).findSome? fun i =>
    if pNum.u i ≠ 0 then (highestBit (pNum.u i)).map fun j => i.val * 32 + j + 1 else none).getD 0

/-- `u.s16.s[i]` of a little-endian machine: the halves of the words, the lower one first. -/
def LARGENUM.s (x : LARGENUM) (i : Fin 6) : BitVec 16 :=
  let word := x.u ⟨i / 2, by omega⟩
  if i.val % 2 = 0 then word.setWidth 16 else (word >>> 16).setWidth 16

/-- All of `u.s16.s`. -/
def setHalves (m : Mem Ptr) (p : Ptr) (s : Fin 6 → BitVec 16) : Mem Ptr :=
  Function.update m p
    { m p with u := fun i => s ⟨2 * i + 1, by omega⟩ ++ s ⟨2 * i, by omega⟩ }

/-- A round of the loop of `LargeNumDivInt32`: the halves, which the quotient replaces, and the
    remainder. -/
def divHalf (divisor : BitVec 32) (st : (Fin 6 → BitVec 32) × BitVec 32) (i : Fin 6) :
    (Fin 6 → BitVec 32) × BitVec 32 :=
  let (s, r) := st
  let d := (r <<< 16) + s i
  let q := d / divisor
  (Function.update s i q, d - q * divisor)

/-- `LargeNumDivInt32`: the remainder and the memory. -/
def LargeNumDivInt32 (m : Mem Ptr) (pNum : Ptr) (divisor : Int) (pResult : Ptr) :
    BitVec 32 × Mem Ptr :=
  if divisor = 0 then
    (0xffffffff, [0, 1, 2].foldl (fun m i => setWord m pResult i 0xffffffff) m)
  else
    let sd := decide (divisor < 0)
    let divisor : BitVec 32 := .ofInt 32 (if divisor < 0 then -divisor else divisor)
    let s : Fin 6 → BitVec 32 := fun i => ((m pNum).s i).setWidth 32
    let (s, r) := [5, 4, 3, 2, 1, 0].foldl (divHalf divisor) (s, 0)
    let m := setHalves m pResult fun i => (s i).setWidth 16
    if (m pNum).fNegative then
      let m := LargeNumMagInc m pResult
      let r := divisor - r
      (r, setNegative m pResult (!sd && IsLargeNumNotZero (m pResult)))
    else (r, setNegative m pResult (sd && IsLargeNumNotZero (m pResult)))

end Division

end Hcrtos.Native.LargeNum
