import Hcrtos.Native.Calibration
import Hcrtos.Spec.LargeNumValue
import Mathlib.Algebra.BigOperators.Group.Finset.Basic
import Mathlib.Algebra.Order.BigOperators.Group.Finset

/-!
# The sums of the calibration

Products of a number of 32 bits with one of 62 bits, and the sums of products over the points, which
are exact for points of 12 bits.

## Key results

- `toInt_mult_eq`: a product with a number of 32 bits, up to the carry that it loses
- `sums_spec`: the sums over the points
-/

namespace Hcrtos.Native.Calibration

open LargeNum

/-- A number of 32 bits with its sign. -/
def Fits (x : LARGENUM) : Prop := x.mag ≤ 2 ^ 31

theorem natAbs_toInt (x : LARGENUM) : x.toInt.natAbs = x.mag := by
  unfold LARGENUM.toInt
  split <;> simp

theorem Fits.short {x : LARGENUM} (h : Fits x) : x.Short := by
  obtain ⟨-, h1, h2⟩ := word_eq x
  unfold Fits at h
  intro i hi
  apply BitVec.eq_of_toNat_eq
  match i with
  | 0 => exact absurd rfl hi
  | 1 => rw [h1]; simp; omega
  | 2 => rw [h2]; simp; omega

theorem word_zero (x : LARGENUM) : x.u 0 = .ofNat 32 x.mag := by
  apply BitVec.eq_of_toNat_eq
  rw [(word_eq x).1, BitVec.toNat_ofNat]

/-! ### Products -/

theorem lost_of_le {a b : BitVec 32} (ha : a.toNat ≤ 2 ^ 31) (hb : b.toNat ≤ 2 ^ 31) :
    lost a b = 0 := by
  have hhl : a.toNat / 2 ^ 16 * (b.toNat % 2 ^ 16) ≤ 2 ^ 15 * (2 ^ 16 - 1) :=
    Nat.mul_le_mul (by omega) (by omega)
  have hlh : a.toNat % 2 ^ 16 * (b.toNat / 2 ^ 16) ≤ (2 ^ 16 - 1) * 2 ^ 15 :=
    Nat.mul_le_mul (by omega) (by omega)
  unfold lost
  rw [if_neg]
  omega

/-- The carry that the product of a number of 32 bits with another one loses, with the sign of the
    product. -/
def lostIn (e t : Int) : Int := (e * t).sign * lost (.ofNat 32 e.natAbs) (.ofNat 32 t.natAbs)

theorem lostIn_of_le {e t : Int} (he : e.natAbs ≤ 2 ^ 31) (ht : t.natAbs ≤ 2 ^ 31) :
    lostIn e t = 0 := by
  unfold lostIn
  rw [lost_of_le, Nat.cast_zero, mul_zero]
  · rw [BitVec.toNat_ofNat, Nat.mod_eq_of_lt (by omega)]
    exact he
  · rw [BitVec.toNat_ofNat, Nat.mod_eq_of_lt (by omega)]
    exact ht

theorem lost_eq_zero_of_mul {a b : BitVec 32} (h : a.toNat * b.toNat = 0) : lost a b = 0 := by
  have hmag := (mag_mulUint32 a b).1
  rw [h] at hmag
  omega

section Products

variable {Ptr : Type} [DecidableEq Ptr]

/-- Only the product of the low words can lose a carry. -/
theorem mag_products {x y : LARGENUM} (hx : Fits x) (hy : y.mag ≤ 2 ^ 62) :
    (LargeNumMulUint32 (x.u 0) (y.u 0)).mag + 2 ^ 32 * (LargeNumMulUint32 (x.u 0) (y.u 1)).mag +
        2 ^ 64 * (LargeNumMulUint32 (x.u 0) (y.u 2)).mag + 2 ^ 48 * lost (x.u 0) (y.u 0) =
      x.mag * y.mag := by
  obtain ⟨-, hy1, hy2⟩ := word_eq y
  have hx0 : (x.u 0).toNat ≤ 2 ^ 31 := hx.short.mag_eq ▸ hx
  have h0 := (mag_mulUint32 (x.u 0) (y.u 0)).1
  have h1 := (mag_mulUint32 (x.u 0) (y.u 1)).1
  have h2 := (mag_mulUint32 (x.u 0) (y.u 2)).1
  have hy2' : (y.u 2).toNat = 0 := by rw [hy2]; omega
  rw [lost_of_le hx0 (by omega)] at h1
  rw [hy2', Nat.mul_zero] at h2
  have hy : y.mag = (y.u 0).toNat + 2 ^ 32 * (y.u 1).toNat := by
    unfold LARGENUM.mag
    omega
  rw [hx.short.mag_eq, hy, Nat.mul_add, Nat.mul_left_comm]
  omega

theorem sign_toInt {x : LARGENUM} (h : x.mag ≠ 0) :
    x.toInt.sign = if x.fNegative then -1 else 1 := by
  have hpos : (0 : Int) < x.mag := by omega
  unfold LARGENUM.toInt
  split
  · rw [Int.sign_neg, Int.sign_eq_one_of_pos hpos]
  · exact Int.sign_eq_one_of_pos hpos

/-- The lost carry of a product has the sign of the product. -/
theorem lostIn_toInt (x y : LARGENUM) :
    lostIn x.toInt y.toInt =
      (if x.fNegative != y.fNegative then -1 else 1) * lost (x.u 0) (y.u 0) := by
  unfold lostIn
  rw [natAbs_toInt, natAbs_toInt, ← word_zero, ← word_zero]
  by_cases hlost : lost (x.u 0) (y.u 0) = 0
  · rw [hlost]
    simp
  · -- a carry is lost from words that are not zero
    have hmul : (x.u 0).toNat * (y.u 0).toNat ≠ 0 := fun h => hlost (lost_eq_zero_of_mul h)
    have hx : x.mag ≠ 0 := by
      intro h
      rw [(word_eq x).1, h] at hmul
      simp at hmul
    have hy : y.mag ≠ 0 := by
      intro h
      rw [(word_eq y).1, h] at hmul
      simp at hmul
    rw [Int.sign_mul, sign_toInt hx, sign_toInt hy]
    cases x.fNegative <;> cases y.fNegative <;> rfl

theorem toInt_mul_toInt (x y : LARGENUM) :
    x.toInt * y.toInt = (if x.fNegative != y.fNegative then -1 else 1) * (x.mag * y.mag : Nat) := by
  unfold LARGENUM.toInt
  cases x.fNegative <;> cases y.fNegative <;> simp

theorem toInt_mult_eq {m : Mem Ptr} {p q r : Ptr} (hp : Fits (m p)) (hq : (m q).mag ≤ 2 ^ 62)
    (hpr : p ≠ r) :
    (LargeNumMult m p q r r).toInt =
        (m p).toInt * (m q).toInt - 2 ^ 48 * lostIn (m p).toInt (m q).toInt ∧
      (LargeNumMult m p q r r).mag ≤ (m p).mag * (m q).mag := by
  have hproducts := mag_products hp hq
  have hbound : (m p).mag * (m q).mag ≤ 2 ^ 31 * 2 ^ 62 := Nat.mul_le_mul hp hq
  obtain ⟨hmul, -⟩ := toInt_mult (q := q) hp.short hpr
  rw [Nat.mod_eq_of_lt (by omega)] at hmul
  generalize hv : (LargeNumMulUint32 ((m p).u 0) ((m q).u 0)).mag +
    2 ^ 32 * (LargeNumMulUint32 ((m p).u 0) ((m q).u 1)).mag +
    2 ^ 64 * (LargeNumMulUint32 ((m p).u 0) ((m q).u 2)).mag = v at hmul hproducts
  have hvalue : (LargeNumMult m p q r r).toInt =
      (m p).toInt * (m q).toInt - 2 ^ 48 * lostIn (m p).toInt (m q).toInt := by
    rw [hmul, lostIn_toInt, toInt_mul_toInt, ← hproducts]
    push_cast
    ring
  have hmag : (LargeNumMult m p q r r).mag = v := by
    rw [← natAbs_toInt, hmul]
    split <;> simp
  exact ⟨hvalue, by omega⟩

end Products

/-! ### Sums -/

theorem toInt_largeNumSet {n : Int} (h : n.natAbs < 2 ^ 32) : (LargeNumSet n).toInt = n := by
  have h10 : (1 : Fin 3) ≠ 0 := by decide
  have h20 : (2 : Fin 3) ≠ 0 := by decide
  have hzero : (0 : BitVec 32).toNat = 0 := by decide
  have hmag : (LargeNumSet n).mag = n.natAbs := by
    unfold LARGENUM.mag LargeNumSet
    simp only [if_true, h10, h20, if_false, hzero]
    split <;> simp only [BitVec.toNat_ofInt] <;> omega
  unfold LARGENUM.toInt
  rw [hmag]
  simp only [LargeNumSet, decide_eq_true_eq]
  split <;> omega

/-- A number is added to a sum, with the local variable as scratch space. -/
structure Adds (m m' : Mem Number) (s : Number) (v : Int) : Prop where
  value : (m' s).toInt = (m s).toInt + v
  kept : ∀ o, o ≠ .lnTemp → o ≠ s → m' o = m o

theorem adds_largeNumAdd {m : Mem Number} {q s : Number} (hq : (m q).mag < 2 ^ 12)
    (hs : (m s).mag < 2 ^ 64) : Adds m (LargeNumAdd m s q s) s (m q).toInt := by
  have hsum : (m s).mag + (m q).mag < 2 ^ 96 := by omega
  obtain ⟨hadd, hkeep⟩ := toInt_addSigned (r := s) false hsum
  exact { value := hadd, kept := fun o _ hos => hkeep o hos }

theorem adds_addProduct {m : Mem Number} {p q s : Number} (hp : (m p).mag < 2 ^ 12)
    (hq : (m q).mag < 2 ^ 12) (hs : (m s).mag < 2 ^ 64) (hpt : p ≠ .lnTemp) (hst : s ≠ .lnTemp) :
    Adds m (addProduct m p q s) s ((m p).toInt * (m q).toInt) := by
  have hfits : Fits (m p) := le_trans hp.le (by decide)
  have hle : (m p).mag * (m q).mag ≤ 2 ^ 12 * 2 ^ 12 := Nat.mul_le_mul hp.le hq.le
  obtain ⟨hvalue, hmag⟩ := toInt_mult_eq hfits (le_trans hq.le (by decide)) hpt
  have hother := (toInt_mult (q := q) hfits.short hpt).2
  rw [lostIn_of_le (by rw [natAbs_toInt]; omega) (by rw [natAbs_toInt]; omega), mul_zero,
    sub_zero] at hvalue
  unfold addProduct LargeNumAdd
  generalize LargeNumMult m p q .lnTemp = m' at *
  have hsum : (m' s).mag + (m' .lnTemp).mag < 2 ^ 96 := by
    rw [hother s hst]
    omega
  obtain ⟨hadd, hkeep⟩ := toInt_addSigned (r := s) false hsum
  rw [hother s hst, hvalue] at hadd
  exact { value := hadd, kept := fun o ho hos => (hkeep o hos).trans (hother o ho) }

/-- The numbers of a point. -/
def coordinates : List Number := [.lnTouchX, .lnTouchY, .lnScreenX, .lnScreenY]

/-- An addition of the loop: the sum, and the number or the two factors that are added to it. -/
structure Addition where
  sum : Number
  factor : Number
  other : Option Number

/-- The code of an addition. -/
def Addition.run (m : Mem Number) (a : Addition) : Mem Number :=
  match a.other with
  | some q => addProduct m a.factor q a.sum
  | none => LargeNumAdd m a.sum a.factor a.sum

def Addition.value (m : Mem Number) (a : Addition) : Int :=
  match a.other with
  | some q => (m a.factor).toInt * (m q).toInt
  | none => (m a.factor).toInt

def Addition.Ok (a : Addition) : Prop :=
  a.sum ∉ coordinates ∧ a.sum ≠ .lnTemp ∧ a.factor ∈ coordinates ∧ ∀ q ∈ a.other, q ∈ coordinates

instance (a : Addition) : Decidable a.Ok := by
  unfold Addition.Ok
  infer_instance

theorem ne_lnTemp_of_mem {p : Number} (h : p ∈ coordinates) : p ≠ .lnTemp := by
  rintro rfl
  exact absurd h (by decide)

theorem Addition.Ok.adds {a : Addition} (h : a.Ok) {m : Mem Number}
    (hm : ∀ p ∈ coordinates, (m p).mag < 2 ^ 12) (hs : (m a.sum).mag < 2 ^ 64) :
    Adds m (a.run m) a.sum (a.value m) := by
  obtain ⟨-, hsum, hfactor, hother⟩ := h
  unfold Addition.run Addition.value
  cases hq : a.other with
  | none => exact adds_largeNumAdd (hm _ hfactor) hs
  | some q =>
    exact adds_addProduct (hm _ hfactor) (hm q (hother q hq)) hs (ne_lnTemp_of_mem hfactor) hsum

/-- Additions to different sums do not disturb each other. -/
theorem foldl_run {as : List Addition} (hok : ∀ a ∈ as, a.Ok)
    (hnodup : (as.map Addition.sum).Nodup) {m : Mem Number}
    (hm : ∀ p ∈ coordinates, (m p).mag < 2 ^ 12) (hs : ∀ a ∈ as, (m a.sum).mag < 2 ^ 64) :
    (∀ a ∈ as, (as.foldl Addition.run m a.sum).toInt = (m a.sum).toInt + a.value m) ∧
      ∀ o, o ≠ .lnTemp → o ∉ as.map Addition.sum → as.foldl Addition.run m o = m o := by
  induction as generalizing m with
  | nil => simp
  | cons a as ih =>
    have ha := hok a List.mem_cons_self
    have hadds := ha.adds hm (hs a List.mem_cons_self)
    rw [List.map_cons, List.nodup_cons] at hnodup
    -- the point is still there for the other additions
    have hkeep : ∀ p ∈ coordinates, a.run m p = m p := fun p hp =>
      hadds.kept p (ne_lnTemp_of_mem hp) (fun h => ha.1 (h ▸ hp))
    have hsum : ∀ b ∈ as, a.run m b.sum = m b.sum := fun b hb =>
      hadds.kept b.sum (hok b (List.mem_cons_of_mem a hb)).2.1
        (fun h => hnodup.1 (h ▸ List.mem_map_of_mem hb))
    obtain ⟨ihsum, ihkeep⟩ := ih (fun b hb => hok b (List.mem_cons_of_mem a hb)) hnodup.2
      (m := a.run m) (fun p hp => by rw [hkeep p hp]; exact hm p hp)
      (fun b hb => by rw [hsum b hb]; exact hs b (List.mem_cons_of_mem a hb))
    have hhead : (as.foldl Addition.run (a.run m) a.sum).toInt = (m a.sum).toInt + a.value m := by
      rw [ihkeep a.sum ha.2.1 hnodup.1, hadds.value]
    have htail : ∀ b ∈ as, (as.foldl Addition.run (a.run m) b.sum).toInt =
        (m b.sum).toInt + b.value m := by
      intro b hb
      obtain ⟨-, -, hfactor, hother⟩ := hok b (List.mem_cons_of_mem a hb)
      have hvalue : b.value (a.run m) = b.value m := by
        unfold Addition.value
        rw [hkeep _ hfactor]
        cases hq : b.other with
        | none => rfl
        | some q => simp only [hkeep q (hother q hq)]
      rw [ihsum b hb, hsum b hb, hvalue]
    simp only [List.foldl_cons, List.map_cons, List.mem_cons, not_or]
    exact ⟨fun b hb => hb.elim (fun h => h ▸ hhead) (htail b), fun o ho hos =>
      (ihkeep o ho hos.2).trans (hadds.kept o ho hos.1)⟩

/-- The additions of a round of the loop. -/
def additions : List Addition :=
  [⟨.a11, .lnTouchX, some .lnTouchX⟩, ⟨.a21, .lnTouchX, some .lnTouchY⟩, ⟨.a31, .lnTouchX, none⟩,
    ⟨.a22, .lnTouchY, some .lnTouchY⟩, ⟨.a32, .lnTouchY, none⟩, ⟨.b11, .lnTouchX, some .lnScreenX⟩,
    ⟨.b12, .lnTouchY, some .lnScreenX⟩, ⟨.b13, .lnScreenX, none⟩,
    ⟨.b21, .lnTouchX, some .lnScreenY⟩, ⟨.b22, .lnTouchY, some .lnScreenY⟩,
    ⟨.b23, .lnScreenY, none⟩]

/-- The point at the start of a round. -/
def setPoint (pts : Points) (m : Mem Number) (i : Nat) : Mem Number :=
  set (set (set (set m .lnTouchX (pts.pUncalXBuffer i)) .lnTouchY (pts.pUncalYBuffer i)) .lnScreenX
    (pts.pScreenXBuffer i)) .lnScreenY (pts.pScreenYBuffer i)

theorem addPoint_eq (pts : Points) (m : Mem Number) (i : Nat) :
    addPoint pts m i = additions.foldl Addition.run (setPoint pts m i) := by
  simp only [additions, List.foldl_cons, List.foldl_nil, Addition.run, setPoint, addPoint]

/-- Points of 12 bits. -/
structure Points.Twelve (pts : Points) : Prop where
  screenX : ∀ i, 0 ≤ pts.pScreenXBuffer i ∧ pts.pScreenXBuffer i < 4096
  screenY : ∀ i, 0 ≤ pts.pScreenYBuffer i ∧ pts.pScreenYBuffer i < 4096
  uncalX : ∀ i, 0 ≤ pts.pUncalXBuffer i ∧ pts.pUncalXBuffer i < 4096
  uncalY : ∀ i, 0 ≤ pts.pUncalYBuffer i ∧ pts.pUncalYBuffer i < 4096

/-- What an addition adds for a point. -/
def Addition.summand (pts : Points) (i : Nat) (a : Addition) : Int :=
  let coordinate : Number → Int
    | .lnTouchX => pts.pUncalXBuffer i
    | .lnTouchY => pts.pUncalYBuffer i
    | .lnScreenX => pts.pScreenXBuffer i
    | .lnScreenY => pts.pScreenYBuffer i
    | _ => 0
  match a.other with
  | some q => coordinate a.factor * coordinate q
  | none => coordinate a.factor

/-- A round of the loop adds the point to every sum. -/
theorem addPoint_spec {pts : Points} (h : pts.Twelve) {m : Mem Number} (i : Nat)
    (hm : ∀ a ∈ additions, (m a.sum).mag < 2 ^ 64) :
    (∀ a ∈ additions, (addPoint pts m i a.sum).toInt = (m a.sum).toInt + a.summand pts i) ∧
      addPoint pts m i .a33 = m .a33 := by
  have hset : ∀ {n : Int}, 0 ≤ n ∧ n < 4096 →
      (LargeNumSet n).toInt = n ∧ (LargeNumSet n).mag < 2 ^ 12 := by
    intro n hn
    have hvalue := toInt_largeNumSet (n := n) (by omega)
    exact ⟨hvalue, by rw [← natAbs_toInt, hvalue]; omega⟩
  obtain ⟨hx, hx'⟩ := hset (h.uncalX i)
  obtain ⟨hy, hy'⟩ := hset (h.uncalY i)
  obtain ⟨hsx, hsx'⟩ := hset (h.screenX i)
  obtain ⟨hsy, hsy'⟩ := hset (h.screenY i)
  have hpoint : ∀ p ∈ coordinates, (setPoint pts m i p).mag < 2 ^ 12 := by
    simp only [coordinates, List.forall_mem_cons, setPoint, set]
    simp only [Function.update_apply, reduceCtorEq, if_false, if_true]
    exact ⟨hx', hy', hsx', hsy', by simp⟩
  have hkeep : ∀ o, o ∉ coordinates → setPoint pts m i o = m o := by
    intro o ho
    simp only [coordinates, List.mem_cons, List.not_mem_nil, or_false, not_or] at ho
    simp [setPoint, set, ho]
  have hok : ∀ a ∈ additions, a.Ok := by decide
  obtain ⟨hsum, hother⟩ := foldl_run hok (by decide) hpoint
    (fun a ha => by rw [hkeep a.sum (hok a ha).1]; exact hm a ha)
  rw [addPoint_eq]
  have hvalue : ∀ a ∈ additions, a.value (setPoint pts m i) = a.summand pts i := by
    simp [additions, Addition.value, Addition.summand, setPoint, set, hx, hy, hsx, hsy]
  exact ⟨fun a ha => by rw [hsum a ha, hkeep a.sum (hok a ha).1, hvalue a ha],
    (hother .a33 (by decide) (by decide)).trans (hkeep .a33 (by decide))⟩

theorem summand_le {pts : Points} (h : pts.Twelve) (i : Nat) :
    ∀ a ∈ additions, 0 ≤ a.summand pts i ∧ a.summand pts i ≤ 2 ^ 24 := by
  have hmul : ∀ x y : Int, 0 ≤ x ∧ x < 4096 → 0 ≤ y ∧ y < 4096 → 0 ≤ x * y ∧ x * y ≤ 2 ^ 24 :=
    fun x y hx hy => ⟨Int.mul_nonneg hx.1 hy.1,
      calc x * y ≤ 4096 * 4096 := Int.mul_le_mul hx.2.le hy.2.le hy.1 (by decide)
        _ = 2 ^ 24 := by decide⟩
  have hle : ∀ x : Int, 0 ≤ x ∧ x < 4096 → 0 ≤ x ∧ x ≤ 2 ^ 24 := fun x hx => by omega
  have hx := h.uncalX i
  have hy := h.uncalY i
  have hsx := h.screenX i
  have hsy := h.screenY i
  simp only [additions, List.forall_mem_cons, Addition.summand]
  exact ⟨hmul _ _ hx hx, hmul _ _ hx hy, hle _ hx, hmul _ _ hy hy, hle _ hy, hmul _ _ hx hsx,
    hmul _ _ hy hsx, hle _ hsx, hmul _ _ hx hsy, hmul _ _ hy hsy, hle _ hsy, by simp⟩

/-- The loop computes the sums. -/
theorem sums_spec {pts : Points} (h : pts.Twelve) {n : Nat} (hn : n < 2 ^ 32) :
    (∀ a ∈ additions, (sums pts n a.sum).toInt = ∑ i ∈ Finset.range n, a.summand pts i) ∧
      sums pts n .a33 = LargeNumSet pts.cCalibrationPoints := by
  induction n with
  | zero =>
    have hzero : (LargeNumSet 0).toInt = 0 := by decide
    have hset : ∀ a ∈ additions, a.sum ≠ .a33 := by decide
    exact ⟨fun a ha => by simp [sums, set, hset a ha, hzero], by simp [sums, set]⟩
  | succ n ih =>
    obtain ⟨ihsum, ihcount⟩ := ih (by omega)
    have hsucc : sums pts (n + 1) = addPoint pts (sums pts n) n := by
      simp [sums, List.range_succ]
    -- the sums so far stay far below the size of a number
    have hsmall : ∀ a ∈ additions, (sums pts n a.sum).mag < 2 ^ 64 := by
      intro a ha
      have hnonneg := Finset.sum_nonneg (s := Finset.range n)
        fun i _ => (summand_le h i a ha).1
      have hle := Finset.sum_le_card_nsmul (Finset.range n) _ _
        fun i _ => (summand_le h i a ha).2
      rw [Finset.card_range, nsmul_eq_mul, ← ihsum a ha] at hle
      rw [← ihsum a ha] at hnonneg
      rw [← natAbs_toInt]
      omega
    obtain ⟨hsum, hcount⟩ := addPoint_spec h n hsmall
    rw [hsucc]
    exact ⟨fun a ha => by rw [hsum a ha, ihsum a ha, Finset.sum_range_succ], hcount.trans ihcount⟩

end Hcrtos.Native.Calibration
