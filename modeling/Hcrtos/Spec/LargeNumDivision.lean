import Hcrtos.Spec.LargeNumValue
import Hcrtos.ForStd.Bits
import Hcrtos.ForStd.LongDivision

/-!
# Division of large numbers

`LargeNumDivInt32` divides the magnitude and then rounds the quotient of a negative number down: it
takes one step further and counts the remainder from there. The step is also taken when the division
leaves no remainder. The quotient is then too far down by one, and the remainder is the divisor.

## Key results

- `foldl_incWord`: the carry of an increment runs through the words
- `divHalves_spec`: the loop is a long division of the halves of the words
- `div_spec`: quotient and remainder, for every sign
- `div_floor_iff`: the numbers for which the remainder is one
-/

namespace Hcrtos.Native.LargeNum

open LongDivision

/-! ### Increments -/

/-- A word that becomes zero passes the carry on. -/
theorem incCarry_spec (x c : BitVec 32) (hc : c = 0 ∨ c = 1) :
    (x + c).toNat + 2 ^ 32 * (if x + c ≠ 0 then (0 : BitVec 32) else c).toNat =
        x.toNat + c.toNat ∧
      ((if x + c ≠ 0 then (0 : BitVec 32) else c) = 0 ∨
        (if x + c ≠ 0 then (0 : BitVec 32) else c) = 1) := by
  have hx := x.isLt
  have hzero : x + c = 0 ↔ (x.toNat + c.toNat) % 2 ^ 32 = 0 := by
    rw [BitVec.toNat_eq, BitVec.toNat_add]
    rfl
  have hnat : c.toNat = 0 ∨ c.toNat = 1 := by
    rcases hc with rfl | rfl
    · exact .inl rfl
    · exact .inr rfl
  by_cases h : x + c = 0
  · have hmod := hzero.mp h
    rw [if_neg (not_not.mpr h), h]
    refine ⟨?_, hc⟩
    change 0 + _ = _
    omega
  · have hmod : ¬ (x.toNat + c.toNat) % 2 ^ 32 = 0 := fun h' => h (hzero.mpr h')
    rw [if_pos h, BitVec.toNat_add]
    refine ⟨?_, .inl rfl⟩
    change _ + 2 ^ 32 * 0 = _
    omega

section Memory

variable {Ptr : Type} [DecidableEq Ptr] (m : Mem Ptr) (p : Ptr)

theorem foldl_incWord (f : BitVec 32 → BitVec 32) :
    (([0, 1, 2].foldl (incWord f p) (m, 1)).1 p).mag =
        ((f ((m p).u 0)).toNat + 2 ^ 32 * (f ((m p).u 1)).toNat +
          2 ^ 64 * (f ((m p).u 2)).toNat + 1) % 2 ^ 96 ∧
      (∀ o, (([0, 1, 2].foldl (incWord f p) (m, 1)).1 o).fNegative = (m o).fNegative) ∧
      ∀ o, o ≠ p → ([0, 1, 2].foldl (incWord f p) (m, 1)).1 o = m o := by
  have h01 : (0 : Fin 3) ≠ 1 := by decide
  have h02 : (0 : Fin 3) ≠ 2 := by decide
  have h12 : (1 : Fin 3) ≠ 2 := by decide
  simp only [List.foldl_cons, List.foldl_nil, incWord, u_setWord, h01.symm, h02.symm, h12.symm,
    and_false, and_self, if_false, if_true]
  -- the words and carries of the three rounds
  obtain ⟨s0, b1⟩ := incCarry_spec (f ((m p).u 0)) 1 (.inr rfl)
  generalize (if f ((m p).u 0) + 1 ≠ 0 then (0 : BitVec 32) else 1) = c1 at s0 b1 ⊢
  generalize f ((m p).u 0) + 1 = r0 at s0 ⊢
  obtain ⟨s1, b2⟩ := incCarry_spec (f ((m p).u 1)) c1 b1
  generalize (if f ((m p).u 1) + c1 ≠ 0 then (0 : BitVec 32) else c1) = c2 at s1 b2 ⊢
  generalize f ((m p).u 1) + c1 = r1 at s1 ⊢
  obtain ⟨s2, -⟩ := incCarry_spec (f ((m p).u 2)) c2 b2
  generalize (if f ((m p).u 2) + c2 ≠ 0 then (0 : BitVec 32) else c2) = c3 at s2 ⊢
  generalize f ((m p).u 2) + c2 = r2 at s2 ⊢
  refine ⟨?_, fun o => by simp, fun o ho => ?_⟩
  · have hr0 := r0.isLt
    have hr1 := r1.isLt
    have hr2 := r2.isLt
    have hone : (1 : BitVec 32).toNat = 1 := by decide
    rw [hone] at s0
    unfold LARGENUM.mag
    simp only [u_setWord, h01, h02, h12, and_false, if_false, and_self, if_true]
    omega
  · rw [setWord_of_ne _ _ ho, setWord_of_ne _ _ ho, setWord_of_ne _ _ ho]

theorem magInc_spec :
    (LargeNumMagInc m p p).mag = ((m p).mag + 1) % 2 ^ 96 ∧
      (∀ o, (LargeNumMagInc m p o).fNegative = (m o).fNegative) ∧
      ∀ o, o ≠ p → LargeNumMagInc m p o = m o :=
  foldl_incWord m p id

end Memory

/-! ### The loop -/

/-- A round divides the remainder and the next half. -/
theorem divHalf_spec {n r x : BitVec 32} (hn : n.toNat ≤ 2 ^ 16) (hr : r.toNat < n.toNat)
    (hx : x.toNat < 2 ^ 16) :
    (((r <<< 16) + x) / n).toNat = (r.toNat * 2 ^ 16 + x.toNat) / n.toNat ∧
      ((r <<< 16) + x - ((r <<< 16) + x) / n * n).toNat =
        (r.toNat * 2 ^ 16 + x.toNat) % n.toNat := by
  have hd : ((r <<< 16) + x).toNat = r.toNat * 2 ^ 16 + x.toNat := by
    rw [BitVec.toNat_add, BitVec.toNat_shiftLeft, Nat.shiftLeft_eq]
    omega
  have hq : (((r <<< 16) + x) / n).toNat = (r.toNat * 2 ^ 16 + x.toNat) / n.toNat := by
    rw [BitVec.toNat_udiv, hd]
  refine ⟨hq, ?_⟩
  have hsplit := Nat.div_add_mod' (r.toNat * 2 ^ 16 + x.toNat) n.toNat
  have hmul : (((r <<< 16) + x) / n * n).toNat =
      (r.toNat * 2 ^ 16 + x.toNat) / n.toNat * n.toNat := by
    rw [BitVec.toNat_mul, hq]
    exact Nat.mod_eq_of_lt (by omega)
  rw [BitVec.toNat_sub_of_le (by rw [BitVec.le_def, hmul, hd]; omega), hmul, hd]
  omega

/-- The loop is a long division of the halves that it goes through. -/
theorem divHalves_spec {n : BitVec 32} (hn : n.toNat ≤ 2 ^ 16) {is : List (Fin 6)}
    (hnodup : is.Nodup) {s : Fin 6 → BitVec 32} (hs : ∀ i, (s i).toNat < 2 ^ 16) {r : BitVec 32}
    (hr : r.toNat < n.toNat) :
    (is.map fun i => ((is.foldl (divHalf n) (s, r)).1 i).toNat) =
        (divide (2 ^ 16) n.toNat r.toNat (is.map fun i => (s i).toNat)).1 ∧
      (is.foldl (divHalf n) (s, r)).2.toNat =
        (divide (2 ^ 16) n.toNat r.toNat (is.map fun i => (s i).toNat)).2 ∧
      ∀ i, i ∉ is → (is.foldl (divHalf n) (s, r)).1 i = s i := by
  induction is generalizing s r with
  | nil => exact ⟨rfl, rfl, fun _ _ => rfl⟩
  | cons i is ih =>
    obtain ⟨hi, hnodup⟩ := List.nodup_cons.mp hnodup
    obtain ⟨hq, hrem⟩ := divHalf_spec hn hr (hs i)
    -- the halves after this round
    have hs' : ∀ j, (Function.update s i (((r <<< 16) + s i) / n) j).toNat < 2 ^ 16 := by
      intro j
      rw [Function.update_apply]
      split
      · rw [hq]
        exact digit_lt hr (hs i)
      · exact hs j
    have hr' : ((r <<< 16) + s i - ((r <<< 16) + s i) / n * n).toNat < n.toNat := by
      rw [hrem]
      exact Nat.mod_lt _ (Nat.zero_lt_of_lt hr)
    obtain ⟨ihq, ihr, ihs⟩ := ih hnodup hs' hr'
    have hrest : (is.map fun j => (Function.update s i (((r <<< 16) + s i) / n) j).toNat) =
        is.map fun j => (s j).toNat := by
      apply List.map_congr_left
      intro j hj
      rw [Function.update_of_ne (by rintro rfl; exact hi hj)]
    rw [hrest, hrem] at ihq ihr
    simp only [List.foldl_cons, List.map_cons, divide, divHalf]
    refine ⟨?_, ihr, ?_⟩
    · rw [ihq, ihs i hi, Function.update_self, hq]
    · intro j hj
      obtain ⟨hne, hj⟩ := not_or.mp (mt List.mem_cons.mpr hj)
      rw [ihs j hj, Function.update_of_ne hne]

/-! ### Halves of words -/

theorem toNat_s (x : LARGENUM) :
    (x.s 0).toNat = x.mag % 2 ^ 16 ∧ (x.s 1).toNat = x.mag / 2 ^ 16 % 2 ^ 16 ∧
      (x.s 2).toNat = x.mag / 2 ^ 32 % 2 ^ 16 ∧ (x.s 3).toNat = x.mag / 2 ^ 48 % 2 ^ 16 ∧
      (x.s 4).toNat = x.mag / 2 ^ 64 % 2 ^ 16 ∧ (x.s 5).toNat = x.mag / 2 ^ 80 := by
  have hlow : ∀ w : BitVec 32, (w.setWidth 16).toNat = w.toNat % 2 ^ 16 :=
    fun w => BitVec.toNat_setWidth ..
  have hhigh : ∀ w : BitVec 32, ((w >>> 16).setWidth 16).toNat = w.toNat / 2 ^ 16 := by
    intro w
    rw [BitVec.toNat_setWidth, toNat_high]
    exact Nat.mod_eq_of_lt (by omega)
  obtain ⟨h0, h1, h2⟩ := word_eq x
  have hmag := mag_lt x
  refine ⟨?_, ?_, ?_, ?_, ?_, ?_⟩
  · refine (hlow (x.u 0)).trans ?_
    omega
  · refine (hhigh (x.u 0)).trans ?_
    omega
  · refine (hlow (x.u 1)).trans ?_
    omega
  · refine (hhigh (x.u 1)).trans ?_
    omega
  · refine (hlow (x.u 2)).trans ?_
    omega
  · refine (hhigh (x.u 2)).trans ?_
    omega

/-- The halves are the digits of the magnitude in base `2 ^ 16`. -/
theorem value_s (x : LARGENUM) :
    value (2 ^ 16) 0 ([5, 4, 3, 2, 1, 0].map fun i => (x.s i).toNat) = x.mag := by
  obtain ⟨h0, h1, h2, h3, h4, h5⟩ := toNat_s x
  simp only [List.map_cons, List.map_nil, value, h0, h1, h2, h3, h4, h5]
  omega

section Halves

variable {Ptr : Type} [DecidableEq Ptr] (m : Mem Ptr) (p : Ptr) (s : Fin 6 → BitVec 16)

theorem mag_setHalves :
    (setHalves m p s p).mag = value (2 ^ 16) 0 ([5, 4, 3, 2, 1, 0].map fun i => (s i).toNat) := by
  have hword : ∀ i : Fin 3, ((setHalves m p s p).u i).toNat =
      (s ⟨2 * i + 1, by omega⟩).toNat * 2 ^ 16 + (s ⟨2 * i, by omega⟩).toNat := by
    intro i
    rw [setHalves, Function.update_self]
    exact Bits.toNat_append_eq ..
  unfold LARGENUM.mag
  simp only [hword, List.map_cons, List.map_nil, value]
  change ((s 1).toNat * 2 ^ 16 + (s 0).toNat) + 2 ^ 32 * ((s 3).toNat * 2 ^ 16 + (s 2).toNat) +
    2 ^ 64 * ((s 5).toNat * 2 ^ 16 + (s 4).toNat) = _
  omega

@[simp] theorem fNegative_setHalves (q : Ptr) :
    (setHalves m p s q).fNegative = (m q).fNegative := by
  unfold setHalves
  rw [Function.update_apply]
  split
  · next h => rw [h]
  · rfl

end Halves

/-! ### Quotient and remainder -/

section Division

variable {Ptr : Type} [DecidableEq Ptr]

/-- The divisor as the loop uses it. -/
theorem toNat_divisor {d : Int} (hle : |d| ≤ 65536) :
    (BitVec.ofInt 32 (if d < 0 then -d else d)).toNat = d.natAbs := by
  have hcase : (if d < 0 then -d else d) = (d.natAbs : Int) := by
    split <;> omega
  have hlt : d.natAbs < 2 ^ 32 := by
    rw [Int.abs_eq_natAbs] at hle
    omega
  rw [hcase, BitVec.ofInt_natCast, BitVec.toNat_ofNat, Nat.mod_eq_of_lt hlt]

/-- The memory and the remainder before the signs are looked at. -/
theorem divMag_spec (m : Mem Ptr) (p r : Ptr) {n : BitVec 32} (hpos : 0 < n.toNat)
    (hn : n.toNat ≤ 2 ^ 16) :
    let st := [5, 4, 3, 2, 1, 0].foldl (divHalf n) (fun i => ((m p).s i).setWidth 32, 0)
    (setHalves m r (fun i => (st.1 i).setWidth 16) r).mag = (m p).mag / n.toNat ∧
      st.2.toNat = (m p).mag % n.toNat := by
  intro st
  have hsmall : ∀ i, (((m p).s i).setWidth 32).toNat = ((m p).s i).toNat := by
    intro i
    have h := ((m p).s i).isLt
    rw [BitVec.toNat_setWidth]
    exact Nat.mod_eq_of_lt (by omega)
  have hzero : (0 : BitVec 32).toNat < n.toNat := hpos
  have hnodup : ([5, 4, 3, 2, 1, 0] : List (Fin 6)).Nodup := by decide
  obtain ⟨hq, hrem, -⟩ := divHalves_spec hn hnodup
    (s := fun i => ((m p).s i).setWidth 32)
    (fun i => by rw [hsmall]; exact ((m p).s i).isLt) hzero
  simp only [hsmall] at hq hrem
  have hds : ∀ d ∈ [5, 4, 3, 2, 1, 0].map fun i => ((m p).s i).toNat, d < 2 ^ 16 := by
    intro d hd
    obtain ⟨i, -, rfl⟩ := List.mem_map.mp hd
    exact ((m p).s i).isLt
  have hdigits := digits_divide_lt hzero hds
  have hlt : (divide (2 ^ 16) n.toNat (0 : BitVec 32).toNat
      ([5, 4, 3, 2, 1, 0].map fun i => ((m p).s i).toNat)).2 < n.toNat := rem_divide_lt hzero
  have hvalue := value_divide (2 ^ 16) n.toNat (0 : BitVec 32).toNat
    ([5, 4, 3, 2, 1, 0].map fun i => ((m p).s i).toNat)
  rw [← hq] at hdigits hvalue
  rw [← hrem] at hlt hvalue
  -- the digits of the quotient fit in the halves
  have hfit : ([5, 4, 3, 2, 1, 0].map fun i => ((st.1 i).setWidth 16).toNat) =
      [5, 4, 3, 2, 1, 0].map fun i => (st.1 i).toNat := by
    apply List.map_congr_left
    intro i hi
    rw [BitVec.toNat_setWidth]
    exact Nat.mod_eq_of_lt (hdigits _ (List.mem_map_of_mem hi))
  have hmag := value_s (m p)
  change value (2 ^ 16) 0 _ = _ at hvalue
  rw [hmag, Nat.mul_comm, Nat.add_comm] at hvalue
  obtain ⟨hdiv, hmod⟩ := (Nat.div_mod_unique hpos).mpr ⟨hvalue.symm, hlt⟩
  rw [mag_setHalves, hfit, hdiv, hmod]
  exact ⟨rfl, rfl⟩

/-- The last part of a division: zero gets no sign. -/
theorem toInt_setQuotient (m : Mem Ptr) (r : Ptr) (b : Bool) :
    (setNegative m r (b && IsLargeNumNotZero (m r)) r).toInt =
      if b then -((m r).mag : Int) else (m r).mag := by
  rw [notZero_iff]
  unfold LARGENUM.toInt
  rw [fNegative_setNegative, mag_setNegative]
  by_cases hzero : (m r).mag = 0
  · simp [hzero]
  · cases b <;> simp [hzero]

/-- The quotient of the magnitudes gets the sign of the quotient; for a negative number it is one
    more, and the remainder is counted from there. -/
theorem div_spec (m : Mem Ptr) (p r : Ptr) {d : Int} (hd : 1 ≤ |d|) (hle : |d| ≤ 65536) :
    ((m p).fNegative = false →
      (LargeNumDivInt32 m p d r).1.toNat = (m p).mag % d.natAbs ∧
      ((LargeNumDivInt32 m p d r).2 r).toInt =
        if d < 0 then -(((m p).mag / d.natAbs : Nat) : Int)
        else (((m p).mag / d.natAbs : Nat) : Int)) ∧
    ((m p).fNegative = true →
      (LargeNumDivInt32 m p d r).1.toNat = d.natAbs - (m p).mag % d.natAbs ∧
      ((LargeNumDivInt32 m p d r).2 r).toInt =
        if d < 0 then ((((m p).mag / d.natAbs + 1) % 2 ^ 96 : Nat) : Int)
        else -((((m p).mag / d.natAbs + 1) % 2 ^ 96 : Nat) : Int)) := by
  have hne : d ≠ 0 := by
    rintro rfl
    exact absurd hd (by decide)
  have hdiv := toNat_divisor hle
  have hpos : 0 < d.natAbs := Int.natAbs_pos.mpr hne
  have hnat : d.natAbs ≤ 2 ^ 16 := by
    rw [Int.abs_eq_natAbs] at hle
    omega
  rw [← hdiv] at hpos hnat
  obtain ⟨hq, hrem⟩ := divMag_spec m p r hpos hnat
  unfold LargeNumDivInt32
  rw [if_neg hne]
  dsimp only at hq hrem ⊢
  rw [fNegative_setHalves]
  generalize BitVec.ofInt 32 (if d < 0 then -d else d) = n at *
  generalize [5, 4, 3, 2, 1, 0].foldl (divHalf n) (fun i => ((m p).s i).setWidth 32, 0) = st at *
  generalize setHalves m r (fun i => (st.1 i).setWidth 16) = m' at *
  rw [hdiv] at hq hrem
  constructor
  · intro hneg
    rw [if_neg (by rw [hneg]; decide)]
    refine ⟨hrem, ?_⟩
    rw [toInt_setQuotient, hq]
    simp only [decide_eq_true_eq]
  · intro hneg
    obtain ⟨hinc, -, -⟩ := magInc_spec m' r
    have hlt : st.2.toNat ≤ n.toNat := by
      rw [hrem, hdiv]
      exact (Nat.mod_lt _ (hdiv ▸ hpos)).le
    rw [if_pos hneg, toInt_setQuotient, hinc, hq]
    refine ⟨?_, ?_⟩
    · rw [BitVec.toNat_sub_of_le hlt, hrem, hdiv]
    · by_cases hd : d < 0 <;> simp [hd]

theorem divInt32_of_ne (m : Mem Ptr) (p : Ptr) {r o : Ptr} (d : Int) (h : o ≠ r) :
    (LargeNumDivInt32 m p d r).2 o = m o := by
  have hhalves : ∀ s, setHalves m r s o = m o := fun s => Function.update_of_ne h _ _
  unfold LargeNumDivInt32
  by_cases hd : d = 0
  · rw [if_pos hd]
    simp only [List.foldl_cons, List.foldl_nil]
    rw [setWord_of_ne _ _ h, setWord_of_ne _ _ h, setWord_of_ne _ _ h]
  · rw [if_neg hd]
    dsimp only
    rw [fNegative_setHalves]
    cases (m p).fNegative with
    | false => exact (setNegative_of_ne _ _ h _).trans (hhalves _)
    | true =>
      refine (setNegative_of_ne _ _ h _).trans (((magInc_spec _ r).2.2 o h).trans (hhalves _))

/-- `q` and `r` are quotient and remainder of a division whose remainder is never negative. -/
def IsDivision (v d q r : Int) : Prop := v = q * d + r ∧ 0 ≤ r ∧ r < |d|

/-- The division is wrong for a negative number, or a negative zero, whose magnitude is a multiple
    of the divisor. -/
theorem div_floor_iff (m : Mem Ptr) (p r : Ptr) {d : Int} (hd : 1 ≤ |d|) (hle : |d| ≤ 65536) :
    IsDivision (m p).toInt d ((LargeNumDivInt32 m p d r).2 r).toInt
        (LargeNumDivInt32 m p d r).1.toNat ↔
      ¬ ((m p).fNegative = true ∧ d.natAbs ∣ (m p).mag) := by
  obtain ⟨hplus, hminus⟩ := div_spec m p r hd hle
  have habs : |d| = d.natAbs := Int.abs_eq_natAbs d
  have hpos : 0 < d.natAbs := by omega
  have hmod := Nat.mod_lt (m p).mag hpos
  have hsplit := Nat.div_add_mod' (m p).mag d.natAbs
  unfold IsDivision
  rw [habs]
  cases hneg : (m p).fNegative with
  | false =>
    obtain ⟨hrem, hq⟩ := hplus hneg
    rw [hrem, hq, toInt_of_not_neg hneg]
    have hvalue : ((m p).mag : Int) = ((m p).mag / d.natAbs : Nat) * d.natAbs +
        ((m p).mag % d.natAbs : Nat) := by exact_mod_cast hsplit.symm
    refine iff_of_true ⟨?_, by omega, by omega⟩ (by simp)
    split
    · next hlt =>
      have hd : (d.natAbs : Int) = -d := by omega
      rw [hd] at hvalue
      linarith
    · next hge =>
      have hd : (d.natAbs : Int) = d := by omega
      rw [hd] at hvalue
      exact hvalue
  | true =>
    obtain ⟨hrem, hq⟩ := hminus hneg
    rw [hrem, hq, toInt_of_neg hneg, Nat.dvd_iff_mod_eq_zero]
    by_cases hzero : (m p).mag % d.natAbs = 0
    · -- the remainder is the divisor
      rw [hzero]
      refine iff_of_false ?_ (by simp)
      rintro ⟨-, -, hlt⟩
      omega
    · -- the quotient is rounded away from zero, which does not overflow
      have hfit : ((m p).mag / d.natAbs + 1) % 2 ^ 96 = (m p).mag / d.natAbs + 1 := by
        apply Nat.mod_eq_of_lt
        have hmag := mag_lt (m p)
        have htwo : 2 ≤ d.natAbs := by
          by_contra hone
          have : d.natAbs = 1 := by omega
          rw [this, Nat.mod_one] at hzero
          exact hzero rfl
        have hhalf : (m p).mag / d.natAbs ≤ (m p).mag / 2 := Nat.div_le_div_left htwo (by decide)
        omega
      have hvalue : ((m p).mag : Int) = ((m p).mag / d.natAbs : Nat) * d.natAbs +
          ((m p).mag % d.natAbs : Nat) := by exact_mod_cast hsplit.symm
      rw [hfit, Nat.cast_sub hmod.le]
      refine iff_of_true ⟨?_, by omega, by omega⟩ (by simp [hzero])
      push_cast at hvalue ⊢
      split
      · next hlt =>
        have hd : |d| = -d := abs_of_neg hlt
        rw [hd] at hvalue ⊢
        linarith
      · next hge =>
        have hd : |d| = d := abs_of_nonneg (by omega)
        rw [hd] at hvalue ⊢
        linarith

/-- Minus five halves. -/
theorem div_floor_minus_five : IsDivision (LargeNumSet (-5)).toInt 2
    ((LargeNumDivInt32 (fun _ : Unit => LargeNumSet (-5)) () 2 ()).2 ()).toInt
    (LargeNumDivInt32 (fun _ : Unit => LargeNumSet (-5)) () 2 ()).1.toNat :=
  (div_floor_iff (fun _ => LargeNumSet (-5)) () () (by decide) (by decide)).mpr (by decide)

/-- Half of minus four is minus three, and the remainder is two. -/
theorem div_floor_fails : ¬ ∀ (m : Mem Unit) (d : Int), 1 ≤ |d| → |d| ≤ 65536 →
    IsDivision (m ()).toInt d ((LargeNumDivInt32 m () d ()).2 ()).toInt
      (LargeNumDivInt32 m () d ()).1.toNat := by
  intro h
  have hlt := (h (fun _ => LargeNumSet (-4)) 2 (by decide) (by decide)).2.2
  revert hlt
  decide

end Division

end Hcrtos.Native.LargeNum
