import Hcrtos.Native.LargeNum
import Mathlib.Tactic.Ring
import Mathlib.Tactic.Linarith

/-!
# The values of large numbers

Sums and differences are exact, also when the result is an operand. The product of two words loses
a carry when the products of their halves crosswise add up to 2^32 or more.

## Key results

- `magAdd_spec`, `magSub_spec`: sums and differences of magnitudes
- `toInt_addSigned`: sums and differences of numbers with a sign
- `mag_mulUint32`: the product of two words, and the carry that it loses
- `mulWords_spec`, `toInt_mult`: the product with a number of one word
-/

namespace Hcrtos.Native.LargeNum

/-- The magnitude. -/
def LARGENUM.mag (x : LARGENUM) : Nat :=
  (x.u 0).toNat + 2 ^ 32 * (x.u 1).toNat + 2 ^ 64 * (x.u 2).toNat

/-- The number. -/
def LARGENUM.toInt (x : LARGENUM) : Int := if x.fNegative then -x.mag else x.mag

theorem mag_lt (x : LARGENUM) : x.mag < 2 ^ 96 := by
  have h0 := (x.u 0).isLt
  have h1 := (x.u 1).isLt
  have h2 := (x.u 2).isLt
  unfold LARGENUM.mag
  omega

/-- The words are the digits of the magnitude. -/
theorem word_eq (x : LARGENUM) :
    (x.u 0).toNat = x.mag % 2 ^ 32 ∧ (x.u 1).toNat = x.mag / 2 ^ 32 % 2 ^ 32 ∧
      (x.u 2).toNat = x.mag / 2 ^ 64 := by
  have h0 := (x.u 0).isLt
  have h1 := (x.u 1).isLt
  have h2 := (x.u 2).isLt
  unfold LARGENUM.mag
  omega

section Memory

variable {Ptr : Type} [DecidableEq Ptr] (m : Mem Ptr) (p : Ptr)

theorem setWord_apply (i : Fin 3) (x : BitVec 32) (q : Ptr) :
    setWord m p i x q = if q = p then { m q with u := Function.update (m q).u i x } else m q := by
  unfold setWord
  rw [Function.update_apply]
  split
  · next h => rw [h]
  · rfl

@[simp] theorem u_setWord (i : Fin 3) (x : BitVec 32) (q : Ptr) (j : Fin 3) :
    (setWord m p i x q).u j = if q = p ∧ j = i then x else (m q).u j := by
  rw [setWord_apply]
  by_cases hq : q = p
  · by_cases hj : j = i <;> simp [hq, hj]
  · simp [hq]

@[simp] theorem fNegative_setWord (i : Fin 3) (x : BitVec 32) (q : Ptr) :
    (setWord m p i x q).fNegative = (m q).fNegative := by
  rw [setWord_apply]
  split <;> rfl

theorem setWord_of_ne {q : Ptr} (h : q ≠ p) (i : Fin 3) (x : BitVec 32) :
    setWord m p i x q = m q := by
  rw [setWord_apply, if_neg h]

theorem setNegative_of_ne {q : Ptr} (h : q ≠ p) (b : Bool) : setNegative m p b q = m q :=
  Function.update_of_ne h _ _

@[simp] theorem mag_setNegative (b : Bool) (q : Ptr) : (setNegative m p b q).mag = (m q).mag := by
  unfold setNegative
  rw [Function.update_apply]
  split
  · next h => rw [h]; rfl
  · rfl

@[simp] theorem fNegative_setNegative (b : Bool) : (setNegative m p b p).fNegative = b := by
  simp [setNegative]

end Memory

/-! ### Magnitudes -/

/-- A sum of two words and a carry is the word that is stored and the next carry. -/
theorem carry_spec (a b : BitVec 32) (c : Bool) :
    (a + b + (if c then 1 else 0)).toNat +
        2 ^ 32 * (if c then decide (a + b + (if c then 1 else 0) ≤ a)
          else decide (a + b + (if c then 1 else 0) < a)).toNat =
      a.toNat + b.toNat + c.toNat := by
  have ha := a.isLt
  have hb := b.isLt
  cases c with
  | false =>
    have hzero : ∀ x : BitVec 32, x + 0 = x := fun x => by simp
    simp only [Bool.false_eq_true, if_false, hzero, Bool.toNat_false]
    have hlt : a + b < a ↔ (a.toNat + b.toNat) % 2 ^ 32 < a.toNat := by
      rw [BitVec.lt_def, BitVec.toNat_add]
    rw [BitVec.toNat_add]
    by_cases h : a + b < a
    · have := hlt.mp h
      simp only [h, decide_true, Bool.toNat_true]
      omega
    · have hge : ¬ (a.toNat + b.toNat) % 2 ^ 32 < a.toNat := fun h' => h (hlt.mpr h')
      simp only [h, decide_false, Bool.toNat_false]
      omega
  | true =>
    have hone : (1 : BitVec 32).toNat = 1 := by decide
    simp only [if_true, Bool.toNat_true]
    have hle : a + b + 1 ≤ a ↔ (a.toNat + b.toNat + 1) % 2 ^ 32 ≤ a.toNat := by
      rw [BitVec.le_def, BitVec.toNat_add, BitVec.toNat_add, hone, Nat.mod_add_mod]
    rw [BitVec.toNat_add, BitVec.toNat_add, hone, Nat.mod_add_mod]
    by_cases h : a + b + 1 ≤ a
    · have := hle.mp h
      simp only [h, decide_true, Bool.toNat_true]
      omega
    · have hgt : ¬ (a.toNat + b.toNat + 1) % 2 ^ 32 ≤ a.toNat := fun h' => h (hle.mpr h')
      simp only [h, decide_false, Bool.toNat_false]
      omega

section Arithmetic

variable {Ptr : Type} [DecidableEq Ptr] (m : Mem Ptr) (p q r : Ptr)

/-- A round reads the words of both operands before it writes the same word of the result, so the
    result may be one of them. -/
theorem foldl_addWord (f : BitVec 32 → BitVec 32) (c : Bool) :
    (([0, 1, 2].foldl (addWord f p q r) (m, c)).1 r).mag =
        ((m p).mag + ((f ((m q).u 0)).toNat + 2 ^ 32 * (f ((m q).u 1)).toNat +
          2 ^ 64 * (f ((m q).u 2)).toNat) + c.toNat) % 2 ^ 96 ∧
      (∀ o, (([0, 1, 2].foldl (addWord f p q r) (m, c)).1 o).fNegative = (m o).fNegative) ∧
      ∀ o, o ≠ r → ([0, 1, 2].foldl (addWord f p q r) (m, c)).1 o = m o := by
  have h01 : (0 : Fin 3) ≠ 1 := by decide
  have h02 : (0 : Fin 3) ≠ 2 := by decide
  have h12 : (1 : Fin 3) ≠ 2 := by decide
  simp only [List.foldl_cons, List.foldl_nil, addWord, u_setWord, h01.symm, h02.symm, h12.symm,
    and_false, if_false]
  -- the words and carries of the three rounds
  have s0 := carry_spec ((m p).u 0) (f ((m q).u 0)) c
  generalize (if c then decide ((m p).u 0 + f ((m q).u 0) + (if c then 1 else 0) ≤ (m p).u 0)
    else decide ((m p).u 0 + f ((m q).u 0) + (if c then 1 else 0) < (m p).u 0)) = c1 at s0 ⊢
  generalize (m p).u 0 + f ((m q).u 0) + (if c then 1 else 0) = r0 at s0 ⊢
  have s1 := carry_spec ((m p).u 1) (f ((m q).u 1)) c1
  generalize (if c1 then decide ((m p).u 1 + f ((m q).u 1) + (if c1 then 1 else 0) ≤ (m p).u 1)
    else decide ((m p).u 1 + f ((m q).u 1) + (if c1 then 1 else 0) < (m p).u 1)) = c2 at s1 ⊢
  generalize (m p).u 1 + f ((m q).u 1) + (if c1 then 1 else 0) = r1 at s1 ⊢
  have s2 := carry_spec ((m p).u 2) (f ((m q).u 2)) c2
  generalize (if c2 then decide ((m p).u 2 + f ((m q).u 2) + (if c2 then 1 else 0) ≤ (m p).u 2)
    else decide ((m p).u 2 + f ((m q).u 2) + (if c2 then 1 else 0) < (m p).u 2)) = c3 at s2 ⊢
  generalize (m p).u 2 + f ((m q).u 2) + (if c2 then 1 else 0) = r2 at s2 ⊢
  refine ⟨?_, fun o => by simp, fun o ho => ?_⟩
  · have hr0 := r0.isLt
    have hr1 := r1.isLt
    have hr2 := r2.isLt
    unfold LARGENUM.mag
    simp only [u_setWord, h01, h02, h12, and_false, if_false, and_self, if_true]
    omega
  · rw [setWord_of_ne _ _ ho, setWord_of_ne _ _ ho, setWord_of_ne _ _ ho]

theorem magAdd_spec :
    (LargeNumMagAdd m p q r r).mag = ((m p).mag + (m q).mag) % 2 ^ 96 ∧
      (∀ o, (LargeNumMagAdd m p q r o).fNegative = (m o).fNegative) ∧
      ∀ o, o ≠ r → LargeNumMagAdd m p q r o = m o := by
  have h := foldl_addWord m p q r id false
  simp only [id_eq, Bool.toNat_false, Nat.add_zero] at h
  exact h

theorem magSub_spec (hle : (m q).mag ≤ (m p).mag) :
    (LargeNumMagSub m p q r r).mag = (m p).mag - (m q).mag ∧
      (∀ o, (LargeNumMagSub m p q r o).fNegative = (m o).fNegative) ∧
      ∀ o, o ≠ r → LargeNumMagSub m p q r o = m o := by
  obtain ⟨hmag, hneg, hother⟩ := foldl_addWord m p q r (~~~·) true
  refine ⟨hmag.trans ?_, hneg, hother⟩
  have hlt := mag_lt (m p)
  have h0 := ((m q).u 0).isLt
  have h1 := ((m q).u 1).isLt
  have h2 := ((m q).u 2).isLt
  rw [BitVec.toNat_not, BitVec.toNat_not, BitVec.toNat_not, Bool.toNat_true]
  generalize (m p).mag = v at *
  unfold LARGENUM.mag at *
  omega

end Arithmetic

theorem magGreaterThan_iff (x y : LARGENUM) :
    IsLargeNumMagGreaterThan x y = decide (y.mag < x.mag) := by
  have hx0 := (x.u 0).isLt
  have hx1 := (x.u 1).isLt
  have hy0 := (y.u 0).isLt
  have hy1 := (y.u 1).isLt
  rw [Bool.eq_iff_iff, decide_eq_true_eq]
  simp only [IsLargeNumMagGreaterThan, magGreaterThan, gt_iff_lt, BitVec.lt_def]
  unfold LARGENUM.mag
  split
  · simp only [true_iff]
    omega
  · split
    · simp only [Bool.false_eq_true, false_iff]
      omega
    · split
      · simp only [true_iff]
        omega
      · split
        · simp only [Bool.false_eq_true, false_iff]
          omega
        · split
          · simp only [true_iff]
            omega
          · split <;> simp only [Bool.false_eq_true, false_iff] <;> omega

theorem notZero_iff (x : LARGENUM) : IsLargeNumNotZero x = decide (x.mag ≠ 0) := by
  have hzero : ∀ b : BitVec 32, b ≠ 0 ↔ b.toNat ≠ 0 := by
    intro b
    rw [ne_eq, ne_eq, BitVec.toNat_eq]
    rfl
  rw [Bool.eq_iff_iff, decide_eq_true_eq]
  simp only [IsLargeNumNotZero, List.any_cons, List.any_nil, Bool.or_false, Bool.or_eq_true,
    decide_eq_true_eq, hzero]
  unfold LARGENUM.mag
  omega

/-! ### Numbers with a sign -/

theorem toInt_of_neg {x : LARGENUM} (h : x.fNegative = true) : x.toInt = -x.mag := if_pos h

theorem toInt_of_not_neg {x : LARGENUM} (h : x.fNegative = false) : x.toInt = x.mag :=
  if_neg (by rw [h]; decide)

/-- The last part of a sum or a product: zero gets no sign. -/
theorem toInt_setSign {Ptr : Type} [DecidableEq Ptr] (m : Mem Ptr) (r : Ptr) (b : Bool) :
    ((if ¬ IsLargeNumNotZero (m r) then setNegative m r false else setNegative m r b) r).toInt =
      if b then -((m r).mag : Int) else (m r).mag := by
  rw [notZero_iff]
  by_cases hzero : (m r).mag = 0
  · have hnot : ¬ (decide ((m r).mag ≠ 0) = true) := by simp [hzero]
    rw [if_pos hnot, toInt_of_not_neg (fNegative_setNegative m r false), mag_setNegative, hzero]
    simp
  · have hnot : ¬ ¬ (decide ((m r).mag ≠ 0) = true) := by simp [hzero]
    rw [if_neg hnot]
    cases b with
    | true =>
      rw [toInt_of_neg (fNegative_setNegative m r true), mag_setNegative]
      rfl
    | false =>
      rw [toInt_of_not_neg (fNegative_setNegative m r false), mag_setNegative]
      rfl

theorem setSign_of_ne {Ptr : Type} [DecidableEq Ptr] {m : Mem Ptr} {r o : Ptr} (h : o ≠ r)
    (b : Bool) :
    (if ¬ IsLargeNumNotZero (m r) then setNegative m r false else setNegative m r b) o = m o := by
  split <;> exact setNegative_of_ne m r h _

section Signed

variable {Ptr : Type} [DecidableEq Ptr] {m : Mem Ptr} {p q r : Ptr}

/-- A sum or difference that does not overflow. -/
theorem toInt_addSigned (flip : Bool) (h : (m p).mag + (m q).mag < 2 ^ 96) :
    (addSigned flip m p q r r).toInt =
        (if flip then (m p).toInt - (m q).toInt else (m p).toInt + (m q).toInt) ∧
      ∀ o, o ≠ r → addSigned flip m p q r o = m o := by
  unfold addSigned IsLargeNumNegative
  dsimp only
  rw [magGreaterThan_iff]
  split
  · next hsub =>
    -- the signs differ, so the magnitudes are subtracted
    by_cases hgt : (m q).mag < (m p).mag
    · obtain ⟨hmag, -, hother⟩ := magSub_spec m p q r hgt.le
      have hcond : decide ((m q).mag < (m p).mag) = true := decide_eq_true hgt
      rw [if_pos hcond]
      dsimp only
      refine ⟨?_, fun o ho => (setSign_of_ne ho _).trans (hother o ho)⟩
      rw [toInt_setSign, hmag]
      unfold LARGENUM.toInt
      cases hp : (m p).fNegative <;> cases hq : (m q).fNegative <;> cases flip <;>
        simp [hp, hq] at hsub ⊢ <;> omega
    · obtain ⟨hmag, -, hother⟩ := magSub_spec m q p r (Nat.not_lt.mp hgt)
      have hcond : ¬ decide ((m q).mag < (m p).mag) = true := by simpa using hgt
      rw [if_neg hcond]
      dsimp only
      refine ⟨?_, fun o ho => (setSign_of_ne ho _).trans (hother o ho)⟩
      rw [toInt_setSign, hmag]
      unfold LARGENUM.toInt
      cases hp : (m p).fNegative <;> cases hq : (m q).fNegative <;> cases flip <;>
        simp [hp, hq] at hsub ⊢ <;> omega
  · next hadd =>
    obtain ⟨hmag, -, hother⟩ := magAdd_spec m p q r
    dsimp only
    refine ⟨?_, fun o ho => (setSign_of_ne ho _).trans (hother o ho)⟩
    rw [toInt_setSign, hmag, Nat.mod_eq_of_lt h]
    unfold LARGENUM.toInt
    cases hp : (m p).fNegative <;> cases hq : (m q).fNegative <;> cases flip <;>
      simp [hp, hq] at hadd ⊢ <;> omega

/-- Sums and differences, with or without an overflow, leave other numbers alone. -/
theorem addSigned_of_ne (m : Mem Ptr) (p q : Ptr) {r o : Ptr} (flip : Bool) (h : o ≠ r) :
    addSigned flip m p q r o = m o := by
  have hadd := (magAdd_spec m p q r).2.2 o h
  have hsub (x y : Ptr) := (foldl_addWord m x y r (~~~·) true).2.2 o h
  unfold addSigned
  dsimp only
  rw [setSign_of_ne h]
  split
  · split
    · exact hsub p q
    · exact hsub q p
  · exact hadd

end Signed

/-! ### Products -/

/-- The carry that `LargeNumMulUint32` loses: the products crosswise of the halves of its operands
    add up to more than a word. -/
def lost (a b : BitVec 32) : Nat :=
  if 2 ^ 32 ≤ a.toNat / 2 ^ 16 * (b.toNat % 2 ^ 16) + a.toNat % 2 ^ 16 * (b.toNat / 2 ^ 16) then 1
  else 0

theorem toNat_high (a : BitVec 32) : (a >>> 16).toNat = a.toNat / 2 ^ 16 := by
  rw [BitVec.toNat_ushiftRight, Nat.shiftRight_eq_div_pow]

theorem toNat_low (a : BitVec 32) : (a &&& 0xffff).toNat = a.toNat % 2 ^ 16 := by
  rw [BitVec.toNat_and]
  exact Nat.and_two_pow_sub_one_eq_mod a.toNat 16

theorem mag_mulUint32 (a b : BitVec 32) :
    (LargeNumMulUint32 a b).mag + 2 ^ 48 * lost a b = a.toNat * b.toNat ∧
      (LargeNumMulUint32 a b).mag < 2 ^ 64 := by
  have hone : (1 : BitVec 32).toNat = 1 := by decide
  have hzero : (0 : BitVec 32).toNat = 0 := by decide
  have h10 : (1 : Fin 3) ≠ 0 := by decide
  have h20 : (2 : Fin 3) ≠ 0 := by decide
  have h21 : (2 : Fin 3) ≠ 1 := by decide
  unfold LargeNumMulUint32 LARGENUM.mag lost
  dsimp only
  rw [if_pos rfl, if_neg h10, if_pos rfl, if_neg h20, if_neg h21]
  simp only [BitVec.lt_def, BitVec.toNat_add, BitVec.toNat_mul, BitVec.toNat_shiftLeft, toNat_high,
    toNat_low, apply_ite BitVec.toNat, hone, hzero, Nat.shiftLeft_eq]
  have hsplit : a.toNat * b.toNat =
      a.toNat % 2 ^ 16 * (b.toNat % 2 ^ 16) +
        2 ^ 16 * (a.toNat / 2 ^ 16 * (b.toNat % 2 ^ 16) + a.toNat % 2 ^ 16 * (b.toNat / 2 ^ 16)) +
        2 ^ 32 * (a.toNat / 2 ^ 16 * (b.toNat / 2 ^ 16)) := by
    have ha := Nat.div_add_mod a.toNat (2 ^ 16)
    have hb := Nat.div_add_mod b.toNat (2 ^ 16)
    calc a.toNat * b.toNat
        = (2 ^ 16 * (a.toNat / 2 ^ 16) + a.toNat % 2 ^ 16) *
            (2 ^ 16 * (b.toNat / 2 ^ 16) + b.toNat % 2 ^ 16) := by rw [ha, hb]
      _ = _ := by ring
  -- a product of halves fits in a word
  have hhalf : ∀ x y : Nat, x < 2 ^ 16 → y < 2 ^ 16 → x * y ≤ (2 ^ 16 - 1) * (2 ^ 16 - 1) :=
    fun x y hx hy => Nat.mul_le_mul (by omega) (by omega)
  have ha := a.isLt
  have hb := b.isLt
  have hll := hhalf (a.toNat % 2 ^ 16) (b.toNat % 2 ^ 16) (by omega) (by omega)
  have hhl := hhalf (a.toNat / 2 ^ 16) (b.toNat % 2 ^ 16) (by omega) (by omega)
  have hlh := hhalf (a.toNat % 2 ^ 16) (b.toNat / 2 ^ 16) (by omega) (by omega)
  have hhh := hhalf (a.toNat / 2 ^ 16) (b.toNat / 2 ^ 16) (by omega) (by omega)
  rw [hsplit]
  generalize a.toNat % 2 ^ 16 * (b.toNat % 2 ^ 16) = ll at *
  generalize a.toNat / 2 ^ 16 * (b.toNat % 2 ^ 16) = hl at *
  generalize a.toNat % 2 ^ 16 * (b.toNat / 2 ^ 16) = lh at *
  generalize a.toNat / 2 ^ 16 * (b.toNat / 2 ^ 16) = hh at *
  split <;> split <;> omega

/-- A number of one word. -/
def LARGENUM.Short (x : LARGENUM) : Prop := ∀ i, i ≠ 0 → x.u i = 0

theorem LARGENUM.Short.mag_eq {x : LARGENUM} (h : x.Short) : x.mag = (x.u 0).toNat := by
  unfold LARGENUM.mag
  rw [h 1 (by decide), h 2 (by decide)]
  simp

theorem mag_mulUint32_zero (b : BitVec 32) : (LargeNumMulUint32 0 b).mag = 0 := by
  have h := (mag_mulUint32 0 b).1
  have hzero : (0 : BitVec 32).toNat = 0 := by decide
  rw [hzero, Nat.zero_mul] at h
  omega

/-- A round of the inner loop. -/
theorem addProduct_spec (x : LARGENUM) (locals : Mem Local) :
    (LargeNumMagAdd (Function.update locals .lNumTemp x) .lNumTemp .lNumSum .lNumSum .lNumSum).mag =
        (x.mag + (locals .lNumSum).mag) % 2 ^ 96 ∧
      LargeNumMagAdd (Function.update locals .lNumTemp x) .lNumTemp .lNumSum .lNumSum .lNumCarry =
        locals .lNumCarry := by
  obtain ⟨hmag, -, hother⟩ :=
    magAdd_spec (Function.update locals .lNumTemp x) .lNumTemp .lNumSum .lNumSum
  have hsum : Function.update locals Local.lNumTemp x .lNumSum = locals .lNumSum :=
    Function.update_of_ne (by decide) _ _
  have hcarry : Function.update locals Local.lNumTemp x .lNumCarry = locals .lNumCarry :=
    Function.update_of_ne (by decide) _ _
  rw [Function.update_self, hsum] at hmag
  exact ⟨hmag, (hother .lNumCarry (by decide)).trans hcarry⟩

/-- Rounds of the inner loop whose products are zero. -/
theorem addZeros_spec {x : LARGENUM} (y : LARGENUM) (i : Fin 3) (js : List (Fin 3))
    (hzero : ∀ j ∈ js, x.u j = 0) (locals : Mem Local) :
    (js.foldl (fun l j => LargeNumMagAdd (Function.update l .lNumTemp
        (LargeNumMulUint32 (x.u j) (y.u (i - j)))) .lNumTemp .lNumSum .lNumSum) locals
          .lNumSum).mag = (locals .lNumSum).mag ∧
      js.foldl (fun l j => LargeNumMagAdd (Function.update l .lNumTemp
        (LargeNumMulUint32 (x.u j) (y.u (i - j)))) .lNumTemp .lNumSum .lNumSum) locals .lNumCarry =
        locals .lNumCarry := by
  induction js generalizing locals with
  | nil => exact ⟨rfl, rfl⟩
  | cons j js ih =>
    rw [List.foldl_cons]
    obtain ⟨hmag, hcarry⟩ :=
      addProduct_spec (LargeNumMulUint32 (x.u j) (y.u (i - j))) locals
    obtain ⟨ihmag, ihcarry⟩ := ih (fun k hk => hzero k (List.mem_cons_of_mem j hk)) _
    refine ⟨ihmag.trans (hmag.trans ?_), ihcarry.trans hcarry⟩
    rw [hzero j List.mem_cons_self, mag_mulUint32_zero, Nat.zero_add]
    exact Nat.mod_eq_of_lt (mag_lt _)

/-- With one word only, the products of the other words are zero: a word of the result that was
    written over its operand is never used. -/
theorem addProducts_spec {x : LARGENUM} (hx : x.Short) (y : LARGENUM) (i : Fin 3)
    (locals : Mem Local) :
    (addProducts x y i locals .lNumSum).mag = (LargeNumMulUint32 (x.u 0) (y.u i)).mag ∧
      addProducts x y i locals .lNumCarry = locals .lNumCarry := by
  have hset : (LargeNumSet 0).mag = 0 := by decide
  have hstart : Function.update locals Local.lNumSum (LargeNumSet 0) .lNumCarry =
      locals .lNumCarry := Function.update_of_ne (by decide) _ _
  have hfilter : [0, 1, 2].filter (fun j : Fin 3 => j ≤ i) =
      0 :: [1, 2].filter fun j : Fin 3 => j ≤ i :=
    List.filter_cons_of_pos (by simp)
  unfold addProducts
  rw [hfilter, List.foldl_cons]
  obtain ⟨hmag, hcarry⟩ := addProduct_spec (LargeNumMulUint32 (x.u 0) (y.u (i - 0)))
    (Function.update locals .lNumSum (LargeNumSet 0))
  have hzero : ∀ j ∈ [1, 2].filter (fun j : Fin 3 => j ≤ i), x.u j = 0 := by
    intro j hj
    have hmem := (List.mem_filter.mp hj).1
    exact hx j (by rintro rfl; exact absurd hmem (by decide))
  obtain ⟨hmags, hcarrys⟩ := addZeros_spec y i _ hzero
    (LargeNumMagAdd (Function.update (Function.update locals .lNumSum (LargeNumSet 0)) .lNumTemp
      (LargeNumMulUint32 (x.u 0) (y.u (i - 0)))) .lNumTemp .lNumSum .lNumSum)
  refine ⟨hmags.trans (hmag.trans ?_), hcarrys.trans (hcarry.trans hstart)⟩
  have hsub : ∀ k : Fin 3, k - 0 = k := by decide
  rw [Function.update_self, hset, Nat.add_zero, hsub]
  exact Nat.mod_eq_of_lt (mag_lt _)

section Mult

variable {Ptr : Type} [DecidableEq Ptr]

/-- A round of the outer loop adds the carry of the one before and keeps the next one. -/
theorem mulWord_spec {m : Mem Ptr} {p : Ptr} (q r : Ptr) {l : Mem Local} (i : Fin 3)
    {v : Nat} (hp : (m p).Short) (hcarry : (l .lNumCarry).mag < 2 ^ 64)
    (hv : (LargeNumMulUint32 ((m p).u 0) ((m q).u i)).mag + (l .lNumCarry).mag = v) :
    (mulWord p q r (m, l) i).1 = setWord m r i (.ofNat 32 v) ∧
      ((mulWord p q r (m, l) i).2 .lNumCarry).mag = v / 2 ^ 32 ∧ v < 2 ^ 65 := by
  have h10 : (1 : Fin 3) ≠ 0 := by decide
  have h20 : (2 : Fin 3) ≠ 0 := by decide
  have h21 : (2 : Fin 3) ≠ 1 := by decide
  have hne : Local.lNumSum ≠ .lNumCarry := by decide
  have hlt := (mag_mulUint32 ((m p).u 0) ((m q).u i)).2
  obtain ⟨hsum, hkeep⟩ := addProducts_spec hp (m q) i l
  obtain ⟨hmag, -, hother⟩ :=
    magAdd_spec (addProducts (m p) (m q) i l) .lNumCarry .lNumSum .lNumSum
  have hcarry' := (hother .lNumCarry hne.symm).trans hkeep
  rw [hkeep, hsum, Nat.add_comm, hv, Nat.mod_eq_of_lt (by omega)] at hmag
  unfold mulWord
  dsimp only
  generalize LargeNumMagAdd (addProducts (m p) (m q) i l) .lNumCarry .lNumSum .lNumSum = l' at *
  obtain ⟨hl0, hl1, hl2⟩ := word_eq (l' .lNumSum)
  rw [hmag] at hl0 hl1 hl2
  -- the highest word of the carry was zero and stays so
  have hu2 := (word_eq (l' .lNumCarry)).2.2
  rw [hcarry', Nat.div_eq_of_lt hcarry] at hu2
  refine ⟨?_, ?_, by omega⟩
  · congr 1
    apply BitVec.eq_of_toNat_eq
    rw [setWord_of_ne _ _ hne, setWord_of_ne _ _ hne, hl0, BitVec.toNat_ofNat]
  · unfold LARGENUM.mag
    simp only [u_setWord, h10.symm, h21, h20, hne, and_false, and_self, if_false, if_true, hl1, hl2,
      hcarry', hu2]
    omega

/-- The words of a product with a number of one word, which is not the result. The other operand may
    be the result: a word of it is read in the round that writes it, or not at all. -/
theorem mulWords_spec {m : Mem Ptr} {p q r : Ptr} (hp : (m p).Short) (hpr : p ≠ r) :
    (([0, 1, 2].foldl (mulWord p q r) (m, fun _ => LargeNumSet 0)).1 r).mag =
        ((LargeNumMulUint32 ((m p).u 0) ((m q).u 0)).mag +
          2 ^ 32 * (LargeNumMulUint32 ((m p).u 0) ((m q).u 1)).mag +
          2 ^ 64 * (LargeNumMulUint32 ((m p).u 0) ((m q).u 2)).mag) % 2 ^ 96 ∧
      (∀ o, (([0, 1, 2].foldl (mulWord p q r) (m, fun _ => LargeNumSet 0)).1 o).fNegative =
        (m o).fNegative) ∧
      ∀ o, o ≠ r → ([0, 1, 2].foldl (mulWord p q r) (m, fun _ => LargeNumSet 0)).1 o = m o := by
  have h01 : (0 : Fin 3) ≠ 1 := by decide
  have h02 : (0 : Fin 3) ≠ 2 := by decide
  have h12 : (1 : Fin 3) ≠ 2 := by decide
  have hset : (LargeNumSet 0).mag = 0 := by decide
  have hkeep : ∀ (m : Mem Ptr) (i : Fin 3) (x : BitVec 32), setWord m r i x p = m p :=
    fun m i x => setWord_of_ne m r hpr i x
  simp only [List.foldl_cons, List.foldl_nil]
  obtain ⟨hm1, hc1, hv1⟩ := mulWord_spec q r (l := fun _ => LargeNumSet 0) 0 hp
    (by rw [hset]; decide) rfl
  rw [hset, Nat.add_zero] at hm1 hc1 hv1
  rcases hs1 : mulWord p q r (m, fun _ => LargeNumSet 0) 0 with ⟨m1, l1⟩
  rw [hs1] at hm1 hc1
  dsimp only at hm1 hc1
  obtain ⟨hm2, hc2, hv2⟩ := mulWord_spec q r (m := m1) (l := l1) 1
    (by rw [hm1, hkeep]; exact hp) (by omega) rfl
  rcases hs2 : mulWord p q r (m1, l1) 1 with ⟨m2, l2⟩
  rw [hs2, hc1, hm1, hkeep, u_setWord, if_neg (fun h => h01 h.2.symm)] at hm2 hc2
  rw [hc1, hm1, hkeep, u_setWord, if_neg (fun h => h01 h.2.symm)] at hv2
  dsimp only at hm2 hc2
  obtain ⟨hm3, -, hv3⟩ := mulWord_spec q r (m := m2) (l := l2) 2
    (by rw [hm2, hkeep, hkeep]; exact hp) (by omega) rfl
  rw [hc2, hm2, hkeep, hkeep, u_setWord, u_setWord, if_neg (fun h => h12 h.2.symm),
    if_neg (fun h => h02 h.2.symm)] at hm3 hv3
  rw [hm2, hm3]
  refine ⟨?_, fun o => by simp, fun o ho => ?_⟩
  · unfold LARGENUM.mag
    simp only [u_setWord, h01, h02, h12, and_false, if_false, and_self, if_true,
      BitVec.toNat_ofNat]
    omega
  · rw [setWord_of_ne _ _ ho, setWord_of_ne _ _ ho, setWord_of_ne _ _ ho]

/-- The product with a number of one word, up to the carries that the products of words lose. -/
theorem toInt_mult {m : Mem Ptr} {p q r : Ptr} (hp : (m p).Short) (hpr : p ≠ r) :
    (LargeNumMult m p q r r).toInt =
        (if (m p).fNegative != (m q).fNegative then -1 else 1) *
          (((LargeNumMulUint32 ((m p).u 0) ((m q).u 0)).mag +
            2 ^ 32 * (LargeNumMulUint32 ((m p).u 0) ((m q).u 1)).mag +
            2 ^ 64 * (LargeNumMulUint32 ((m p).u 0) ((m q).u 2)).mag) % 2 ^ 96 : Nat) ∧
      ∀ o, o ≠ r → LargeNumMult m p q r o = m o := by
  obtain ⟨hmag, hneg, hother⟩ := mulWords_spec (q := q) hp hpr
  unfold LargeNumMult
  generalize ([0, 1, 2].foldl (mulWord p q r) (m, fun _ => LargeNumSet 0)).1 = m' at *
  refine ⟨?_, fun o ho => (setSign_of_ne ho _).trans (hother o ho)⟩
  rw [toInt_setSign, hmag, hneg, hneg]
  cases (m p).fNegative != (m q).fNegative <;> simp

theorem mult_of_ne (m : Mem Ptr) (p q : Ptr) {r o : Ptr} (h : o ≠ r) :
    LargeNumMult m p q r o = m o := by
  unfold LargeNumMult
  rw [setSign_of_ne h]
  simp only [List.foldl_cons, List.foldl_nil, mulWord]
  rw [setWord_of_ne _ _ h, setWord_of_ne _ _ h, setWord_of_ne _ _ h]

end Mult

end Hcrtos.Native.LargeNum
