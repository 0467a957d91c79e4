import Mathlib.Data.List.TakeDrop
import Mathlib.Data.List.Infix
import Mathlib.Data.Nat.Digits.Defs

/-!
# Strings of bytes

A C string is the list of its bytes without the terminator. The comparisons that ignore case
are those of the C locale.

## Key results

- `strncasecmp_iff`: two strings compare as equal when their first bytes agree in lower case
- `le_commonLen_iff`: the prefixes that two lists share
- `strlen_eq`: the length of a string in memory
- `decimal_injective`, `formatInt_inj`: a printed number can be read back
-/

namespace Hcrtos.CString

/-- A C string: its bytes, without the terminator. -/
abbrev CStr := List UInt8

/-- `tolower` in the C locale. -/
def tolower (b : UInt8) : UInt8 := if 65 ≤ b ∧ b ≤ 90 then b + 32 else b

/-- `isspace` in the C locale. -/
def isspace (b : UInt8) : Bool := b = 32 ∨ 9 ≤ b ∧ b ≤ 13

/-- `strncasecmp(a, b, n) == 0`. -/
def strncasecmp : CStr → CStr → Nat → Bool
  | _, _, 0 => true
  | [], [], _ + 1 => true
  | a :: as, b :: bs, n + 1 => tolower a = tolower b && strncasecmp as bs n
  | [], _ :: _, _ + 1 => false
  | _ :: _, [], _ + 1 => false

/-- A string in lower case. -/
def lower (s : CStr) : CStr := s.map tolower

@[simp] theorem length_lower (s : CStr) : (lower s).length = s.length := List.length_map _

theorem lower_take (s : CStr) (n : Nat) : lower (s.take n) = (lower s).take n := List.map_take

theorem strncasecmp_iff {a b : CStr} {n : Nat} :
    strncasecmp a b n = true ↔ (lower a).take n = (lower b).take n := by
  induction n generalizing a b with
  | zero => simp [strncasecmp]
  | succ n ih =>
    cases a with
    | nil => cases b <;> simp [strncasecmp, lower]
    | cons x a =>
      cases b with
      | nil => simp [strncasecmp, lower]
      | cons y b =>
        have ih := ih (a := a) (b := b)
        simp only [lower] at ih
        simp [strncasecmp, lower, ih]

/-- `word` begins `s`, ignoring case. -/
def BeginsWith (s word : CStr) : Prop := lower word <+: lower s

instance (s word : CStr) : Decidable (BeginsWith s word) := by
  unfold BeginsWith; infer_instance

theorem strncasecmp_length_iff {s word : CStr} :
    strncasecmp s word word.length = true ↔ BeginsWith s word := by
  rw [strncasecmp_iff, BeginsWith, List.prefix_iff_eq_take, length_lower,
    List.take_of_length_le (i := word.length) (l := lower word) (by simp), eq_comm]

theorem BeginsWith.length_le {s word : CStr} (h : BeginsWith s word) :
    word.length ≤ s.length := by
  simpa using List.IsPrefix.length_le h

/-- A beginning of full length is the string itself, ignoring case. -/
theorem BeginsWith.lower_eq {s word : CStr} (h : BeginsWith s word)
    (hlen : word.length = s.length) : lower word = lower s :=
  List.IsPrefix.eq_of_length h (by simpa using hlen)

theorem beginsWith_self (s : CStr) : BeginsWith s s := List.prefix_refl _

/-! ### Common prefixes -/

section CommonLen

variable {α : Type} [DecidableEq α]

/-- The length of the longest common prefix. -/
def commonLen : List α → List α → Nat
  | a :: as, b :: bs => if a = b then commonLen as bs + 1 else 0
  | _, _ => 0

theorem le_commonLen_iff {a b : List α} {k : Nat} :
    k ≤ commonLen a b ↔ k ≤ a.length ∧ k ≤ b.length ∧ a.take k = b.take k := by
  induction k generalizing a b with
  | zero => simp
  | succ k ih =>
    cases a with
    | nil => simp [commonLen]
    | cons x a =>
      cases b with
      | nil => simp [commonLen]
      | cons y b =>
        simp only [commonLen]
        split
        · rename_i hxy
          simp [ih, hxy]
        · rename_i hxy
          simp [hxy]

theorem commonLen_le_left (a b : List α) : commonLen a b ≤ a.length :=
  (le_commonLen_iff.mp (Nat.le_refl _)).1

theorem commonLen_comm (a b : List α) : commonLen a b = commonLen b a := by
  apply Nat.le_antisymm
  · rw [le_commonLen_iff]
    obtain ⟨ha, hb, heq⟩ := le_commonLen_iff.mp (Nat.le_refl (commonLen a b))
    exact ⟨hb, ha, heq.symm⟩
  · rw [le_commonLen_iff]
    obtain ⟨hb, ha, heq⟩ := le_commonLen_iff.mp (Nat.le_refl (commonLen b a))
    exact ⟨ha, hb, heq.symm⟩

end CommonLen

/-- The strings that begin both `a` and `b`, ignoring case, are the beginnings of `a` up to
    the common length. -/
theorem beginsWith_both_length_le {a b word : CStr} (ha : BeginsWith a word)
    (hb : BeginsWith b word) : word.length ≤ commonLen (lower a) (lower b) := by
  rw [le_commonLen_iff]
  refine ⟨by simpa using ha.length_le, by simpa using hb.length_le, ?_⟩
  have ha' := List.prefix_iff_eq_take.mp ha
  have hb' := List.prefix_iff_eq_take.mp hb
  rw [length_lower] at ha' hb'
  rw [← ha', ← hb']

theorem beginsWith_take_left (a : CStr) (n : Nat) : BeginsWith a (a.take n) := by
  rw [BeginsWith, lower_take]
  exact List.take_prefix _ _

theorem beginsWith_take_right {a b : CStr} {n : Nat}
    (hn : n ≤ commonLen (lower a) (lower b)) : BeginsWith b (a.take n) := by
  rw [BeginsWith, lower_take, (le_commonLen_iff.mp hn).2.2]
  exact List.take_prefix _ _

/-! ### Strings in memory -/

/-- `strlen`, for a string that begins the bytes; `none` when its terminator is not among them. -/
def strlen : List UInt8 → Option Nat
  | [] => none
  | b :: bytes => if b = 0 then some 0 else (strlen bytes).map (· + 1)

/-- The length is the index of the first zero. -/
theorem strlen_eq (bytes : List UInt8) :
    strlen bytes = if 0 ∈ bytes then some (bytes.idxOf 0) else none := by
  induction bytes with
  | nil => rfl
  | cons b bytes ih =>
    unfold strlen
    by_cases hb : b = 0
    · subst hb
      simp
    · rw [if_neg hb, ih, List.idxOf_cons_ne _ hb]
      have hmem : 0 ∈ b :: bytes ↔ 0 ∈ bytes := by simp [Ne.symm hb]
      simp only [hmem]
      split <;> rfl

theorem strlen_eq_none_iff {bytes : List UInt8} : strlen bytes = none ↔ 0 ∉ bytes := by
  rw [strlen_eq]
  split <;> simp_all

/-- A string with its terminator and what follows. -/
theorem idxOf_terminator {s : List UInt8} (bytes : List UInt8) (h : 0 ∉ s) :
    (s ++ 0 :: bytes).idxOf 0 = s.length := by
  rw [List.idxOf_append_of_notMem h, List.idxOf_cons_self, Nat.add_zero]

/-- The bytes up to the first zero and that zero. -/
theorem take_terminator {bytes : List UInt8} (h : 0 ∈ bytes) :
    bytes.take (bytes.idxOf 0 + 1) = bytes.take (bytes.idxOf 0) ++ [0] := by
  have hlt := List.idxOf_lt_length_iff.mpr h
  rw [List.take_succ_eq_append_getElem hlt, List.getElem_idxOf hlt]

theorem notMem_take_idxOf (bytes : List UInt8) : 0 ∉ bytes.take (bytes.idxOf 0) := by
  induction bytes with
  | nil => simp
  | cons b bytes ih =>
    by_cases hb : b = 0
    · subst hb
      simp
    · rw [List.idxOf_cons_ne _ hb, List.take_succ_cons]
      simp [Ne.symm hb, ih]

/-! ### Numbers -/

/-- `%u`. -/
def decimal (n : Nat) : CStr :=
  if n = 0 then [48] else (Nat.digits 10 n).reverse.map fun d => UInt8.ofNat (48 + d)

/-- The number that digits stand for. -/
def ofDecimal (s : CStr) : Nat := Nat.ofDigits 10 (s.reverse.map fun b => b.toNat - 48)

theorem ofDecimal_decimal (n : Nat) : ofDecimal (decimal n) = n := by
  unfold decimal
  split
  · next hn => rw [hn]; rfl
  · have hback : (Nat.digits 10 n).map (fun d => (UInt8.ofNat (48 + d)).toNat - 48) =
        Nat.digits 10 n := by
      rw [← List.map_id (Nat.digits 10 n), List.map_map]
      apply List.map_congr_left
      intro d hd
      show (UInt8.ofNat (48 + d)).toNat - 48 = d
      have hlt := Nat.digits_lt_base (by decide) hd
      rw [UInt8.toNat_ofNat']
      omega
    rw [ofDecimal, ← List.map_reverse, List.reverse_reverse, List.map_map]
    exact (congrArg (Nat.ofDigits 10) hback).trans (Nat.ofDigits_digits 10 n)

theorem decimal_injective : Function.Injective decimal :=
  Function.LeftInverse.injective ofDecimal_decimal

/-- `%d`. -/
def formatInt : Int → CStr
  | .ofNat n => decimal n
  | .negSucc n => 45 :: decimal (n + 1)

theorem formatInt_inj {i j : Int} (hi : 0 ≤ i) (hj : 0 ≤ j) (h : formatInt i = formatInt j) :
    i = j := by
  obtain ⟨m, rfl⟩ := Int.eq_ofNat_of_zero_le hi
  obtain ⟨n, rfl⟩ := Int.eq_ofNat_of_zero_le hj
  exact congrArg Int.ofNat (decimal_injective h)

end Hcrtos.CString
