import Mathlib.Data.List.TakeDrop
import Mathlib.Data.List.TakeWhile
import Mathlib.Logic.Function.Basic

/-!
# Strings in a buffer of fixed size

A buffer is written byte by byte, and an access outside of it gives `none`. A buffer holds a
text when it has its bytes and zeros behind them.

## Key results

- `moveDown_eq`, `moveUp_eq`, `write_eq`: what the loops over the bytes do
- `Holds.append`, `Holds.pop`, `Holds.insert`, `Holds.delete`, `Holds.cut`, `Holds.replace`:
  the text that a buffer holds after it was edited
-/

namespace Hcrtos.StringBuffer

/-- The bytes of a buffer, by index. -/
abbrev Buffer := Nat → UInt8

variable (size : Nat)

/-- `b[i]`. -/
def load (b : Buffer) (i : Nat) : Option UInt8 := if i < size then some (b i) else none

/-- `b[i] = v`. -/
def store (b : Buffer) (i : Nat) (v : UInt8) : Option Buffer :=
  if i < size then some (Function.update b i v) else none

/-- `b[j] = b[j + 1]` for the `n` indices `j` from `i` on, upwards. -/
def moveDown (b : Buffer) (i : Nat) : Nat → Option Buffer
  | 0 => some b
  | n + 1 => (load size b (i + 1)).bind fun v => (store size b i v).bind fun b =>
      moveDown b (i + 1) n

/-- `b[j + 1] = b[j]` for the `n` indices `j` from `i` on, downwards. -/
def moveUp (b : Buffer) (i : Nat) : Nat → Option Buffer
  | 0 => some b
  | n + 1 => (load size b (i + n)).bind fun v => (store size b (i + n + 1) v).bind fun b =>
      moveUp b i n

/-- The bytes `vs` are stored from `i` on. -/
def write (b : Buffer) (i : Nat) : List UInt8 → Option Buffer
  | [] => some b
  | v :: vs => (store size b i v).bind fun b => write b (i + 1) vs

/-- What a string function sees of some bytes: those before the first NUL. -/
def cstr (bytes : List UInt8) : List UInt8 := bytes.takeWhile (· ≠ 0)

/-- The first `n` bytes of the buffer. -/
def content (b : Buffer) (n : Nat) : List UInt8 := (List.range n).map b

/-- The string at `i`, if it ends inside the buffer. -/
def stringAt (b : Buffer) (i : Nat) : Option (List UInt8) :=
  if (List.range' i (size - i)).any (b · = 0) then
    some (cstr ((List.range' i (size - i)).map b))
  else none

variable {size} {b b' : Buffer} {i n : Nat} {v : UInt8} {text : List UInt8}

/-! ### The loops -/

theorem moveDown_eq (h : i + n < size) : moveDown size b i n = some fun j =>
    if i ≤ j ∧ j < i + n then b (j + 1) else b j := by
  induction n generalizing b i with
  | zero =>
    rw [moveDown, Option.some.injEq]
    funext j
    rw [if_neg (by omega)]
  | succ n ih =>
    rw [moveDown, load, if_pos (by omega), Option.bind_some, store, if_pos (by omega),
      Option.bind_some, ih (by omega), Option.some.injEq]
    funext j
    by_cases hj : j = i
    · subst hj
      rw [if_neg (by omega), if_pos (by omega), Function.update_self]
    · by_cases hin : i + 1 ≤ j ∧ j < i + 1 + n
      · -- the byte behind `j` is moved before it is overwritten
        rw [if_pos hin, if_pos (by omega), Function.update_of_ne (by omega)]
      · rw [if_neg hin, if_neg (by omega), Function.update_of_ne hj]

theorem moveDown_eq_none (hn : n ≠ 0) (h : size ≤ i + n) : moveDown size b i n = none := by
  induction n generalizing b i with
  | zero => contradiction
  | succ n ih =>
    rw [moveDown, load]
    by_cases hi : i + 1 < size
    · rw [if_pos hi, Option.bind_some, store, if_pos (by omega), Option.bind_some]
      exact ih (by omega) (by omega)
    · rw [if_neg hi, Option.bind_none]

theorem moveUp_eq (h : i + n < size) : moveUp size b i n = some fun j =>
    if i < j ∧ j ≤ i + n then b (j - 1) else b j := by
  induction n generalizing b with
  | zero =>
    rw [moveUp, Option.some.injEq]
    funext j
    rw [if_neg (by omega)]
  | succ n ih =>
    rw [moveUp, load, if_pos (by omega), Option.bind_some, store, if_pos (by omega),
      Option.bind_some, ih (by omega), Option.some.injEq]
    funext j
    by_cases hj : j = i + n + 1
    · subst hj
      rw [if_neg (by omega), if_pos (by omega), Function.update_self]
      rfl
    · by_cases hin : i < j ∧ j ≤ i + n
      · rw [if_pos hin, if_pos (by omega), Function.update_of_ne (by omega)]
      · rw [if_neg hin, if_neg (by omega), Function.update_of_ne hj]

theorem write_eq {vs : List UInt8} (h : i + vs.length ≤ size) : write size b i vs = some fun j =>
    if i ≤ j ∧ j < i + vs.length then vs[j - i]?.getD 0 else b j := by
  induction vs generalizing b i with
  | nil =>
    rw [write, Option.some.injEq]
    funext j
    rw [if_neg (by simp)]
  | cons v vs ih =>
    rw [List.length_cons] at h ⊢
    rw [write, store, if_pos (by omega), Option.bind_some, ih (by omega), Option.some.injEq]
    funext j
    by_cases hj : j = i
    · subst hj
      rw [if_neg (by omega), if_pos (by omega), Function.update_self]
      simp
    · by_cases hin : i + 1 ≤ j ∧ j < i + 1 + vs.length
      · rw [if_pos hin, if_pos (by omega), show j - i = j - (i + 1) + 1 by omega,
          List.getElem?_cons_succ]
      · rw [if_neg hin, if_neg (by omega), Function.update_of_ne hj]

theorem write_eq_none {vs : List UInt8} (hvs : vs ≠ []) (h : size < i + vs.length) :
    write size b i vs = none := by
  induction vs generalizing b i with
  | nil => contradiction
  | cons v vs ih =>
    rw [List.length_cons] at h
    rw [write, store]
    by_cases hi : i < size
    · rw [if_pos hi, Option.bind_some]
      apply ih _ (by omega)
      rintro rfl
      simp only [List.length_nil] at h
      omega
    · rw [if_neg hi, Option.bind_none]

theorem write_append (vs ws : List UInt8) : write size b i (vs ++ ws) =
    (write size b i vs).bind fun b => write size b (i + vs.length) ws := by
  induction vs generalizing b i with
  | nil => rfl
  | cons v vs ih =>
    simp only [List.cons_append, write, List.length_cons, Option.bind_assoc]
    congr 1
    funext b
    rw [ih, show i + 1 + vs.length = i + (vs.length + 1) by omega]

/-- A terminator that is overwritten at once might as well not have been written. -/
theorem write_terminated_store (vs : List UInt8) (u v : UInt8) :
    ((write size b i (vs ++ [u])).bind fun b => store size b (i + vs.length) v) =
      write size b i (vs ++ [v]) := by
  simp only [write_append, Option.bind_assoc]
  congr 1
  funext b
  simp only [write, store]
  split
  · rename_i hlt
    simp
  · rfl

/-! ### The text that a buffer holds -/

/-- The buffer has the bytes of the text, which are not NUL, and zeros behind them. -/
structure Holds (size : Nat) (b : Buffer) (text : List UInt8) : Prop where
  short : text.length < size
  nonzero : ∀ v ∈ text, v ≠ 0
  bytes : ∀ i < size, b i = text[i]?.getD 0

theorem Holds.zero (h : Holds size b text) : b text.length = 0 := by
  rw [h.bytes _ h.short]
  simp

theorem Holds.content (h : Holds size b text) : content b text.length = text := by
  apply List.ext_getElem
  · simp [StringBuffer.content]
  · intro i hi hi'
    have := h.bytes i (by have := h.short; omega)
    simp [StringBuffer.content, this, hi']

theorem cstr_append_zero {rest : List UInt8} (h : ∀ v ∈ text, v ≠ 0) :
    cstr (text ++ 0 :: rest) = text := by
  rw [cstr, List.takeWhile_append_of_pos (by simpa using h)]
  simp

theorem cstr_eq_self (h : ∀ v ∈ text, v ≠ 0) : cstr text = text := by
  rw [cstr, List.takeWhile_eq_self_iff]
  simpa using h

theorem ne_zero_of_mem_cstr (h : v ∈ cstr text) : v ≠ 0 := by
  simpa using List.mem_takeWhile_imp h

/-- The string at an index of the text is what follows there. -/
theorem Holds.stringAt (h : Holds size b text) (hi : i ≤ text.length) :
    stringAt size b i = some (text.drop i) := by
  have hshort := h.short
  have hmap : (List.range' i (size - i)).map b =
      text.drop i ++ 0 :: List.replicate (size - text.length - 1) 0 := by
    apply List.ext_getElem
    · simp
      omega
    · intro j hj hj'
      simp only [List.length_map, List.length_range'] at hj
      rw [List.getElem_map, List.getElem_range', h.bytes _ (by omega), List.getElem_append]
      split
      · rename_i hlt
        simp only [List.length_drop] at hlt
        simp only [Nat.one_mul, List.getElem_drop]
        rw [List.getElem?_eq_getElem (by omega), Option.getD_some]
      · rename_i hge
        simp only [List.length_drop] at hge
        rw [List.getElem?_eq_none (by omega), List.getElem_cons]
        split <;> simp
  have hany : (List.range' i (size - i)).any (b · = 0) = true := by
    rw [List.any_eq_true]
    exact ⟨text.length, by rw [List.mem_range'_1]; omega, by simpa using h.zero⟩
  rw [StringBuffer.stringAt, if_pos hany, hmap,
    cstr_append_zero fun v hv => h.nonzero v (List.mem_of_mem_drop hv)]

theorem holds_zero (hsize : 0 < size) : Holds size (fun _ => 0) [] :=
  ⟨hsize, by simp, by simp⟩

/-- A byte is appended. -/
theorem Holds.append (h : Holds size b text) (hv : v ≠ 0) (hroom : text.length + 1 < size) :
    ∃ b', store size b text.length v = some b' ∧ Holds size b' (text ++ [v]) := by
  refine ⟨_, if_pos h.short, by simpa using hroom, ?_, ?_⟩
  · intro x hx
    cases List.mem_append.mp hx with
    | inl hx => exact h.nonzero x hx
    | inr hx =>
      obtain rfl : x = v := by simpa using hx
      exact hv
  · intro i hi
    by_cases hlen : i = text.length
    · subst hlen
      simp
    · rw [Function.update_of_ne hlen, h.bytes i hi]
      by_cases hlt : i < text.length
      · rw [List.getElem?_append_left hlt]
      · rw [List.getElem?_eq_none (by omega), List.getElem?_eq_none (by simp; omega)]

/-- The end of the text from `k` on is cleared. -/
theorem Holds.cut (h : Holds size b text) {k : Nat} (hk : k ≤ text.length) :
    ∃ b', write size b k (List.replicate (text.length - k) 0) = some b' ∧
      Holds size b' (text.take k) := by
  have hshort := h.short
  refine ⟨_, write_eq (by simp; omega), by simp; omega,
    fun v hv => h.nonzero v (List.mem_of_mem_take hv), ?_⟩
  intro i hi
  simp only [List.length_replicate]
  by_cases hin : k ≤ i ∧ i < k + (text.length - k)
  · rw [if_pos hin, List.getElem?_eq_none (l := text.take k) (by simp; omega),
      List.getElem?_replicate]
    split <;> rfl
  · rw [if_neg hin, h.bytes i hi]
    by_cases hlt : i < k
    · rw [List.getElem?_take_of_lt hlt]
    · rw [List.getElem?_eq_none (by omega), List.getElem?_eq_none (by simp; omega)]

/-- The last byte is cleared. -/
theorem Holds.pop (h : Holds size b text) (hne : text ≠ []) :
    ∃ b', store size b (text.length - 1) 0 = some b' ∧
      Holds size b' (text.take (text.length - 1)) := by
  have hpos := List.length_pos_iff.mpr hne
  obtain ⟨b', hb', hholds⟩ := h.cut (k := text.length - 1) (by omega)
  refine ⟨b', ?_, hholds⟩
  rw [show text.length - (text.length - 1) = 1 by omega] at hb'
  simpa [write] using hb'

/-- The byte at `k` is taken out by moving the rest of the text and its terminator down. -/
theorem Holds.delete (h : Holds size b text) {k : Nat} (hk : k < text.length)
    (hroom : text.length + 1 < size) :
    ∃ b', moveDown size b k (text.length + 1 - k) = some b' ∧
      Holds size b' (text.take k ++ text.drop (k + 1)) := by
  refine ⟨_, moveDown_eq (by omega), by simp; omega, ?_, ?_⟩
  · intro v hv
    cases List.mem_append.mp hv with
    | inl hv => exact h.nonzero v (List.mem_of_mem_take hv)
    | inr hv => exact h.nonzero v (List.mem_of_mem_drop hv)
  · intro i hi
    by_cases hlt : i < k
    · rw [if_neg (by omega), h.bytes i hi, List.getElem?_append_left (by simp; omega),
        List.getElem?_take_of_lt hlt]
    · have hlen : (text.take k).length = k := List.length_take_of_le (by omega)
      rw [List.getElem?_append_right (by omega), List.getElem?_drop, hlen,
        show k + 1 + (i - k) = i + 1 by omega]
      by_cases hin : i < k + (text.length + 1 - k)
      · rw [if_pos ⟨by omega, hin⟩, h.bytes _ (by omega)]
      · rw [if_neg (by omega), h.bytes i hi, List.getElem?_eq_none (by omega),
          List.getElem?_eq_none (by omega)]

/-- The byte `v` is put in at `k` after the rest of the text and its terminator were moved
    up. -/
theorem Holds.insert (h : Holds size b text) {k : Nat} (hk : k ≤ text.length) (hv : v ≠ 0)
    (hroom : text.length + 1 < size) :
    ∃ b₁ b', moveUp size b k (text.length + 1 - k) = some b₁ ∧ store size b₁ k v = some b' ∧
      Holds size b' (text.take k ++ v :: text.drop k) := by
  refine ⟨_, _, moveUp_eq (by omega), if_pos (by omega), by simp; omega, ?_, ?_⟩
  · intro x hx
    cases List.mem_append.mp hx with
    | inl hx => exact h.nonzero x (List.mem_of_mem_take hx)
    | inr hx =>
      cases List.mem_cons.mp hx with
      | inl hx => exact hx ▸ hv
      | inr hx => exact h.nonzero x (List.mem_of_mem_drop hx)
  · intro i hi
    have hlen : (text.take k).length = k := List.length_take_of_le hk
    by_cases hik : i = k
    · subst hik
      rw [Function.update_self, List.getElem?_append_right (by omega), hlen, Nat.sub_self]
      rfl
    · rw [Function.update_of_ne hik]
      by_cases hlt : i < k
      · rw [if_neg (by omega), h.bytes i hi, List.getElem?_append_left (by omega),
          List.getElem?_take_of_lt hlt]
      · rw [List.getElem?_append_right (by omega), hlen,
          show i - k = (i - 1 - k) + 1 by omega, List.getElem?_cons_succ, List.getElem?_drop,
          show k + (i - 1 - k) = i - 1 by omega]
        by_cases hin : i ≤ k + (text.length + 1 - k)
        · rw [if_pos ⟨by omega, hin⟩, h.bytes _ (by omega)]
        · rw [if_neg (by omega), h.bytes i hi, List.getElem?_eq_none (by omega),
            List.getElem?_eq_none (by omega)]

/-- A text is written over an empty one, with zeros behind it. -/
theorem Holds.fill (h : Holds size b []) (new : List UInt8) (pad : Nat)
    (hnew : ∀ v ∈ new, v ≠ 0) (hshort : new.length < size) (hpad : new.length + pad ≤ size) :
    ∃ b', write size b 0 (new ++ List.replicate pad 0) = some b' ∧ Holds size b' new := by
  refine ⟨_, write_eq (by simpa using hpad), hshort, hnew, ?_⟩
  intro i hi
  simp only [List.length_append, List.length_replicate, Nat.zero_le, Nat.zero_add, true_and,
    Nat.sub_zero]
  split
  · by_cases hlt : i < new.length
    · rw [List.getElem?_append_left hlt]
    · rw [List.getElem?_append_right (by omega), List.getElem?_replicate,
        List.getElem?_eq_none (l := new) (by omega)]
      split <;> rfl
  · rw [h.bytes i hi, List.getElem?_eq_none (by simp), List.getElem?_eq_none (by omega)]

/-- The text from `k` on is replaced by a text that reaches at least as far. -/
theorem Holds.replace (h : Holds size b text) (k : Nat) (new : List UInt8)
    (hk : k ≤ text.length) (hnew : ∀ v ∈ new, v ≠ 0) (hreach : text.length ≤ k + new.length)
    (hroom : k + new.length < size) :
    ∃ b', write size b k new = some b' ∧ Holds size b' (text.take k ++ new) := by
  have hlen : (text.take k).length = k := List.length_take_of_le hk
  refine ⟨_, write_eq (by omega), by rw [List.length_append, hlen]; exact hroom, ?_, ?_⟩
  · intro v hv
    cases List.mem_append.mp hv with
    | inl hv => exact h.nonzero v (List.mem_of_mem_take hv)
    | inr hv => exact hnew v hv
  · intro i hi
    by_cases hin : k ≤ i ∧ i < k + new.length
    · rw [if_pos hin, List.getElem?_append_right (by omega), hlen]
    · rw [if_neg hin, h.bytes i hi]
      by_cases hlt : i < k
      · rw [List.getElem?_append_left (by omega), List.getElem?_take_of_lt hlt]
      · rw [List.getElem?_eq_none (by omega), List.getElem?_eq_none (by simp; omega)]

end Hcrtos.StringBuffer
