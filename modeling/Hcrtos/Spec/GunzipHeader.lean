import Mathlib.Data.List.GetD
import Hcrtos.Native.Gunzip

/-!
# The header that is found

The fields follow each other, so each one ends where its contents say, from the end of the one
before. `gzip_parse_header` finds these ends as long as the strings are terminated in the bytes
given. It does not look at the first two bytes, and it takes a header with nothing after it for an
incomplete one.

## Key results

- `gzip_parse_header_eq`: what is read and returned
- `Header.ends`: where a header that begins the bytes ends
- `begins_iff`: the bytes that begin with a header
- `parsesHeader_iff`: the bytes for which the result is right
- `parsesHeader_fails`: some for which it is not
-/

namespace Hcrtos.Native.Gunzip

open CString

/-! ### The ends of the fields -/

section Ends

variable (src : List UInt8)

def headerFlags : UInt8 := src.getD 3 0

/-- A field is announced. -/
def Flagged (flag : UInt8) : Prop := headerFlags src &&& flag ≠ 0

instance (flag : UInt8) : Decidable (Flagged src flag) := inferInstanceAs (Decidable (_ ≠ _))

def extraLength : Nat := (src.getD 10 0).toNat + (src.getD 11 0).toNat * 256

def extraEnd : Nat := if Flagged src EXTRA_FIELD then 12 + extraLength src else 10

/-- The end of a string that begins at `i`, if it is announced. -/
def stringEnd (flag : UInt8) (i : Nat) : Nat :=
  if Flagged src flag then i + (src.drop i).idxOf 0 + 1 else i

def nameEnd : Nat := stringEnd src ORIG_NAME (extraEnd src)

def commentEnd : Nat := stringEnd src COMMENT (nameEnd src)

def headerEnd : Nat := if Flagged src HEAD_CRC then commentEnd src + 2 else commentEnd src

/-- The method and the flags are the ones that are known. -/
def Accepted : Prop := src.getD 2 0 = DEFLATED ∧ ¬ Flagged src RESERVED

/-- The bytes of `gzip`. -/
def Marked : Prop := src.getD 0 0 = HEADER0 ∧ src.getD 1 0 = HEADER1

/-- The length of the extra field and the terminators of the strings are there, of those that
    are announced. -/
structure Terminated : Prop where
  extra : Flagged src EXTRA_FIELD → 12 ≤ src.length
  name : Flagged src ORIG_NAME → 0 ∈ src.drop (extraEnd src)
  comment : Flagged src COMMENT → 0 ∈ src.drop (nameEnd src)

instance : Decidable (Accepted src) := inferInstanceAs (Decidable (_ ∧ _))

instance : Decidable (Marked src) := inferInstanceAs (Decidable (_ ∧ _))

instance : Decidable (Terminated src) :=
  decidable_of_iff ((Flagged src EXTRA_FIELD → 12 ≤ src.length) ∧
      (Flagged src ORIG_NAME → 0 ∈ src.drop (extraEnd src)) ∧
      (Flagged src COMMENT → 0 ∈ src.drop (nameEnd src)))
    ⟨fun h => ⟨h.1, h.2.1, h.2.2⟩, fun h => ⟨h.extra, h.name, h.comment⟩⟩

end Ends

/-! ### The result -/

section Result

variable {src : List UInt8}

theorem skipExtra_eq :
    skipExtra src (headerFlags src &&& EXTRA_FIELD ≠ 0) =
      if Flagged src EXTRA_FIELD → 12 ≤ src.length then some (extraEnd src) else none := by
  unfold skipExtra extraEnd extraLength
  by_cases hflag : Flagged src EXTRA_FIELD
  · have hset : (decide (headerFlags src &&& EXTRA_FIELD ≠ 0)) = true := decide_eq_true hflag
    rw [if_pos hset, if_pos hflag]
    by_cases hlen : 12 ≤ src.length
    · rw [if_pos fun _ => hlen, List.getElem?_eq_getElem (by omega),
        List.getElem?_eq_getElem (by omega)]
      simp only [List.getD_eq_getElem?_getD]
      rw [List.getElem?_eq_getElem (by omega), List.getElem?_eq_getElem (by omega)]
      simp [Nat.shiftLeft_eq, Nat.add_assoc]
    · rw [if_neg fun h => hlen (h hflag), List.getElem?_eq_none (i := 11) (by omega)]
      cases src[10]? <;> rfl
  · have hset : (decide (headerFlags src &&& EXTRA_FIELD ≠ 0)) = false := decide_eq_false hflag
    rw [if_neg (by simp [hset]), if_neg hflag, if_pos fun h => absurd h hflag]

theorem skipString_eq (flag : UInt8) (i : Nat) :
    skipString src (headerFlags src &&& flag ≠ 0) i =
      if Flagged src flag → 0 ∈ src.drop i then some (stringEnd src flag i) else none := by
  unfold skipString stringEnd
  by_cases hflag : Flagged src flag
  · have hset : (decide (headerFlags src &&& flag ≠ 0)) = true := decide_eq_true hflag
    rw [if_pos hset, if_pos hflag, strlen_eq]
    by_cases hzero : 0 ∈ src.drop i
    · rw [if_pos hzero, if_pos fun _ => hzero]
      rfl
    · rw [if_neg hzero, if_neg fun h => hzero (h hflag)]
      rfl
  · have hset : (decide (headerFlags src &&& flag ≠ 0)) = false := decide_eq_false hflag
    rw [if_neg (by simp [hset]), if_neg hflag, if_pos fun h => absurd h hflag]

/-- What is read, and what is returned. -/
theorem gzip_parse_header_eq :
    gzip_parse_header src =
      if src.length < 4 then none
      else if ¬ Accepted src then some (-1)
      else if ¬ Terminated src then none
      else if src.length ≤ headerEnd src then some (-1) else some (headerEnd src : Int) := by
  unfold gzip_parse_header
  -- the cases follow the order in which the bytes are read
  by_cases hlen : src.length < 4
  · rw [if_pos hlen, List.getElem?_eq_none (by omega)]
    rfl
  have hflags : src[3]? = some (headerFlags src) := by
    rw [headerFlags, List.getD_eq_getElem?_getD, List.getElem?_eq_getElem (by omega)]
    rfl
  have hmethod : src[2]? = some (src.getD 2 0) := by
    rw [List.getD_eq_getElem?_getD, List.getElem?_eq_getElem (by omega)]
    rfl
  rw [if_neg hlen, hflags, hmethod]
  simp only [Option.bind_eq_bind, Option.bind_some]
  by_cases hacc : Accepted src
  · have hgood : ¬ (src.getD 2 0 ≠ DEFLATED ∨ headerFlags src &&& RESERVED ≠ 0) := fun h =>
      h.elim (fun hne => hne hacc.1) hacc.2
    rw [if_neg hgood, if_neg (not_not_intro hacc), skipExtra_eq]
    by_cases hextra : Flagged src EXTRA_FIELD → 12 ≤ src.length
    · rw [if_pos hextra, Option.bind_some, skipString_eq]
      by_cases hname : Flagged src ORIG_NAME → 0 ∈ src.drop (extraEnd src)
      · rw [if_pos hname, Option.bind_some,
          show stringEnd src ORIG_NAME (extraEnd src) = nameEnd src from rfl, skipString_eq]
        by_cases hcomment : Flagged src COMMENT → 0 ∈ src.drop (nameEnd src)
        · have hterm : Terminated src := ⟨hextra, hname, hcomment⟩
          rw [if_pos hcomment, Option.bind_some, if_neg (show ¬ ¬ Terminated src from
            not_not_intro hterm)]
          rfl
        · rw [if_neg hcomment, if_pos fun h : Terminated src => hcomment h.comment]
          rfl
      · rw [if_neg hname, if_pos fun h : Terminated src => hname h.name]
        rfl
    · rw [if_neg hextra, if_pos fun h : Terminated src => hextra h.extra]
      rfl
  · have hbad : src.getD 2 0 ≠ DEFLATED ∨ headerFlags src &&& RESERVED ≠ 0 := by
      by_cases hdeflated : src.getD 2 0 = DEFLATED
      · exact .inr fun h => hacc ⟨hdeflated, fun hflag => hflag h⟩
      · exact .inl hdeflated
    rw [if_pos hbad, if_pos hacc]

end Result

/-! ### A header that begins the bytes -/

section Begins

variable {src : List UInt8}

theorem stringEnd_of_drop {flag : UInt8} {i : Nat} {s : Option (List UInt8)} {rest : List UInt8}
    (hdrop : src.drop i = stringBytes s ++ rest) (hflag : s.isSome = true ↔ Flagged src flag)
    (hnonzero : ∀ x ∈ s, 0 ∉ x) :
    stringEnd src flag i = i + (stringBytes s).length ∧ (Flagged src flag → 0 ∈ src.drop i) ∧
      src.drop (stringEnd src flag i) = rest := by
  -- an absent string has no bytes, and a present one ends at its first zero
  have hrest : src.drop (i + (stringBytes s).length) = rest := by
    rw [← List.drop_drop, hdrop, List.drop_left]
  unfold stringEnd
  cases s with
  | none =>
    have hnot : ¬ Flagged src flag := fun h => Bool.false_ne_true (hflag.mpr h)
    rw [if_neg hnot]
    exact ⟨rfl, fun h => absurd h hnot, hrest⟩
  | some s =>
    have hset : Flagged src flag := hflag.mp rfl
    have hbytes : src.drop i = s ++ 0 :: rest := by
      rw [hdrop]
      simp [stringBytes]
    have hend : i + (src.drop i).idxOf 0 + 1 = i + (stringBytes (some s)).length := by
      rw [hbytes, idxOf_terminator rest (hnonzero s rfl)]
      simp [stringBytes, Nat.add_assoc]
    rw [if_pos hset, hend]
    exact ⟨rfl, fun _ => by simp [hbytes], hrest⟩

theorem extraEnd_of_drop {e : Option (List UInt8)} {rest : List UInt8}
    (hdrop : src.drop 10 = extraBytes e ++ rest) (hflag : e.isSome = true ↔ Flagged src EXTRA_FIELD)
    (hlength : ∀ x ∈ e, x.length < 2 ^ 16) :
    extraEnd src = 10 + (extraBytes e).length ∧ (Flagged src EXTRA_FIELD → 12 ≤ src.length) ∧
      src.drop (extraEnd src) = rest := by
  have hrest : src.drop (10 + (extraBytes e).length) = rest := by
    rw [← List.drop_drop, hdrop, List.drop_left]
  unfold extraEnd
  cases e with
  | none =>
    have hnot : ¬ Flagged src EXTRA_FIELD := fun h => Bool.false_ne_true (hflag.mpr h)
    rw [if_neg hnot]
    exact ⟨rfl, fun h => absurd h hnot, hrest⟩
  | some e =>
    have hset : Flagged src EXTRA_FIELD := hflag.mp rfl
    have hlt := hlength e rfl
    have hget : ∀ i, src.getD (10 + i) 0 = (extraBytes (some e) ++ rest).getD i 0 := by
      intro i
      rw [List.getD_eq_getElem?_getD, List.getD_eq_getElem?_getD, ← hdrop, List.getElem?_drop]
    have hextra : extraLength src = e.length := by
      unfold extraLength
      rw [hget 0, hget 1]
      simp [extraBytes]
      omega
    have hlen : (src.drop 10).length = (extraBytes (some e) ++ rest).length := by rw [hdrop]
    have hend : 12 + extraLength src = 10 + (extraBytes (some e)).length := by
      rw [hextra]
      simp [extraBytes]
      omega
    rw [if_pos hset, hend]
    refine ⟨rfl, fun _ => ?_, hrest⟩
    simp [extraBytes] at hlen
    omega

/-- A header that begins the bytes ends where its fields say. -/
theorem Header.ends (h : Header) (hpre : h.encode <+: src) :
    Marked src ∧ Accepted src ∧ Terminated src ∧ headerEnd src = h.encode.length := by
  obtain ⟨rest, rfl⟩ := hpre
  have hfixed : ([HEADER0, HEADER1, DEFLATED, h.flags] ++ h.info).length = 10 := by
    simp [h.info_length]
  have hflags : headerFlags (h.encode ++ rest) = h.flags := by simp [headerFlags, Header.encode]
  have hflagged : ∀ flag, Flagged (h.encode ++ rest) flag ↔ h.flags &&& flag ≠ 0 := by
    intro flag
    rw [Flagged, hflags]
  have hdrop : (h.encode ++ rest).drop 10 = extraBytes h.extra ++ (stringBytes h.name ++
      (stringBytes h.comment ++ (h.crc.getD [] ++ rest))) := by
    rw [Header.encode, ← hfixed]
    simp only [List.append_assoc, List.drop_append]
    simp
  obtain ⟨hextra, hextra', hname⟩ := extraEnd_of_drop hdrop
    (h.extra_isSome.trans (hflagged _).symm) h.extra_length
  obtain ⟨hnameEnd, hname', hcomment⟩ := stringEnd_of_drop hname
    (h.name_isSome.trans (hflagged _).symm) h.name_nonzero
  obtain ⟨hcommentEnd, hcomment', hcrc⟩ := stringEnd_of_drop hcomment
    (h.comment_isSome.trans (hflagged _).symm) h.comment_nonzero
  have hheader : headerEnd (h.encode ++ rest) =
      commentEnd (h.encode ++ rest) + (h.crc.getD []).length := by
    unfold headerEnd
    cases hopt : h.crc with
    | none =>
      have hnot : ¬ Flagged (h.encode ++ rest) HEAD_CRC := fun hset => by
        have hsome := h.crc_isSome.mpr ((hflagged _).mp hset)
        rw [hopt] at hsome
        exact Bool.false_ne_true hsome
      rw [if_neg hnot]
      rfl
    | some c =>
      have hset : Flagged (h.encode ++ rest) HEAD_CRC :=
        (hflagged _).mpr (h.crc_isSome.mp (by rw [hopt]; rfl))
      rw [if_pos hset, Option.getD_some, h.crc_length c hopt]
  refine ⟨⟨by simp [Header.encode], by simp [Header.encode]⟩, ⟨by simp [Header.encode], ?_⟩,
    ⟨hextra', hname', hcomment'⟩, ?_⟩
  · rw [hflagged]
    exact not_not_intro h.reserved
  · rw [hheader, show commentEnd _ = _ from hcommentEnd,
      show stringEnd _ ORIG_NAME _ = _ from hnameEnd, hextra]
    simp [Header.encode, h.info_length]
    omega

/-- The fields of the bytes, as far as they are announced. -/
def fieldAt (src : List UInt8) (flag : UInt8) (start length : Nat) : Option (List UInt8) :=
  if Flagged src flag then some ((src.drop start).take length) else none

theorem fieldAt_isSome (flag : UInt8) (start length : Nat) :
    (fieldAt src flag start length).isSome = true ↔ headerFlags src &&& flag ≠ 0 := by
  unfold fieldAt
  split
  case isTrue h => exact iff_of_true rfl h
  case isFalse h => exact iff_of_false Bool.false_ne_true h

theorem mem_fieldAt {flag : UInt8} {start length : Nat} {x : List UInt8}
    (h : x ∈ fieldAt src flag start length) :
    Flagged src flag ∧ x = (src.drop start).take length := by
  obtain ⟨hset, heq⟩ := Option.ite_none_right_eq_some.mp h
  exact ⟨hset, (Option.some.inj heq).symm⟩

/-- A string up to its terminator. -/
def stringAt (src : List UInt8) (flag : UInt8) (start : Nat) : Option (List UInt8) :=
  fieldAt src flag start ((src.drop start).idxOf 0)

theorem stringAt_nonzero (flag : UInt8) (start : Nat) :
    ∀ x ∈ stringAt src flag start, 0 ∉ x := by
  intro x hx
  rw [(mem_fieldAt hx).2]
  exact notMem_take_idxOf _

/-- The bytes of a string are those up to its end. -/
theorem stringBytes_stringAt {flag : UInt8} {start : Nat}
    (h : Flagged src flag → 0 ∈ src.drop start) :
    stringBytes (stringAt src flag start) =
      (src.drop start).take (stringEnd src flag start - start) := by
  unfold stringAt fieldAt stringEnd
  by_cases hset : Flagged src flag
  · rw [if_pos hset, if_pos hset, Nat.add_assoc, Nat.add_sub_cancel_left,
      take_terminator (h hset)]
    rfl
  · rw [if_neg hset, if_neg hset, Nat.sub_self, List.take_zero]
    rfl

theorem le_stringEnd (flag : UInt8) (start : Nat) : start ≤ stringEnd src flag start := by
  unfold stringEnd
  split <;> omega

theorem le_extraEnd (src : List UInt8) : 10 ≤ extraEnd src := by
  unfold extraEnd
  split <;> omega

theorem extraLength_lt (src : List UInt8) : extraLength src < 2 ^ 16 := by
  have hlo := (src.getD 10 0).toNat_lt
  have hhi := (src.getD 11 0).toNat_lt
  unfold extraLength
  omega

theorem commentEnd_le (src : List UInt8) : commentEnd src ≤ headerEnd src := by
  unfold headerEnd
  split <;> omega

/-- The ends are in order. -/
theorem ends_le (src : List UInt8) :
    extraEnd src ≤ nameEnd src ∧ nameEnd src ≤ commentEnd src ∧
      commentEnd src ≤ headerEnd src :=
  ⟨le_stringEnd _ _, le_stringEnd _ _, commentEnd_le src⟩

/-- The extra field is there up to its end. -/
theorem extraBytes_fieldAt (h : extraEnd src ≤ src.length) :
    extraBytes (fieldAt src EXTRA_FIELD 12 (extraLength src)) =
      (src.drop 10).take (extraEnd src - 10) := by
  unfold fieldAt
  unfold extraEnd at h ⊢
  by_cases hset : Flagged src EXTRA_FIELD
  · rw [if_pos hset] at h
    rw [if_pos hset, if_pos hset]
    have hlo := (src.getD 10 0).toNat_lt
    have hlength : ((src.drop 12).take (extraLength src)).length = extraLength src := by
      rw [List.length_take, List.length_drop]
      omega
    have htwo : src.drop 10 = src.getD 10 0 :: src.getD 11 0 :: src.drop 12 := by
      rw [List.getD_eq_getElem _ _ (by omega), List.getD_eq_getElem _ _ (by omega),
        ← List.drop_eq_getElem_cons (by omega), ← List.drop_eq_getElem_cons (by omega)]
    have hfirst : UInt8.ofNat (extraLength src) = src.getD 10 0 := by
      rw [← UInt8.toNat_inj, UInt8.toNat_ofNat']
      unfold extraLength
      omega
    have hsecond : UInt8.ofNat (extraLength src / 256) = src.getD 11 0 := by
      have hhi := (src.getD 11 0).toNat_lt
      rw [← UInt8.toNat_inj, UInt8.toNat_ofNat']
      unfold extraLength
      omega
    have hcount : 12 + extraLength src - 10 = extraLength src + 1 + 1 := by omega
    rw [hcount, htwo, List.take_succ_cons, List.take_succ_cons, extraBytes, hlength, hfirst,
      hsecond]
  · rw [if_neg hset, if_neg hset, Nat.sub_self, List.take_zero]
    rfl

/-- The header that the bytes begin with. -/
def headerOf (src : List UInt8) (hacc : Accepted src) (hlen : headerEnd src ≤ src.length) :
    Header where
  flags := headerFlags src
  info := (src.drop 4).take 6
  extra := fieldAt src EXTRA_FIELD 12 (extraLength src)
  name := stringAt src ORIG_NAME (extraEnd src)
  comment := stringAt src COMMENT (nameEnd src)
  crc := fieldAt src HEAD_CRC (commentEnd src) 2
  reserved := by_contra fun h => hacc.2 h
  info_length := by
    have hextra := le_extraEnd src
    obtain ⟨hname, hcomment, hheader⟩ := ends_le src
    rw [List.length_take, List.length_drop]
    omega
  extra_isSome := fieldAt_isSome _ _ _
  name_isSome := fieldAt_isSome _ _ _
  comment_isSome := fieldAt_isSome _ _ _
  crc_isSome := fieldAt_isSome _ _ _
  extra_length := fun e he => by
    rw [(mem_fieldAt he).2]
    exact Nat.lt_of_le_of_lt (List.length_take_le _ _) (extraLength_lt src)
  name_nonzero := stringAt_nonzero _ _
  comment_nonzero := stringAt_nonzero _ _
  crc_length := fun c hc => by
    obtain ⟨hset, hc⟩ := mem_fieldAt hc
    have hend : headerEnd src = commentEnd src + 2 := if_pos hset
    rw [hc, List.length_take, List.length_drop]
    omega

/-- Bytes up to an end, and on to the next one. -/
theorem take_of_le {α : Type} (l : List α) {i j : Nat} (h : i ≤ j) :
    l.take j = l.take i ++ (l.drop i).take (j - i) := by
  rw [← List.take_add, Nat.add_sub_cancel' h]

theorem encode_headerOf (hmarked : Marked src) (hacc : Accepted src) (hterm : Terminated src)
    (hlen : headerEnd src ≤ src.length) :
    (headerOf src hacc hlen).encode = src.take (headerEnd src) := by
  have hten := le_extraEnd src
  obtain ⟨hname, hcomment, hheader⟩ := ends_le src
  have hfixed : src.take 10 =
      [HEADER0, HEADER1, DEFLATED, headerFlags src] ++ (src.drop 4).take 6 := by
    have hfour : src.take 4 = [src.getD 0 0, src.getD 1 0, src.getD 2 0, src.getD 3 0] := by
      match src, (show 4 ≤ src.length by omega) with
      | _ :: _ :: _ :: _ :: _, _ => rfl
    rw [take_of_le src (show 4 ≤ 10 by decide), hfour, hmarked.1, hmarked.2, hacc.1]
    rfl
  have hcrc : (fieldAt src HEAD_CRC (commentEnd src) 2).getD [] =
      (src.drop (commentEnd src)).take (headerEnd src - commentEnd src) := by
    unfold fieldAt headerEnd
    by_cases hset : Flagged src HEAD_CRC
    · rw [if_pos hset, if_pos hset, Nat.add_sub_cancel_left]
      rfl
    · rw [if_neg hset, if_neg hset, Nat.sub_self, List.take_zero]
      rfl
  show [HEADER0, HEADER1, DEFLATED, headerFlags src] ++ (src.drop 4).take 6 ++
    extraBytes (fieldAt src EXTRA_FIELD 12 (extraLength src)) ++
    stringBytes (stringAt src ORIG_NAME (extraEnd src)) ++
    stringBytes (stringAt src COMMENT (nameEnd src)) ++
    (fieldAt src HEAD_CRC (commentEnd src) 2).getD [] = _
  -- each field is the piece between two ends, and the pieces join from the left
  rw [← hfixed, extraBytes_fieldAt (by omega), stringBytes_stringAt hterm.name,
    stringBytes_stringAt hterm.comment, hcrc, ← take_of_le src hten]
  rw [show stringEnd src ORIG_NAME (extraEnd src) = nameEnd src from rfl,
    show stringEnd src COMMENT (nameEnd src) = commentEnd src from rfl, ← take_of_le src hname,
    ← take_of_le src hcomment, ← take_of_le src hheader]

/-- The bytes begin with a complete header exactly when it is marked, its method and flags are
    known, and all that is announced is there. -/
theorem begins_iff : (∃ h : Header, h.encode <+: src) ↔
    Marked src ∧ Accepted src ∧ Terminated src ∧ headerEnd src ≤ src.length := by
  constructor
  · rintro ⟨h, hpre⟩
    obtain ⟨hmarked, hacc, hterm, hend⟩ := h.ends hpre
    exact ⟨hmarked, hacc, hterm, hend ▸ hpre.length_le⟩
  · rintro ⟨hmarked, hacc, hterm, hlen⟩
    refine ⟨headerOf src hacc hlen, ?_⟩
    rw [encode_headerOf hmarked hacc hterm hlen]
    exact List.take_prefix _ _

end Begins

/-! ### The result is right -/

section Right

variable {src : List UInt8}

/-- A result that is right of bytes with a header, and of others. -/
theorem parsesHeader_some_iff (r : Int) :
    ParsesHeader src (some r) ↔
      if Marked src ∧ Accepted src ∧ Terminated src ∧ headerEnd src ≤ src.length then
        r = headerEnd src
      else r = -1 := by
  have hvalue : ParsesHeader src (some r) ↔
      (∀ h : Header, h.encode <+: src → r = h.encode.length) ∧
        ((∀ h : Header, ¬ h.encode <+: src) → r = -1) :=
    ⟨fun ⟨_, heq, h⟩ => Option.some.inj heq ▸ h, fun h => ⟨r, rfl, h⟩⟩
  rw [hvalue]
  split
  case isTrue hbegins =>
    obtain ⟨h, hpre⟩ := begins_iff.mpr hbegins
    constructor
    · rintro ⟨hlength, -⟩
      rw [hlength h hpre, (h.ends hpre).2.2.2]
    · rintro rfl
      exact ⟨fun h' hpre' => by rw [(h'.ends hpre').2.2.2],
        fun hnone => absurd hpre (hnone h)⟩
  case isFalse hnot =>
    have hnone : ∀ h : Header, ¬ h.encode <+: src := fun h hpre =>
      hnot (begins_iff.mp ⟨h, hpre⟩)
    exact ⟨fun h => h.2 hnone, fun h => ⟨fun h' hpre => absurd hpre (hnone h'), fun _ => h⟩⟩

/-- The result is right exactly when the flags are among the bytes and the header is refused for
    its method or flags, or its announced fields are terminated and end where nothing goes wrong:
    not at the very end of the bytes when it is marked, nor before it when it is not. -/
theorem parsesHeader_iff (src : List UInt8) :
    ParsesHeader src (gzip_parse_header src) ↔
      4 ≤ src.length ∧ (Accepted src → Terminated src ∧
        if Marked src then headerEnd src ≠ src.length else src.length ≤ headerEnd src) := by
  have hfault : ¬ ParsesHeader src none := fun ⟨_, h, _⟩ => Option.some_ne_none _ h.symm
  rw [gzip_parse_header_eq]
  by_cases hlen : src.length < 4
  · rw [if_pos hlen]
    exact iff_of_false hfault fun h => absurd h.1 (Nat.not_le_of_lt hlen)
  rw [if_neg hlen]
  by_cases hacc : Accepted src
  · rw [if_neg (not_not_intro hacc)]
    by_cases hterm : Terminated src
    · rw [if_neg (not_not_intro hterm)]
      have hcond : (4 ≤ src.length ∧ (Accepted src → Terminated src ∧
          if Marked src then headerEnd src ≠ src.length else src.length ≤ headerEnd src)) ↔
          if Marked src then headerEnd src ≠ src.length else src.length ≤ headerEnd src :=
        ⟨fun h => (h.2 hacc).2, fun h => ⟨Nat.le_of_not_lt hlen, fun _ => ⟨hterm, h⟩⟩⟩
      rw [hcond]
      by_cases hmarked : Marked src
      · rw [if_pos hmarked]
        -- a header that ends with the bytes is complete, but it is refused like one that does not
        rcases Nat.lt_trichotomy (headerEnd src) src.length with hlt | heq | hgt
        · rw [if_neg (Nat.not_le_of_lt hlt), parsesHeader_some_iff,
            if_pos ⟨hmarked, hacc, hterm, Nat.le_of_lt hlt⟩]
          exact iff_of_true rfl (Nat.ne_of_lt hlt)
        · rw [if_pos (Nat.le_of_eq heq.symm), parsesHeader_some_iff,
            if_pos ⟨hmarked, hacc, hterm, Nat.le_of_eq heq⟩]
          exact iff_of_false (by omega) (not_not_intro heq)
        · rw [if_pos (Nat.le_of_lt hgt), parsesHeader_some_iff,
            if_neg fun h => absurd h.2.2.2 (Nat.not_le_of_lt hgt)]
          exact iff_of_true rfl (Nat.ne_of_gt hgt)
      · rw [if_neg hmarked]
        -- without the mark there is no header, which only the length check can notice
        by_cases hend : src.length ≤ headerEnd src
        · rw [if_pos hend, parsesHeader_some_iff, if_neg fun h => hmarked h.1]
          exact iff_of_true rfl hend
        · rw [if_neg hend, parsesHeader_some_iff, if_neg fun h => hmarked h.1]
          exact iff_of_false (by omega) hend
    · rw [if_pos hterm]
      exact iff_of_false hfault fun h => hterm (h.2 hacc).1
  · rw [if_pos hacc, parsesHeader_some_iff, if_neg fun h => hacc h.2.1]
    exact iff_of_true rfl ⟨Nat.le_of_not_lt hlen, fun h => absurd h hacc⟩

end Right

/-- A name without a terminator is read beyond the bytes. -/
theorem parsesHeader_fails :
    ¬ ParsesHeader [0x1f, 0x8b, 8, 8, 0, 0, 0, 0, 0, 3, 97, 98]
      (gzip_parse_header [0x1f, 0x8b, 8, 8, 0, 0, 0, 0, 0, 3, 97, 98]) :=
  fun ⟨_, h, _⟩ => Option.some_ne_none _ h.symm

end Hcrtos.Native.Gunzip
