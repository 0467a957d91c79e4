import Hcrtos.ForStd.Loop
import Hcrtos.Native.Console

/-!
# The splitter and the lookup on memory

`console_parse_line` and `console_find_cmd2` by index: a line is a block of memory that ends with
its terminator, a word is a block of its own from `malloc`, and the words of a line are the first
entries of an array of `MAX_WORDS` pointers. An access outside of a block or of the array gives
`none`. The loops run on a fuel, and an allocation never fails.
-/

namespace Hcrtos.Native.Console.Bytes

open CString Hcrtos.Loop

/-- A block of memory. -/
abbrev Block := List UInt8

/-! ### Quoting -/

/-- The body of the loop of `mark_quot` at the index `i`. -/
def markBody : Nat × Block → Option Block ⊕ (Nat × Block)
  | (i, char_buf) =>
    match char_buf[i]? with
    | none => .inl none
    | some c =>
      if c = 0 then .inl (some char_buf)
      else if c = 92 then
        match char_buf[i + 1]? with
        | none => .inl none
        | some d =>
          if d ≠ 0 then .inr (i + 1, char_buf.set (i + 1) (d ||| 0x80))
          else .inr (i + 1, char_buf)
      else .inr (i + 1, char_buf)

/-- `mark_quot`. -/
def mark_quot (fuel : Nat) (line : Block) : Option Block := (loop markBody fuel (0, line)).join

/-- The body of the loop of `remove_chunk`: `char_buf[beg] = char_buf[end]`. -/
def removeBody : Nat × Nat × Block → Option Block ⊕ (Nat × Nat × Block)
  | (beg, en, char_buf) =>
    match char_buf[en]? with
    | none => .inl none
    | some c =>
      if beg < char_buf.length then
        if c ≠ 0 then .inr (beg + 1, en + 1, char_buf.set beg c)
        else .inl (some (char_buf.set beg c))
      else .inl none

/-- `remove_chunk`. -/
def remove_chunk (fuel : Nat) (char_buf : Block) (beg en : Nat) : Option Block :=
  if beg = en then some char_buf else (loop removeBody fuel (beg, en, char_buf)).join

/-- The rounds of the loop of `revert_quot` from the index `i` on. -/
def revertFrom (fuel : Nat) : Nat → Nat → Block → Option Block
  | 0, _, char_buf => some char_buf
  | rounds + 1, i, char_buf =>
    match char_buf[i]? with
    | none => none
    | some c =>
      if c = 92 then
        match remove_chunk fuel char_buf i (i + 1) with
        | none => none
        | some char_buf =>
          match char_buf[i]? with
          | none => none
          | some d => revertFrom fuel rounds (i + 1) (char_buf.set i (d &&& 0x7f))
      else revertFrom fuel rounds (i + 1) char_buf

/-- `revert_quot`. -/
def revert_quot (fuel : Nat) (char_buf : Block) (len : Nat) : Option Block :=
  revertFrom fuel len 0 char_buf

/-- The string at the start of a block. -/
def string (block : Block) : CStr := block.takeWhile (· ≠ 0)

/-! ### Splitting -/

/-- The variables of `console_parse_line`. -/
structure Parsing where
  p : Nat
  word_start : Option Nat
  inquote : UInt8
  words : List CStr

/-- The body of the loop over the white space in front of the line. -/
def skipBody (block : Block) (p : Nat) : Option (Nat × Option Nat) ⊕ Nat :=
  match block[p]? with
  | none => .inl none
  | some c =>
    if c = 0 then .inl (some (p, none))
    else if isspace c then .inr (p + 1)
    else .inl (some (p, some p))

/-- The end of a word: it is copied into a block of `len + 1` bytes and reverted. -/
def endWord (fuel : Nat) (line : Block) (s : Parsing) : Option (List CStr) :=
  match s.word_start with
  | none => some s.words
  | some word_start =>
    if word_start ≤ s.p ∧ s.p ≤ line.length then
      let len := s.p - word_start
      let word := (line.drop word_start).take len ++ [0]
      (revert_quot fuel word len).map fun word => s.words ++ [string word]
    else none

/-- The body of the main loop of `console_parse_line`. -/
def parseBody (fuel : Nat) (block : Block) (max_words : Nat) (s : Parsing) :
    Option (List CStr) ⊕ Parsing :=
  if ¬ s.words.length < max_words - 1 then .inl (some s.words)
  else
    match block[s.p]? with
    | none => .inl none
    | some c =>
      if c = 0 ∨ c = s.inquote ∨ (s.word_start.isSome ∧ s.inquote = 0 ∧ (isspace c ∨ c = 124)) then
        match endWord fuel block s with
        | none => .inl none
        | some words =>
          if c = 0 then .inl (some words)
          else
            .inr { p := if s.inquote ≠ 0 then s.p + 1 else s.p
                   word_start := none
                   inquote := 0
                   words := words }
      else if c = 34 ∨ c = 39 then
        .inr { s with p := s.p + 1, word_start := some (s.p + 1), inquote := c }
      else
        match s.word_start with
        | some _ => .inr { s with p := s.p + 1 }
        | none =>
          if c = 124 then .inr { s with p := s.p + 1, words := s.words ++ [[124]] }
          else if isspace c then .inr { s with p := s.p + 1 }
          else .inr { s with p := s.p + 1, word_start := some s.p }

/-- `console_parse_line`. -/
def console_parse_line (fuel : Nat) (line : Block) (max_words : Nat) : Option (List CStr) :=
  (mark_quot fuel line).bind fun line =>
    (loop (skipBody line) fuel 0).join.bind fun (p, word_start) =>
      (loop (parseBody fuel line max_words) fuel ⟨p, word_start, 0, []⟩).join

/-! ### Lookup -/

/-- The array of a caller: the words of a line and null pointers behind them. -/
def wordArray (words : List CStr) : List (Option CStr) :=
  words.map some ++ List.replicate (MAX_WORDS - words.length) none

/-- The byte of a string at an index, which may be that of its terminator. -/
def charAt (word : CStr) (i : Int) : Option UInt8 :=
  if i < 0 then none else (word ++ [0])[i.toNat]?

section Execution

-- what the callbacks do and return
variable (run : UInt32 → List CStr → Console → Int × Console)

/-- `console_find_cmd2`. Every command has a callback. -/
def console_find_cmd2 (s : Console) (mode num_words : Nat) (words : List (Option CStr))
    (start_word : Nat) (parent : Option Addr) : Option (Int × Console) :=
  match hword : words[start_word]? with
  | none => none
  | some none => some (CONSOLE_ERROR, s)
  | some (some word) =>
    match charAt word (word.length - 1) with
    | none => none
    | some b =>
      if b = 63 then some (CONSOLE_OK, s)
      else
        match (s.level parent).find? (selects mode word) with
        | none => some (CONSOLE_ERROR_ARG, s)
        | some c =>
          let args := ((words.drop start_word).take (num_words - start_word)).filterMap id
          if s.children c = [] ∨ start_word + 1 = num_words then
            some (correctChecks run s c args)
          else
            have : words.length - (start_word + 1) < words.length - start_word := by
              have := (List.getElem?_eq_some_iff.mp hword).1
              omega
            (console_find_cmd2 s mode num_words words (start_word + 1) (some c.addr)).map
              fun (rc, s') =>
                if rc = CONSOLE_ERROR_ARG then correctChecks run s' c args else (rc, s')
termination_by words.length - start_word

end Execution

end Hcrtos.Native.Console.Bytes
