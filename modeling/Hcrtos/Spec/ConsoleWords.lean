import Mathlib.Data.List.TakeWhile
import Hcrtos.Native.Console

/-!
# Console commands: the words of a line

A line is read as a list of symbols: a backslash and the byte after it are one symbol, which is
never a separator or a quote. On symbols the splitter is a function of its own, without the limit
on the number of words and without the marks, and `console_parse_line` is its first words.

## Key results

- `console_parse_line_eq`: `console_parse_line` on symbols
- `words_text_iff`: nothing is lost exactly when no quote touches a word that has begun or stands
  inside of other quotes, and no backslash ends the line
- `words_text_fails`: a quote glued to a word
-/

namespace Hcrtos.Native.Console

open CString

/-- A symbol of a line. -/
inductive Sym where
  | plain (b : UInt8)
  | escaped (b : UInt8)
  /-- A backslash with nothing behind it. -/
  | dangling

/-- The symbols of a line. -/
def lex : CStr → List Sym
  | [] => []
  | [b] => if b = 92 then [.dangling] else [.plain b]
  | b :: c :: line => if b = 92 then .escaped c :: lex line else .plain b :: lex (c :: line)

namespace Sym

/-- The bytes of a symbol after `mark_quot`. -/
def mark : Sym → CStr
  | plain b => [b]
  | escaped b => [92, b ||| 0x80]
  | dangling => [92]

/-- What is left of a symbol in a word. -/
def text : Sym → CStr
  | plain b => [b]
  | escaped b => [b]
  | dangling => []

/-- A byte of a line other than the terminator, in ASCII. -/
def Ascii : Sym → Prop
  | plain b => b ≠ 0 ∧ b ≠ 92 ∧ b < 128
  | escaped b => b ≠ 0 ∧ b < 128
  | dangling => True

/-- White space that separates words. -/
def isspace : Sym → Bool
  | plain b => CString.isspace b
  | _ => false

end Sym

/-- `'"'` or `'\''`. -/
def isQuote (b : UInt8) : Bool := b = 34 || b = 39

/-- The splitter on symbols: `word` is what it has of the current word. -/
def splitFrom (word : Option (List Sym)) (inquote : UInt8) : List Sym → List (List Sym)
  | [] => word.toList
  | .plain b :: line =>
    if b = inquote then word.toList ++ splitFrom none 0 line
    else if word.isSome ∧ inquote = 0 ∧ (isspace b ∨ b = 124) then
      word.toList ++ (if b = 124 then [[.plain 124]] else []) ++ splitFrom none 0 line
    else if isQuote b then splitFrom (some []) b line
    else
      match word with
      | some w => splitFrom (some (w ++ [.plain b])) inquote line
      | none =>
        if b = 124 then [.plain 124] :: splitFrom none inquote line
        else if isspace b then splitFrom none inquote line
        else splitFrom (some [.plain b]) inquote line
  | s :: line => splitFrom (some (word.getD [] ++ [s])) inquote line

/-- The words of a line: the first one starts at the first byte that is not a space. -/
def splitLine (line : List Sym) : List (List Sym) :=
  match line.dropWhile Sym.isspace with
  | [] => []
  | s :: line => splitFrom (some []) 0 (s :: line)

/-- The bytes of a word after `revert_quot`. -/
def wordText (w : List Sym) : CStr := w.flatMap Sym.text

/-! ### The splitter on symbols -/

theorem lex_ascii {line : CStr} (h : ∀ b ∈ line, b ≠ 0 ∧ b < 128) : ∀ s ∈ lex line, s.Ascii := by
  fun_induction lex line with
  | case1 => simp
  | case2 => simp [Sym.Ascii]
  | case3 b hb => simpa [Sym.Ascii, hb] using h
  | case4 c line ih =>
    simp only [List.mem_cons, forall_eq_or_imp] at h ⊢
    exact ⟨h.2.1, ih h.2.2⟩
  | case5 b c line hb ih =>
    simp only [List.mem_cons, forall_eq_or_imp] at h ih ⊢
    exact ⟨⟨h.1.1, hb, h.1.2⟩, ih h.2⟩

theorem mark_quot_eq (line : CStr) : mark_quot line = (lex line).flatMap Sym.mark := by
  fun_induction lex line with
  | case1 => rfl
  | case2 => rfl
  | case3 b hb => simp [mark_quot, Sym.mark]
  | case4 c line ih =>
    simp [mark_quot, Sym.mark, ih]
  | case5 b c line hb ih =>
    simp [mark_quot, Sym.mark, hb, ih]

/-- A marked byte is unmarked again, and is none of the bytes that the splitter looks for. -/
theorem marked {b : UInt8} (h : b ≠ 0 ∧ b < 128) :
    (b ||| 0x80) &&& 0x7f = b ∧ 128 ≤ b ||| 0x80 := by
  have hall : ∀ n : Fin 128, (UInt8.ofNat n ||| 0x80) &&& 0x7f = UInt8.ofNat n ∧
      128 ≤ UInt8.ofNat n ||| 0x80 := by
    decide +kernel
  have hlt : b.toNat < 128 := UInt8.lt_iff_toNat_lt.mp h.2
  simpa using hall ⟨b.toNat, hlt⟩

/-- A backslash with nothing behind it ends the line. -/
def Lexed : List Sym → Prop
  | [] => True
  | s :: line => (s = .dangling → line = []) ∧ Lexed line

theorem lexed_lex (line : CStr) : Lexed (lex line) := by
  fun_induction lex line with
  | case1 => trivial
  | case2 => simp [Lexed]
  | case3 b hb => simp [Lexed]
  | case4 c line ih => simpa [Lexed] using ih
  | case5 b c line hb ih => simpa [Lexed] using ih

theorem Lexed.left {w line : List Sym} (h : Lexed (w ++ line)) : Lexed w := by
  induction w with
  | nil => trivial
  | cons s w ih => exact ⟨fun hs => (List.append_eq_nil_iff.mp (h.1 hs)).1, ih h.2⟩

theorem Lexed.right {w line : List Sym} (h : Lexed (w ++ line)) : Lexed line := by
  induction w with
  | nil => exact h
  | cons s w ih => exact ih h.2

theorem revert_quot_mark {w : List Sym} (hascii : ∀ s ∈ w, s.Ascii) (hlexed : Lexed w) :
    revert_quot (w.flatMap Sym.mark) = wordText w := by
  have hgo : revert_quot.go (w.flatMap Sym.mark) = wordText w := by
    induction w with
    | nil => rfl
    | cons s w ih =>
      simp only [List.mem_cons, forall_eq_or_imp] at hascii
      have ih := ih hascii.2 hlexed.2
      cases s with
      | plain b =>
        have hb : b ≠ 92 := hascii.1.2.1
        simp [Sym.mark, wordText, Sym.text, revert_quot.go, hb, ih]
      | escaped b =>
        simp [Sym.mark, wordText, Sym.text, revert_quot.go, (marked hascii.1).1, ih]
      | dangling =>
        rw [hlexed.1 rfl]
        rfl
  rw [revert_quot, hgo, List.takeWhile_eq_self_iff]
  intro b hb
  obtain ⟨s, hs, hb⟩ := List.mem_flatMap.mp hb
  cases s with
  | plain c =>
    obtain rfl := List.mem_singleton.mp hb
    simpa using (hascii _ hs).1
  | escaped c =>
    obtain rfl := List.mem_singleton.mp hb
    simpa using (hascii _ hs).1
  | dangling => cases hb

/-- A quote state of the splitter. -/
def Inquote (q : UInt8) : Prop := q = 0 ∨ isQuote q = true

theorem splitFrom_plain (word : Option (List Sym)) (q b : UInt8) (line : List Sym) :
    splitFrom word q (.plain b :: line) =
      if b = q then word.toList ++ splitFrom none 0 line
      else if word.isSome ∧ q = 0 ∧ (isspace b ∨ b = 124) then
        word.toList ++ (if b = 124 then [[.plain 124]] else []) ++ splitFrom none 0 line
      else if isQuote b then splitFrom (some []) b line
      else
        match word with
        | some w => splitFrom (some (w ++ [.plain b])) q line
        | none =>
          if b = 124 then [.plain 124] :: splitFrom none q line
          else if isspace b then splitFrom none q line
          else splitFrom (some [.plain b]) q line := by
  rw [splitFrom.eq_def]

theorem parseFrom_nil (max_words : Nat) (words : List CStr) (word : Option CStr) (q : UInt8) :
    parseFrom max_words words word q [] =
      if words.length < max_words - 1 then words ++ (word.map revert_quot).toList else words := by
  rw [parseFrom.eq_def]

/-- A byte that only adds to the current word. -/
theorem parseFrom_ordinary {max_words : Nat} {words : List CStr} {word : Option CStr}
    {q b : UInt8} {line : CStr} (hq : b ≠ q) (hspace : isspace b = false) (hbar : b ≠ 124)
    (hquote : isQuote b = false) (hroom : words.length < max_words - 1) :
    parseFrom max_words words word q (b :: line) =
      parseFrom max_words words (some (word.getD [] ++ [b])) q line := by
  have hquote' : ¬ (b = 34 ∨ b = 39) := by simpa [isQuote] using hquote
  rw [parseFrom.eq_def]
  dsimp only
  rw [if_neg (not_not.mpr hroom), if_neg hq, if_neg (by simp [hspace, hbar]), if_neg hquote']
  cases word with
  | none => simp [hspace, hbar]
  | some w => rfl

theorem parseFrom_full {max_words : Nat} {words : List CStr} {word : Option CStr} {q : UInt8}
    {line : CStr} (hfull : ¬ words.length < max_words - 1) :
    parseFrom max_words words word q line = words := by
  cases line with
  | nil => rw [parseFrom_nil, if_neg hfull]
  | cons b line =>
    rw [parseFrom.eq_def]
    exact if_pos hfull

/-- The bytes of a backslash and of a marked byte are ordinary. -/
theorem ordinary_of_marked {b q : UInt8} (hq : Inquote q) (h : b = 92 ∨ 128 ≤ b) :
    b ≠ q ∧ isspace b = false ∧ b ≠ 124 ∧ isQuote b = false := by
  have hquote : isQuote q = true → q = 34 ∨ q = 39 := by simp [isQuote]
  have hcases : q = 0 ∨ q = 34 ∨ q = 39 := hq.imp_right hquote
  rcases h with rfl | h
  · rcases hcases with rfl | rfl | rfl <;> decide
  · have hne : ∀ c : UInt8, c < 128 → b ≠ c := by
      rintro c hc rfl
      exact absurd (UInt8.le_trans h (UInt8.le_refl _)) (UInt8.not_le.mpr hc)
    have hlow : ∀ c ∈ [(0 : UInt8), 34, 39, 32, 9, 10, 11, 12, 13, 124], c < 128 := by
      decide +kernel
    have hspace : isspace b = false := by
      have h13 : ¬ b ≤ 13 := by
        intro hle
        exact absurd (UInt8.le_trans h hle) (by decide)
      simp [isspace, h13, hne 32 (by decide)]
    refine ⟨?_, hspace, hne 124 (by decide),
      by simp [isQuote, hne 34 (by decide), hne 39 (by decide)]⟩
    rcases hcases with rfl | rfl | rfl
    · exact hne 0 (by decide)
    · exact hne 34 (by decide)
    · exact hne 39 (by decide)

/-- The splitter with its limit takes the first words of the splitter without it. -/
theorem parseFrom_eq {max_words : Nat} {line : List Sym} :
    ∀ {words : List CStr} {word : Option (List Sym)} {q : UInt8}, Inquote q →
      (∀ s ∈ word.getD [] ++ line, s.Ascii) → Lexed (word.getD [] ++ line) →
      words.length ≤ max_words - 1 →
      parseFrom max_words words (word.map fun w => w.flatMap Sym.mark) q
          (line.flatMap Sym.mark) =
        words ++ ((splitFrom word q line).map wordText).take (max_words - 1 - words.length) := by
  induction line with
  | nil =>
    intro words word q _ hascii hlexed hle
    by_cases hroom : words.length < max_words - 1
    · have hpos : (word.toList.map wordText).length ≤ max_words - 1 - words.length := by
        cases word with
        | none => simp
        | some w => simp; omega
      rw [splitFrom, List.take_of_length_le hpos, List.flatMap_nil, parseFrom_nil, if_pos hroom]
      cases word with
      | none => rfl
      | some w =>
        rw [List.append_nil] at hascii hlexed
        have hrevert := revert_quot_mark (w := w) hascii hlexed
        simp [hrevert]
    · rw [parseFrom_full hroom, Nat.sub_eq_zero_of_le (Nat.not_lt.mp hroom)]
      simp
  | cons s line ih =>
    intro words word q hq hascii hlexed hle
    by_cases hroom : words.length < max_words - 1
    swap
    · rw [parseFrom_full hroom, Nat.sub_eq_zero_of_le (Nat.not_lt.mp hroom)]
      simp
    have hright := hlexed.right
    have hline : ∀ s ∈ line, s.Ascii := fun t ht => hascii t (by simp [ht])
    -- what the splitter has of the current word becomes a word
    have hword : (word.map fun w => w.flatMap Sym.mark).map revert_quot = word.map wordText := by
      cases word with
      | none => rfl
      | some w =>
        have hrevert := revert_quot_mark (w := w) (fun t ht => hascii t (by simp [ht])) hlexed.left
        simp [hrevert]
    -- the symbol joins the current word
    have hjoin : parseFrom max_words words
          (some ((word.map fun w => w.flatMap Sym.mark).getD [] ++ s.mark)) q
          (line.flatMap Sym.mark) =
        words ++ ((splitFrom (some (word.getD [] ++ [s])) q line).map wordText).take
          (max_words - 1 - words.length) := by
      have happend : (word.map fun w => w.flatMap Sym.mark).getD [] ++ s.mark =
          (word.getD [] ++ [s]).flatMap Sym.mark := by
        cases word <;> simp
      have := @ih words (some (word.getD [] ++ [s])) _ hq (by simpa using hascii)
        (by simpa using hlexed) hle
      rw [happend]
      exact this
    cases s with
    | escaped b =>
      obtain ⟨h₁, h₂, h₃, h₄⟩ := ordinary_of_marked (b := 92) hq (.inl rfl)
      obtain ⟨h₅, h₆, h₇, h₈⟩ := ordinary_of_marked (b := b ||| 0x80) hq
        (.inr (marked (hascii (.escaped b) (by simp))).2)
      show parseFrom max_words words _ q (92 :: (b ||| 0x80) :: line.flatMap Sym.mark) = _
      rw [parseFrom_ordinary h₁ h₂ h₃ h₄ hroom, parseFrom_ordinary h₅ h₆ h₇ h₈ hroom]
      simpa [splitFrom, Sym.mark] using hjoin
    | dangling =>
      obtain ⟨h₁, h₂, h₃, h₄⟩ := ordinary_of_marked (b := 92) hq (.inl rfl)
      show parseFrom max_words words _ q (92 :: line.flatMap Sym.mark) = _
      rw [parseFrom_ordinary h₁ h₂ h₃ h₄ hroom]
      exact hjoin
    | plain b =>
      -- after the words `extra` the splitter goes on without a current word
      have hemit : ∀ (extra : List (List Sym)) (q' : UInt8), Inquote q' →
          words.length + extra.length ≤ max_words - 1 →
          parseFrom max_words (words ++ extra.map wordText) none q' (line.flatMap Sym.mark) =
            words ++ ((extra ++ splitFrom none q' line).map wordText).take
              (max_words - 1 - words.length) := by
        intro extra q' hq' hlen
        have := @ih (words ++ extra.map wordText) none _ hq' (by simpa using hline) hright.2
          (by simpa using hlen)
        have hextra : (extra.map wordText).length ≤ max_words - 1 - words.length := by
          simp only [List.length_map]
          omega
        simp only [Option.map_none, List.length_append, List.length_map] at this
        rw [this, List.map_append, List.take_append, List.length_map,
          List.take_of_length_le hextra, List.append_assoc, Nat.sub_sub (max_words - 1)]
      have htoList : (word.map wordText).toList = word.toList.map wordText := by
        cases word <;> rfl
      have hone : word.toList.length ≤ 1 := by cases word <;> simp
      show parseFrom max_words words _ q (b :: line.flatMap Sym.mark) = _
      rw [parseFrom.eq_def, splitFrom_plain]
      dsimp only
      rw [if_neg (not_not.mpr hroom), hword, htoList, Option.isSome_map]
      split
      · exact hemit word.toList 0 (.inl rfl) (by omega)
      · split
        · rename_i hend
          have hfull := hemit word.toList 0 (.inl rfl) (by omega)
          split
          · -- the limit is reached with the word that ends here
            rename_i hfull
            obtain ⟨w, rfl⟩ := Option.isSome_iff_exists.mp hend.1
            have hlen : max_words - 1 - words.length = 1 := by
              simp at hfull
              omega
            rw [hlen]
            simp
          · rename_i hmore
            simp only [List.length_append, List.length_map, not_not] at hmore
            split
            · have := hemit (word.toList ++ [[.plain 124]]) 0 (.inl rfl) (by simp; omega)
              simpa [wordText, Sym.text] using this
            · simpa using hfull
        · split
          · rename_i hquote
            have hquote' : isQuote b = true := by simpa [isQuote] using hquote
            rw [if_pos hquote']
            exact @ih _ (some []) _ (.inr hquote') (by simpa using hline) hright.2 hle
          · rename_i hquote
            have hquote' : ¬ isQuote b = true := by simpa [isQuote] using hquote
            rw [if_neg hquote']
            cases word with
            | some w => exact hjoin
            | none =>
              dsimp only [Option.map_none]
              split
              · rename_i hbar
                have := hemit [[.plain 124]] q hq (by simp; omega)
                simpa [wordText, Sym.text] using this
              · split
                · simpa using hemit [] q hq (by simpa using hle)
                · exact hjoin

/-- `console_parse_line` returns the first words of the line. -/
theorem console_parse_line_eq {line : CStr} (h : ∀ b ∈ line, b ≠ 0 ∧ b < 128) (max_words : Nat) :
    console_parse_line line max_words =
      ((splitLine (lex line)).map wordText).take (max_words - 1) := by
  have hascii := lex_ascii h
  have hlexed := lexed_lex line
  have hdrop : ((lex line).flatMap Sym.mark).dropWhile isspace =
      ((lex line).dropWhile Sym.isspace).flatMap Sym.mark := by
    generalize lex line = l at hascii
    induction l with
    | nil => rfl
    | cons s l ih =>
      cases s with
      | plain b =>
        have ih := ih fun t ht => hascii t (by simp [ht])
        cases hb : isspace b <;> simp [Sym.mark, Sym.isspace, hb, ih]
      | escaped b => simp [Sym.mark, Sym.isspace, isspace]
      | dangling => simp [Sym.mark, Sym.isspace, isspace]
  have hsuffix := List.dropWhile_suffix (l := lex line) Sym.isspace
  rw [console_parse_line, mark_quot_eq, hdrop, splitLine]
  obtain ⟨pre, hpre⟩ := hsuffix
  generalize (lex line).dropWhile Sym.isspace = l at hpre
  have hascii' : ∀ s ∈ l, s.Ascii := fun s hs => hascii s (by rw [← hpre]; simp [hs])
  have hlexed' : Lexed l := by
    rw [← hpre] at hlexed
    exact hlexed.right
  cases l with
  | nil =>
    rw [List.flatMap_nil, parseFrom_nil]
    simp
  | cons s l =>
    have hparse := @parseFrom_eq max_words _ [] (some []) 0 (.inl rfl) (by simpa using hascii')
      hlexed' (Nat.zero_le _)
    simp only [Option.map_some, List.flatMap_nil, List.nil_append, List.length_nil,
      Nat.sub_zero] at hparse
    rw [← hparse]
    cases s <;> rfl


/-! ### What a line holds -/

/-- What a byte is inside of the quotes `q`, 0 for none. -/
inductive Kind where
  | close
  | space
  | bar
  | quote
  | other

def kind (q b : UInt8) : Kind :=
  if b = q then .close
  else if q = 0 ∧ isspace b then .space
  else if q = 0 ∧ b = 124 then .bar
  else if isQuote b then .quote
  else .other

/-- The text of a line inside of the quotes `q`: the separating white space, the delimiters of
    quotes and the escaping backslashes are left out. A quote inside of quotes of the other kind
    is text, and a backslash with nothing behind it escapes nothing. -/
def textFrom (q : UInt8) : List Sym → CStr
  | [] => []
  | .plain b :: line =>
    match kind q b with
    | .close => textFrom 0 line
    | .space => textFrom 0 line
    | .bar => 124 :: textFrom 0 line
    | .quote => if q = 0 then textFrom b line else b :: textFrom q line
    | .other => b :: textFrom q line
  | .escaped b :: line => b :: textFrom q line
  | .dangling :: line => 92 :: textFrom q line

/-- The text of a line. -/
def text (line : CStr) : CStr := textFrom 0 (lex line)

/-- No quote touches a word that has begun or stands inside of other quotes, and no backslash is
    left over. `begun` is whether the current word has text. -/
def cleanFrom (q : UInt8) (begun : Bool) : List Sym → Bool
  | [] => true
  | .plain b :: line =>
    match kind q b with
    | .close => cleanFrom 0 false line
    | .space => cleanFrom 0 false line
    | .bar => cleanFrom 0 false line
    | .quote => decide (q = 0) && !begun && cleanFrom b false line
    | .other => cleanFrom q true line
  | .escaped _ :: line => cleanFrom q true line
  | .dangling :: _ => false

/-- The condition for a whole line. -/
def Clean (line : CStr) : Prop := cleanFrom 0 false (lex line) = true

instance (line : CStr) : Decidable (Clean line) := inferInstanceAs (Decidable (_ = true))

/-- What the splitter puts into words, together. -/
def flat (word : Option (List Sym)) (q : UInt8) (line : List Sym) : CStr :=
  (splitFrom word q line).flatMap wordText

/-- The text of the current word. -/
def current (word : Option (List Sym)) : CStr := wordText (word.getD [])

@[simp] theorem current_none : current none = [] := rfl

@[simp] theorem current_snoc (word : Option (List Sym)) (s : Sym) :
    current (some (word.getD [] ++ [s])) = current word ++ s.text := by
  simp [current, wordText]

theorem flatMap_toList (word : Option (List Sym)) :
    word.toList.flatMap wordText = current word := by
  cases word <;> simp [current, wordText]

@[simp] theorem flat_nil (word : Option (List Sym)) (q : UInt8) : flat word q [] = current word :=
  flatMap_toList word

/-- What one symbol that is no byte of its own does to the words. -/
@[simp] theorem flat_escaped (word : Option (List Sym)) (q b : UInt8) (line : List Sym) :
    flat word q (.escaped b :: line) = flat (some (word.getD [] ++ [.escaped b])) q line := rfl

@[simp] theorem flat_dangling (word : Option (List Sym)) (q : UInt8) (line : List Sym) :
    flat word q (.dangling :: line) = flat (some (word.getD [] ++ [.dangling])) q line := rfl

/-- What one byte does to the words: it closes a quote, ends a word, opens a quote or joins the
    current word. -/
theorem flat_plain {word : Option (List Sym)} {q b : UInt8} {line : List Sym} (hb : b ≠ 0)
    (hword : q ≠ 0 → word.isSome = true) :
    flat word q (.plain b :: line) =
      match kind q b with
      | .close => current word ++ flat none 0 line
      | .space => current word ++ flat none 0 line
      | .bar => current word ++ 124 :: flat none 0 line
      | .quote => flat (some []) b line
      | .other => flat (some (word.getD [] ++ [.plain b])) q line := by
  have hbar : isspace 124 = false := by decide
  have hquoteSpace : isspace b = true → isQuote b = false := by
    intro hspace
    rw [Bool.eq_false_iff]
    intro hquote
    have hcases : b = 34 ∨ b = 39 := by simpa [isQuote] using hquote
    rcases hcases with rfl | rfl <;> exact absurd hspace (by decide)
  unfold flat kind
  rw [splitFrom_plain]
  by_cases hq : b = q
  · simp [hq, flatMap_toList]
  · by_cases hzero : q = 0
    · by_cases hspace : isspace b = true
      · have hne : b ≠ 124 := by
          rintro rfl
          rw [hbar] at hspace
          cases hspace
        cases word with
        | none => simp [hzero, hspace, hquoteSpace hspace, hne, hb]
        | some w => simp [hzero, hspace, hne, hb, current, wordText]
      · by_cases hbar' : b = 124
        · subst hbar'
          cases word with
          | none => simp [hzero, hbar, isQuote, wordText, Sym.text]
          | some w => simp [hzero, hbar, current, wordText, Sym.text]
        · cases word <;> cases isQuote b <;> simp [hzero, hspace, hbar', hb]
    · obtain ⟨w, rfl⟩ := Option.isSome_iff_exists.mp (hword hzero)
      cases isQuote b <;> simp [hq, hzero]

/-! ### Text that is lost -/

/-- A quote of the other kind stands inside of quotes. -/
def nestedFrom (q : UInt8) : List Sym → Bool
  | [] => false
  | .plain b :: line =>
    match kind q b with
    | .close => nestedFrom 0 line
    | .space => nestedFrom 0 line
    | .bar => nestedFrom 0 line
    | .quote => decide (q ≠ 0) || nestedFrom b line
    | .other => nestedFrom q line
  | .escaped _ :: line => nestedFrom q line
  | .dangling :: line => nestedFrom q line

/-- The quotes in a text. -/
def quotes (s : CStr) : Nat := s.countP isQuote

/-- The quotes that are escaped. -/
def escapedQuotes : List Sym → Nat
  | [] => 0
  | .plain _ :: line => escapedQuotes line
  | .escaped b :: line => quotes [b] + escapedQuotes line
  | .dangling :: line => escapedQuotes line

@[simp] theorem quotes_append (s t : CStr) : quotes (s ++ t) = quotes s + quotes t :=
  List.countP_append

@[simp] theorem quotes_nil : quotes [] = 0 := rfl

theorem quotes_cons (b : UInt8) (s : CStr) : quotes (b :: s) = quotes [b] + quotes s :=
  quotes_append [b] s

theorem quotes_singleton {b : UInt8} : quotes [b] = if isQuote b then 1 else 0 := by
  simp [quotes, List.countP_cons]

/-- The bytes that are quotes by their kind. -/
theorem isQuote_of_kind {q b : UInt8} :
    (kind q b = .quote → isQuote b = true) ∧ (kind q b = .other → isQuote b = false) := by
  unfold kind
  split
  · simp
  · split
    · simp
    · split
      · simp
      · split <;> simp_all

section

variable {line : List Sym}

/-- Where the condition holds, the words hold the text. -/
theorem flat_of_clean (hascii : ∀ s ∈ line, s.Ascii) :
    ∀ {word : Option (List Sym)} {q : UInt8} {begun : Bool}, (q ≠ 0 → word.isSome = true) →
      (begun = false → current word = []) → cleanFrom q begun line = true →
      flat word q line = current word ++ textFrom q line := by
  induction line with
  | nil =>
    intro word q begun _ _ _
    simp [textFrom]
  | cons s line ih =>
    have ih := @ih fun t ht => hascii t (List.mem_cons_of_mem s ht)
    intro word q begun hword hbegun hclean
    cases s with
    | dangling => cases hclean
    | escaped b =>
      have := @ih (some (word.getD [] ++ [.escaped b])) q true (fun _ => rfl) (by simp) hclean
      simpa [textFrom, Sym.text] using this
    | plain b =>
      have hb : b ≠ 0 := (hascii (.plain b) List.mem_cons_self).1
      have hended : cleanFrom 0 false line = true → flat none 0 line = textFrom 0 line := by
        intro hclean
        simpa using @ih none 0 _ (by simp) (fun _ => rfl) hclean
      rw [flat_plain hb hword, textFrom]
      rw [cleanFrom] at hclean
      cases hkind : kind q b <;> simp only [hkind] at hclean ⊢
      case close => rw [hended hclean]
      case space => rw [hended hclean]
      case bar => rw [hended hclean]
      case quote =>
        -- the word that the quote starts over from is empty
        simp only [Bool.and_eq_true, decide_eq_true_eq, Bool.not_eq_true'] at hclean
        rw [if_pos hclean.1.1, hbegun hclean.1.2]
        exact ih (fun _ => rfl) (fun _ => rfl) hclean.2
      case other =>
        have := @ih (some (word.getD [] ++ [.plain b])) q true (fun _ => rfl) (by simp) hclean
        simpa [Sym.text] using this

/-- The words hold no quotes but those that are escaped. -/
theorem quotes_flat_le (hascii : ∀ s ∈ line, s.Ascii) :
    ∀ {word : Option (List Sym)} {q : UInt8}, (q ≠ 0 → word.isSome = true) →
      quotes (flat word q line) ≤ quotes (current word) + escapedQuotes line := by
  induction line with
  | nil =>
    intro word q _
    simp
  | cons s line ih =>
    have ih := @ih fun t ht => hascii t (List.mem_cons_of_mem s ht)
    intro word q hword
    cases s with
    | dangling =>
      have := @ih (some (word.getD [] ++ [.dangling])) q (fun _ => rfl)
      simpa [Sym.text, escapedQuotes] using this
    | escaped b =>
      have := @ih (some (word.getD [] ++ [.escaped b])) q (fun _ => rfl)
      simpa [Sym.text, escapedQuotes, Nat.add_assoc] using this
    | plain b =>
      have hb : b ≠ 0 := (hascii (.plain b) List.mem_cons_self).1
      have hended := @ih none 0 (by simp)
      rw [current_none, quotes_nil] at hended
      rw [flat_plain hb hword, escapedQuotes]
      cases hkind : kind q b <;> dsimp only
      case close =>
        rw [quotes_append]
        omega
      case space =>
        rw [quotes_append]
        omega
      case bar =>
        have hbar : quotes [124] = 0 := by decide
        rw [quotes_append, quotes_cons, hbar]
        omega
      case quote =>
        have hopened := @ih (some []) b (fun _ => rfl)
        exact Nat.le_trans hopened (Nat.add_le_add_right (Nat.zero_le _) _)
      case other =>
        have hjoined := @ih (some (word.getD [] ++ [.plain b])) q (fun _ => rfl)
        have hordinary : quotes [b] = 0 := by
          rw [quotes_singleton, isQuote_of_kind.2 hkind]
          rfl
        simpa [Sym.text, hordinary] using hjoined

/-- The text holds the escaped quotes, and those inside of other quotes. -/
theorem escapedQuotes_le (line : List Sym) : ∀ q : UInt8,
    escapedQuotes line + (nestedFrom q line).toNat ≤ quotes (textFrom q line) := by
  induction line with
  | nil =>
    intro q
    simp [escapedQuotes, nestedFrom]
  | cons s line ih =>
    intro q
    cases s with
    | dangling =>
      rw [escapedQuotes, nestedFrom, textFrom, quotes_cons]
      exact Nat.le_trans (ih q) (Nat.le_add_left _ _)
    | escaped b =>
      have := ih q
      rw [escapedQuotes, nestedFrom, textFrom, quotes_cons b (textFrom q line)]
      omega
    | plain b =>
      rw [escapedQuotes, nestedFrom, textFrom]
      cases hkind : kind q b <;> dsimp only
      case close => exact ih 0
      case space => exact ih 0
      case bar =>
        rw [quotes_cons]
        exact Nat.le_trans (ih 0) (Nat.le_add_left _ _)
      case quote =>
        by_cases hzero : q = 0
        · simpa [hzero] using ih b
        · -- the text counts the quote itself
          have hone : quotes [b] = 1 := by
            rw [quotes_singleton, isQuote_of_kind.1 hkind]
            rfl
          have := ih q
          rw [if_neg hzero, quotes_cons, hone, decide_eq_true hzero, Bool.true_or, Bool.toNat_true]
          omega
      case other =>
        rw [quotes_cons]
        exact Nat.le_trans (ih q) (Nat.le_add_left _ _)

/-- Without quotes inside of other quotes, what breaks the condition is lost. -/
theorem length_flat_le (hascii : ∀ s ∈ line, s.Ascii) (hlexed : Lexed line) :
    ∀ {word : Option (List Sym)} {q : UInt8} {begun : Bool}, (q ≠ 0 → word.isSome = true) →
      (begun = true → current word ≠ []) → nestedFrom q line = false →
      (flat word q line).length + (!cleanFrom q begun line).toNat ≤
        (current word).length + (textFrom q line).length := by
  induction line with
  | nil =>
    intro word q begun _ _ _
    simp [cleanFrom]
  | cons s line ih =>
    have ih := @ih (fun t ht => hascii t (List.mem_cons_of_mem s ht)) hlexed.2
    intro word q begun hword hbegun hnested
    cases s with
    | dangling =>
      rw [hlexed.1 rfl]
      simp [cleanFrom, textFrom, Sym.text]
    | escaped b =>
      have := @ih (some (word.getD [] ++ [.escaped b])) q true (fun _ => rfl) (by simp [Sym.text])
        hnested
      rw [flat_escaped, cleanFrom, textFrom]
      simp only [current_snoc, Sym.text, List.length_append, List.length_cons,
        List.length_nil] at this ⊢
      omega
    | plain b =>
      have hb : b ≠ 0 := (hascii (.plain b) List.mem_cons_self).1
      have hended := @ih none 0 false (by simp) (by simp)
      rw [current_none, List.length_nil, Nat.zero_add] at hended
      rw [flat_plain hb hword, cleanFrom, textFrom]
      rw [nestedFrom] at hnested
      cases hkind : kind q b <;> simp only [hkind] at hnested ⊢
      case close =>
        have := hended hnested
        rw [List.length_append]
        omega
      case space =>
        have := hended hnested
        rw [List.length_append]
        omega
      case bar =>
        have := hended hnested
        rw [List.length_append, List.length_cons, List.length_cons]
        omega
      case quote =>
        simp only [Bool.or_eq_false_iff, decide_eq_false_iff_not, not_not] at hnested
        have := @ih (some []) b false (fun _ => rfl) (by simp) hnested.2
        have hempty : (current (some [])).length = 0 := rfl
        rw [if_pos hnested.1, decide_eq_true hnested.1, Bool.true_and]
        cases begun with
        | false =>
          rw [Bool.not_false, Bool.true_and]
          omega
        | true =>
          -- the text of the current word is dropped
          have hpos := List.length_pos_iff.mpr (hbegun rfl)
          rw [Bool.not_true, Bool.false_and, Bool.not_false, Bool.toNat_true]
          omega
      case other =>
        have := @ih (some (word.getD [] ++ [.plain b])) q true (fun _ => rfl) (by simp [Sym.text])
          hnested
        simp only [current_snoc, Sym.text, List.length_append, List.length_cons,
          List.length_nil] at this ⊢
        omega

/-- The words hold the text exactly where the condition holds. -/
theorem flat_eq_iff (hascii : ∀ s ∈ line, s.Ascii) (hlexed : Lexed line) :
    flat none 0 line = textFrom 0 line ↔ cleanFrom 0 false line = true := by
  constructor
  · intro heq
    cases hnested : nestedFrom 0 line with
    | true =>
      have hle := @quotes_flat_le _ hascii none 0 (by simp)
      have hlt := escapedQuotes_le line 0
      rw [hnested, Bool.toNat_true, ← heq] at hlt
      rw [current_none, quotes_nil] at hle
      omega
    | false =>
      have hle := @length_flat_le _ hascii hlexed none 0 false (by simp) (by simp) hnested
      rw [heq, current_none, List.length_nil] at hle
      by_contra hclean
      rw [Bool.eq_false_iff.mpr hclean, Bool.not_false, Bool.toNat_true] at hle
      omega
  · intro hclean
    simpa using @flat_of_clean _ hascii none 0 _ (by simp) (fun _ => rfl) hclean

end

/-- The splitter with its first word begun, as `console_parse_line` starts it. -/
theorem flat_splitLine (line : List Sym) (hascii : ∀ s ∈ line, s.Ascii) :
    (splitLine line).flatMap wordText = flat none 0 line := by
  induction line with
  | nil => rfl
  | cons s line ih =>
    have ih := ih fun t ht => hascii t (List.mem_cons_of_mem s ht)
    cases s with
    | escaped b => rfl
    | dangling => rfl
    | plain b =>
      have hb : b ≠ 0 := (hascii (.plain b) List.mem_cons_self).1
      cases hspace : isspace b with
      | true =>
        have hskip : splitLine (.plain b :: line) = splitLine line := by
          simp [splitLine, Sym.isspace, hspace]
        have hkind : kind 0 b = .space := by simp [kind, hb, hspace]
        rw [hskip, ih, flat_plain hb (by simp), hkind]
        rfl
      | false =>
        have hstart : splitLine (.plain b :: line) = splitFrom (some []) 0 (.plain b :: line) := by
          simp [splitLine, Sym.isspace, hspace]
        have hempty : current (some []) = [] := rfl
        rw [hstart]
        show flat (some []) 0 (.plain b :: line) = _
        rw [flat_plain hb (by simp), flat_plain hb (by simp)]
        cases kind 0 b <;> rfl

/-- For every line that splits into fewer words than the limit, however high that is set, the
    words hold the text of the line, in its order and nothing of it twice, if and only if no quote
    touches a word that has begun or stands inside of other quotes, and no backslash ends the
    line. -/
theorem words_text_iff {line : CStr} {max_words : Nat} (hascii : ∀ b ∈ line, b ≠ 0 ∧ b < 128)
    (hfew : ∀ m, (console_parse_line line m).length < max_words) :
    (console_parse_line line max_words).flatten = text line ↔ Clean line := by
  have hcount : (splitLine (lex line)).length < max_words := by
    have := hfew ((splitLine (lex line)).length + 1)
    rw [console_parse_line_eq hascii] at this
    simpa using this
  have hall : (console_parse_line line max_words).flatten = flat none 0 (lex line) := by
    rw [console_parse_line_eq hascii, List.take_of_length_le (by simp; omega),
      ← flat_splitLine _ (lex_ascii hascii), List.flatMap_def]
  rw [hall]
  exact flat_eq_iff (lex_ascii hascii) (lexed_lex line)

/-- A line of few symbols splits into few words, however high the limit is. -/
theorem few_words {line : CStr} {n : Nat} (hascii : ∀ b ∈ line, b ≠ 0 ∧ b < 128)
    (hn : (splitLine (lex line)).length < n) (m : Nat) :
    (console_parse_line line m).length < n := by
  rw [console_parse_line_eq hascii, List.length_take, List.length_map]
  exact Nat.lt_of_le_of_lt (Nat.min_le_right _ _) hn

/-- `a|"b c"\ d`: a bar, quotes and an escaped space. -/
def exampleLine : CStr := [97, 124, 34, 98, 32, 99, 34, 92, 32, 100]

theorem words_text_exampleLine :
    (console_parse_line exampleLine MAX_WORDS).flatten = text exampleLine ↔ Clean exampleLine :=
  words_text_iff (by decide +kernel) (few_words (by decide +kernel) (by decide))

/-- `a"b"`: the word that the quote touches is dropped. -/
theorem words_text_fails :
    (∀ m, (console_parse_line [97, 34, 98, 34] m).length < MAX_WORDS) ∧
      console_parse_line [97, 34, 98, 34] MAX_WORDS = [[98]] ∧
      text [97, 34, 98, 34] = [97, 98] ∧
      ¬ (console_parse_line [97, 34, 98, 34] MAX_WORDS).flatten = text [97, 34, 98, 34] := by
  refine ⟨few_words (by decide +kernel) (by decide), ?_⟩
  decide

end Hcrtos.Native.Console
