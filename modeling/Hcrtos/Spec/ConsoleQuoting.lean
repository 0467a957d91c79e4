import Hcrtos.Spec.ConsoleBytesSafe

/-!
# Console commands: quoting and splitting

A word is quoted by a backslash in front of every byte, or by double quotes around it. The
symbols of a quoted word are absorbed into the current word of the splitter, so that a line of
quoted words with a space between them splits into the words.

## Key results

- `split_text`: a quoted word at the start of a line
- `splitLine_texts`: a line of quoted words
- `split_inverts_quoting`: the splitter on memory, on lines of quoted words and on every line
-/

namespace Hcrtos.Native.Console

open CString

/-- `text` is how a word stands in a line. -/
inductive Quoted (w : CStr) : CStr → Prop where
  | escaped : Quoted w (w.flatMap fun b => [92, b])
  | enclosed (hw : ∀ b ∈ w, b ≠ 34 ∧ b ≠ 39 ∧ b ≠ 92) : Quoted w (34 :: w ++ [34])

/-- A word that a line can hold. -/
def Word (w : CStr) : Prop := w ≠ [] ∧ ∀ b ∈ w, b ≠ 0 ∧ b < 128

/-! ### Symbols -/

theorem lex_cons {b : UInt8} (hb : b ≠ 92) (line : CStr) :
    lex (b :: line) = .plain b :: lex line := by
  cases line with
  | nil => simp [lex, hb]
  | cons c line => simp [lex, hb]

theorem lex_escape (b : UInt8) (line : CStr) : lex (92 :: b :: line) = .escaped b :: lex line := by
  simp [lex]

theorem lex_escaped (w line : CStr) :
    lex ((w.flatMap fun b => [92, b]) ++ line) = w.map .escaped ++ lex line := by
  induction w with
  | nil => rfl
  | cons b w ih =>
    rw [List.flatMap_cons, List.append_assoc, List.cons_append, List.singleton_append, lex_escape,
      ih]
    rfl

theorem lex_plain {w : CStr} (hw : ∀ b ∈ w, b ≠ 92) (line : CStr) :
    lex (w ++ line) = w.map .plain ++ lex line := by
  induction w with
  | nil => rfl
  | cons b w ih =>
    rw [List.cons_append, lex_cons (hw b List.mem_cons_self),
      ih fun c hc => hw c (List.mem_cons_of_mem b hc)]
    rfl

/-- What stands behind a quoted word is not read with it. -/
theorem Quoted.lex_append {w text : CStr} (h : Quoted w text) (line : CStr) :
    lex (text ++ line) = lex text ++ lex line := by
  cases h with
  | escaped =>
    have hself := lex_escaped w []
    rw [List.append_nil] at hself
    rw [lex_escaped, hself]
    simp [lex]
  | enclosed hw =>
    have hplain : ∀ b ∈ 34 :: w ++ [34], b ≠ (92 : UInt8) := by
      intro b hb
      simp only [List.cons_append, List.mem_cons, List.mem_append, List.not_mem_nil,
        or_false] at hb
      rcases hb with rfl | hb | rfl
      · decide
      · exact (hw b hb).2.2
      · decide
    have hself := lex_plain hplain []
    rw [List.append_nil] at hself
    rw [lex_plain hplain, hself]
    simp [lex]

/-! ### Splitting -/

theorem splitFrom_escaped (word : Option (List Sym)) (q b : UInt8) (line : List Sym) :
    splitFrom word q (.escaped b :: line) =
      splitFrom (some (word.getD [] ++ [.escaped b])) q line := by
  rw [splitFrom.eq_def]

theorem splitFrom_nil (word : Option (List Sym)) (q : UInt8) :
    splitFrom word q [] = word.toList := by
  rw [splitFrom.eq_def]

/-- Escaped bytes add to the current word. -/
theorem split_escaped (w0 : List Sym) (w : CStr) (rest : List Sym) :
    splitFrom (some w0) 0 (w.map .escaped ++ rest) =
      splitFrom (some (w0 ++ w.map .escaped)) 0 rest := by
  induction w generalizing w0 with
  | nil => simp
  | cons b w ih =>
    have hstep := ih (w0 ++ [.escaped b])
    rw [List.map_cons, List.cons_append, splitFrom_escaped, Option.getD_some]
    simpa using hstep

/-- Bytes between double quotes add to the current word. -/
theorem split_enclosed (w0 : List Sym) {w : CStr} (hw : ∀ b ∈ w, b ≠ 34 ∧ b ≠ 39 ∧ b ≠ 92)
    (rest : List Sym) :
    splitFrom (some w0) 34 (w.map .plain ++ rest) =
      splitFrom (some (w0 ++ w.map .plain)) 34 rest := by
  induction w generalizing w0 with
  | nil => simp
  | cons b w ih =>
    have hb := hw b List.mem_cons_self
    have hstep := ih (w0 ++ [.plain b]) fun c hc => hw c (List.mem_cons_of_mem b hc)
    rw [List.map_cons, List.cons_append, splitFrom_plain, if_neg hb.1, if_neg (by simp),
      if_neg (by simp [isQuote, hb.1, hb.2.1])]
    simpa using hstep

/-- Between two words there is nothing, or an empty word that a quote drops. -/
def Between (word : Option (List Sym)) : Prop := word = none ∨ word = some []

/-- What follows a quoted word: the end of the line or a space. -/
def spaced : Option (List Sym) → List Sym
  | none => []
  | some line => .plain 32 :: line

theorem wordText_map {f : UInt8 → Sym} (hf : ∀ b, (f b).text = [b]) (w : CStr) :
    wordText (w.map f) = w := by
  induction w with
  | nil => rfl
  | cons b w ih =>
    rw [wordText] at ih ⊢
    rw [List.map_cons, List.flatMap_cons, hf, ih]
    rfl

/-- A quoted word at the start of a line is its first word. -/
theorem split_text {w text : CStr} (h : Quoted w text) (hne : w ≠ []) {word : Option (List Sym)}
    (hword : Between word) (line : Option (List Sym)) :
    ∃ w', wordText w' = w ∧ splitFrom word 0 (lex text ++ spaced line) =
      w' :: (line.map (splitFrom none 0)).getD [] := by
  cases h with
  | escaped =>
    refine ⟨w.map .escaped, wordText_map (fun _ => rfl) w, ?_⟩
    have hlex := lex_escaped w []
    rw [List.append_nil, lex, List.append_nil] at hlex
    have hbegin : splitFrom word 0 (w.map .escaped ++ spaced line) =
        splitFrom (some []) 0 (w.map .escaped ++ spaced line) := by
      obtain ⟨b, w, rfl⟩ := List.exists_cons_of_ne_nil hne
      rw [List.map_cons, List.cons_append, splitFrom_escaped, splitFrom_escaped]
      rcases hword with rfl | rfl <;> rfl
    rw [hlex, hbegin, split_escaped, List.nil_append]
    cases line with
    | none => exact splitFrom_nil _ _
    | some line =>
      -- the space ends the word
      rw [spaced, splitFrom_plain, if_neg (by decide), if_pos ⟨rfl, rfl, .inl (by decide)⟩]
      simp
  | enclosed hw =>
    refine ⟨w.map .plain, wordText_map (fun _ => rfl) w, ?_⟩
    have hlex : lex (34 :: w ++ [34]) = .plain 34 :: (w.map .plain ++ [.plain 34]) := by
      rw [List.cons_append, lex_cons (by decide), lex_plain fun b hb => (hw b hb).2.2]
      rfl
    have hquote : splitFrom word 0 (.plain 34 :: (w.map .plain ++ .plain 34 :: spaced line)) =
        splitFrom (some []) 34 (w.map .plain ++ .plain 34 :: spaced line) := by
      rw [splitFrom_plain, if_neg (by decide), if_neg (by simp [isspace]), if_pos (by decide)]
    rw [hlex, List.cons_append, List.append_assoc, List.singleton_append, hquote,
      split_enclosed [] hw, List.nil_append, splitFrom_plain, if_pos rfl]
    cases line with
    | none => simp [spaced, splitFrom_nil]
    | some line =>
      -- the space stands between the words
      rw [spaced, splitFrom_plain, if_neg (by decide), if_neg (by simp), if_neg (by decide)]
      simp [isspace]

/-- The words of a line of quoted words. -/
theorem splitFrom_texts {ws texts : List CStr} (h : List.Forall₂ Quoted ws texts)
    (hne : ∀ w ∈ ws, w ≠ []) (hlen : ws ≠ []) {word : Option (List Sym)} (hword : Between word) :
    (splitFrom word 0 (lex ([32].intercalate texts))).map wordText = ws := by
  induction h generalizing word with
  | nil => contradiction
  | @cons w text ws texts htext htexts ih =>
    have hw : w ≠ [] := hne w List.mem_cons_self
    have hrest : ∀ w ∈ ws, w ≠ [] := fun v hv => hne v (List.mem_cons_of_mem w hv)
    cases htexts with
    | nil =>
      obtain ⟨w', hw', hsplit⟩ := split_text htext hw hword none
      rw [spaced, List.append_nil] at hsplit
      rw [List.intercalate_singleton, hsplit]
      simp [hw']
    | @cons v text' ws texts htext' htexts =>
      obtain ⟨w', hw', hsplit⟩ :=
        split_text htext hw hword (some (lex ([32].intercalate (text' :: texts))))
      rw [List.intercalate_cons_cons, List.append_assoc, htext.lex_append,
        List.singleton_append, lex_cons (by decide)]
      rw [spaced] at hsplit
      rw [hsplit]
      simp [hw', ih hrest (by simp) (.inl rfl)]

theorem Quoted.ascii {w text : CStr} (h : Quoted w text) (hw : ∀ b ∈ w, b ≠ 0 ∧ b < 128) :
    ∀ b ∈ text, b ≠ 0 ∧ b < 128 := by
  cases h with
  | escaped =>
    intro b hb
    obtain ⟨c, hc, hb⟩ := List.mem_flatMap.mp hb
    simp only [List.mem_cons, List.not_mem_nil, or_false] at hb
    rcases hb with rfl | rfl
    · decide
    · exact hw _ hc
  | enclosed =>
    intro b hb
    simp only [List.cons_append, List.mem_cons, List.mem_append, List.not_mem_nil,
      or_false] at hb
    rcases hb with rfl | hb | rfl
    · decide
    · exact hw b hb
    · decide

theorem texts_ascii {ws texts : List CStr} (h : List.Forall₂ Quoted ws texts)
    (hws : ∀ w ∈ ws, Word w) : ∀ b ∈ [32].intercalate texts, b ≠ 0 ∧ b < 128 := by
  induction h with
  | nil => simp
  | @cons w text ws texts htext htexts ih =>
    have hw := htext.ascii (hws w List.mem_cons_self).2
    have ih := ih fun v hv => hws v (List.mem_cons_of_mem w hv)
    cases texts with
    | nil => simpa using hw
    | cons text' texts =>
      intro b hb
      rw [List.intercalate_cons_cons, List.mem_append, List.mem_append, List.mem_singleton] at hb
      rcases hb with (hb | rfl) | hb
      · exact hw b hb
      · decide
      · exact ih b hb

/-- A quoted word does not start with a space. -/
theorem Quoted.head {w text : CStr} (h : Quoted w text) (hne : w ≠ []) (line : CStr) :
    ∃ s rest, lex (text ++ line) = s :: rest ∧ s.isspace = false := by
  cases h with
  | escaped =>
    obtain ⟨b, w, rfl⟩ := List.exists_cons_of_ne_nil hne
    exact ⟨.escaped b, w.map Sym.escaped ++ lex line, lex_escaped (b :: w) line, rfl⟩
  | enclosed hw => exact ⟨.plain 34, _, lex_cons (by decide) _, by decide⟩

/-- A line of quoted words splits into the words. -/
theorem splitLine_texts {ws texts : List CStr} (h : List.Forall₂ Quoted ws texts)
    (hne : ∀ w ∈ ws, w ≠ []) : (splitLine (lex ([32].intercalate texts))).map wordText = ws := by
  cases h with
  | nil => rfl
  | @cons w text ws texts htext htexts =>
    have hsplit := splitFrom_texts (.cons htext htexts) hne (by simp) (.inr rfl)
    obtain ⟨line, hline⟩ : ∃ line, [32].intercalate (text :: texts) = text ++ line := by
      cases texts with
      | nil => exact ⟨[], by simp⟩
      | cons text' texts => exact ⟨_, by rw [List.intercalate_cons_cons, List.append_assoc]⟩
    obtain ⟨s, rest, hlex, hspace⟩ := htext.head (hne w List.mem_cons_self) line
    rw [hline, hlex] at hsplit ⊢
    rw [splitLine, List.dropWhile_cons_of_neg (by simp [hspace])]
    exact hsplit

/-! ### The splitter -/

/-- A line of quoted words is split into the words, and the splitter ends inside of its blocks on
    every line. -/
theorem split_inverts_quoting :
    (∀ (ws texts : List CStr) (max_words : Nat), (∀ w ∈ ws, Word w) →
      List.Forall₂ Quoted ws texts → ws.length ≤ max_words - 1 →
      ∃ fuel, Bytes.console_parse_line fuel ([32].intercalate texts ++ [0]) max_words =
        some ws) ∧
    ∀ (line : CStr) (max_words : Nat), (∀ b ∈ line, b ≠ 0) →
      ∃ fuel words, Bytes.console_parse_line fuel (line ++ [0]) max_words = some words := by
  constructor
  · intro ws texts max_words hws htexts hlen
    have hascii := texts_ascii htexts hws
    refine ⟨2 * ([32].intercalate texts).length + 2, ?_⟩
    rw [Bytes.console_parse_line_spec (fun b hb => (hascii b hb).1) (by omega),
      console_parse_line_eq hascii, splitLine_texts htexts fun w hw => (hws w hw).1,
      List.take_of_length_le hlen]
  · intro line max_words hline
    exact ⟨2 * line.length + 2, _, Bytes.console_parse_line_spec hline (by omega) max_words⟩

/-- `\a "b c"` and the two words `a` and `b c`. -/
theorem split_inverts_quoting_two :
    (∃ fuel, Bytes.console_parse_line fuel [92, 97, 32, 34, 98, 32, 99, 34, 0] 3 =
      some [[97], [98, 32, 99]]) ∧
    ∃ fuel words, Bytes.console_parse_line fuel [97, 34, 92, 0] 3 = some words :=
  ⟨split_inverts_quoting.1 [[97], [98, 32, 99]] [[92, 97], [34, 98, 32, 99, 34]] 3
    (by simp [Word]) (.cons .escaped (.cons (.enclosed (by decide +kernel)) .nil))
      (by decide),
   split_inverts_quoting.2 [97, 34, 92] 3 (by decide +kernel)⟩

end Hcrtos.Native.Console
