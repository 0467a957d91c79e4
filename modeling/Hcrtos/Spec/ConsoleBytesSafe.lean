import Hcrtos.Native.ConsoleBytes
import Hcrtos.Spec.ConsoleWords

/-!
# Console commands: the splitter stays inside of its line

The loops by index compute what the functions on lists of bytes do, for every line of bytes that
are not 0 with one terminator behind them. The line is the whole block, so that an access behind
the terminator would give `none`.

## Key results

- `mark_quot_spec`, `revert_quot_spec`: the passes that edit a block in place
- `console_parse_line_spec`: the whole splitter
-/

namespace Hcrtos.Native.Console.Bytes

open CString Hcrtos.Loop

/-! ### Blocks -/

theorem get_mid (pre : Block) (c : UInt8) (post : Block) :
    (pre ++ c :: post)[pre.length]? = some c := by
  simp

theorem set_mid (pre : Block) (c d : UInt8) (post : Block) :
    (pre ++ c :: post).set pre.length d = pre ++ d :: post := by
  simp

theorem get_next (pre : Block) (c d : UInt8) (post : Block) :
    (pre ++ c :: d :: post)[pre.length + 1]? = some d := by
  simp

theorem set_next (pre : Block) (c d e : UInt8) (post : Block) :
    (pre ++ c :: d :: post).set (pre.length + 1) e = pre ++ c :: e :: post := by
  simp

/-- A terminator ends the string of a block. -/
theorem string_terminated (pre post : Block) :
    string (pre ++ 0 :: post) = pre.takeWhile (· ≠ 0) := by
  induction pre with
  | nil => rfl
  | cons b pre ih =>
    rw [string] at ih ⊢
    rw [List.cons_append, List.takeWhile_cons, List.takeWhile_cons, ih]

/-! ### Quoting -/

theorem or_quot_ne (b : UInt8) : b ||| 0x80 ≠ 92 ∧ b ||| 0x80 ≠ 0 := by
  have hall : ∀ n : Fin 256, UInt8.ofNat n ||| 0x80 ≠ 92 ∧ UInt8.ofNat n ||| 0x80 ≠ 0 := by
    decide +kernel
  simpa using hall ⟨b.toNat, b.toNat_lt⟩

theorem mark_quot_cons {b : UInt8} (hb : b ≠ 92) (line : CStr) :
    Console.mark_quot (b :: line) = b :: Console.mark_quot line := by
  simp [Console.mark_quot, hb]

theorem mark_quot_escape (b : UInt8) (line : CStr) :
    Console.mark_quot (92 :: b :: line) = 92 :: Console.mark_quot ((b ||| 0x80) :: line) := by
  rw [mark_quot_cons (or_quot_ne b).1]
  rfl

/-- The loop marks what is left of the line and ends at its terminator. -/
theorem mark_loop {fuel : Nat} : ∀ {rest : CStr} (pre : Block), (∀ b ∈ rest, b ≠ 0) →
    rest.length < fuel →
    loop markBody fuel (pre.length, pre ++ rest ++ [0]) =
      some (some (pre ++ Console.mark_quot rest ++ [0])) := by
  induction fuel with
  | zero =>
    intro rest pre _ hfuel
    omega
  | succ fuel ih =>
    intro rest pre hrest hfuel
    cases rest with
    | nil => simp [loop, markBody, Console.mark_quot]
    | cons b rest =>
      have hb : b ≠ 0 := hrest b List.mem_cons_self
      have hrest' : ∀ c ∈ rest, c ≠ 0 := fun c hc => hrest c (List.mem_cons_of_mem b hc)
      rw [List.length_cons] at hfuel
      have hnext := fun d rest' h => @ih rest' (pre ++ [d]) h
      simp only [List.length_append, List.length_singleton, List.append_assoc,
        List.singleton_append] at hnext
      by_cases hback : b = 92
      · subst hback
        cases rest with
        | nil => simpa [loop, markBody, Console.mark_quot] using hnext 92 [] (by simp) (by omega)
        | cons c rest =>
          -- the byte behind the backslash is marked before the loop comes to it
          have hc : c ≠ 0 := hrest' c List.mem_cons_self
          have hmarked := hnext 92 ((c ||| 0x80) :: rest) (by
            intro d hd
            rcases List.mem_cons.mp hd with rfl | hd
            · exact (or_quot_ne c).2
            · exact hrest' d (List.mem_cons_of_mem c hd)) (by simpa using hfuel)
          rw [mark_quot_escape]
          simp only [loop, markBody, List.append_assoc, List.cons_append, get_mid, get_next,
            set_next]
          simpa [hc] using hmarked
      · rw [mark_quot_cons hback]
        simp only [loop, markBody, List.append_assoc, List.cons_append, get_mid, hb, hback,
          if_false]
        simpa using hnext b rest hrest' (by omega)

theorem mark_quot_spec {fuel : Nat} {line : CStr} (hline : ∀ b ∈ line, b ≠ 0)
    (hfuel : line.length < fuel) :
    mark_quot fuel (line ++ [0]) = some (Console.mark_quot line ++ [0]) := by
  have := mark_loop [] hline hfuel
  simp only [List.length_nil, List.nil_append] at this
  rw [mark_quot, this]
  rfl

/-! ### Reverting -/

/-- The byte in front of `rest` is taken out of the block. -/
theorem remove_loop {fuel : Nat} : ∀ {rest : CStr} (pre : Block) (a : UInt8) (post : Block),
    (∀ b ∈ rest, b ≠ 0) → rest.length < fuel →
    loop removeBody fuel (pre.length, pre.length + 1, pre ++ a :: (rest ++ 0 :: post)) =
      some (some (pre ++ rest ++ 0 :: 0 :: post)) := by
  induction fuel with
  | zero =>
    intro rest pre a post _ hfuel
    omega
  | succ fuel ih =>
    intro rest pre a post hrest hfuel
    cases rest with
    | nil =>
      have hget := get_next pre a 0 post
      have hset := set_mid pre a 0 (0 :: post)
      simp [loop, removeBody]
    | cons b rest =>
      have hb : b ≠ 0 := hrest b List.mem_cons_self
      have hstep := @ih rest (pre ++ [b]) b post (fun c hc => hrest c (List.mem_cons_of_mem b hc))
        (by simpa using hfuel)
      have hget := get_next pre a b (rest ++ 0 :: post)
      have hset := set_mid pre a b (b :: (rest ++ 0 :: post))
      have hlt : pre.length < (pre ++ a :: b :: (rest ++ 0 :: post)).length := by simp
      simp only [loop, removeBody, List.cons_append, hget, hlt, if_true, ne_eq, hb,
        not_false_eq_true, hset]
      simpa using hstep

theorem remove_chunk_spec {fuel : Nat} {rest : CStr} (pre : Block) (a : UInt8) (post : Block)
    (hrest : ∀ b ∈ rest, b ≠ 0) (hfuel : rest.length < fuel) :
    remove_chunk fuel (pre ++ a :: (rest ++ 0 :: post)) pre.length (pre.length + 1) =
      some (pre ++ rest ++ 0 :: 0 :: post) := by
  rw [remove_chunk, if_neg (by omega), remove_loop pre a post hrest hfuel]
  rfl

/-- Behind the end of the word the loop finds zeros, and changes nothing. -/
theorem revert_zeros (fuel : Nat) (post : Block) (rounds : Nat) : ∀ (pre : Block),
    revertFrom fuel rounds pre.length (pre ++ List.replicate rounds 0 ++ post) =
      some (pre ++ List.replicate rounds 0 ++ post) := by
  induction rounds with
  | zero =>
    intro pre
    rfl
  | succ rounds ih =>
    intro pre
    have hrest := ih (pre ++ [0])
    rw [List.replicate_succ]
    simp only [revertFrom, List.append_assoc, List.cons_append, get_mid]
    simpa using hrest

/-- The loop reverts what is left of the word in the block. What it takes out becomes zeros
    behind the terminator. -/
theorem revert_loop {fuel : Nat} (rounds : Nat) : ∀ {rest : CStr} (pre : Block) (k : Nat),
    (∀ b ∈ rest, b ≠ 0) → rest.length + k = rounds → rest.length < fuel →
    ∃ block, revertFrom fuel rounds pre.length (pre ++ rest ++ List.replicate (k + 1) 0) =
        some block ∧
      string block = (pre ++ Console.revert_quot.go rest).takeWhile (· ≠ 0) := by
  have hzeros : ∀ (rounds : Nat) (pre : Block),
      ∃ block, revertFrom fuel rounds pre.length (pre ++ List.replicate (rounds + 1) 0) =
        some block ∧ string block = (pre ++ []).takeWhile (· ≠ 0) := by
    intro rounds pre
    have hrun := revert_zeros fuel [0] rounds pre
    have hblock : pre ++ List.replicate rounds 0 ++ [0] = pre ++ List.replicate (rounds + 1) 0 := by
      rw [List.append_assoc, ← List.replicate_succ']
    rw [hblock] at hrun
    refine ⟨_, hrun, ?_⟩
    rw [List.replicate_succ, string_terminated, List.append_nil]
  induction rounds with
  | zero =>
    intro rest pre k _ hlen _
    obtain ⟨hrest, rfl⟩ := Nat.add_eq_zero_iff.mp hlen
    obtain rfl := List.length_eq_zero_iff.mp hrest
    simpa [Console.revert_quot.go] using hzeros 0 pre
  | succ rounds ih =>
    intro rest pre k hrest hlen hfuel
    cases rest with
    | nil =>
      obtain rfl : k = rounds + 1 := by simp at hlen; omega
      simpa [Console.revert_quot.go] using hzeros (rounds + 1) pre
    | cons b rest =>
      have hrest' : ∀ c ∈ rest, c ≠ 0 := fun c hc => hrest c (List.mem_cons_of_mem b hc)
      rw [List.length_cons] at hlen hfuel
      by_cases hback : b = 92
      · subst hback
        have hremove := @remove_chunk_spec fuel _ pre 92 (List.replicate k 0) hrest' (by omega)
        have hblock : pre ++ 92 :: rest ++ List.replicate (k + 1) 0 =
            pre ++ 92 :: (rest ++ 0 :: List.replicate k 0) := by
          simp [List.replicate_succ]
        rw [hblock]
        simp only [revertFrom, get_mid, if_true, hremove]
        cases rest with
        | nil =>
          -- the backslash was the last byte: the terminator takes its place and stays one
          obtain rfl : k = rounds := by simp at hlen; omega
          have hrun := revert_zeros fuel [0] k (pre ++ [0])
          have hgo : Console.revert_quot.go [92] = [] := rfl
          refine ⟨pre ++ [0] ++ List.replicate k 0 ++ [0], ?_, ?_⟩
          · have hshift : pre ++ [0] ++ List.replicate k 0 ++ [0] =
                pre ++ 0 :: 0 :: List.replicate k 0 := by
              simp [← List.replicate_succ', List.replicate_succ]
            rw [hshift] at hrun ⊢
            simpa using hrun
          · rw [List.append_assoc, List.append_assoc, List.singleton_append, string_terminated,
              hgo, List.append_nil]
        | cons c rest =>
          have hback' : Console.revert_quot.go (92 :: c :: rest) =
              (c &&& 0x7f) :: Console.revert_quot.go rest := rfl
          obtain ⟨block, hrun, hstring⟩ := @ih rest (pre ++ [c &&& 0x7f]) (k + 1)
            (fun d hd => hrest' d (List.mem_cons_of_mem c hd)) (by simp at hlen; omega)
            (by simp at hfuel; omega)
          refine ⟨block, ?_, ?_⟩
          · simp only [List.append_assoc, List.cons_append, get_mid, set_mid]
            simpa [List.replicate_succ] using hrun
          · rw [hstring, hback']
            simp
      · have hgo : Console.revert_quot.go (b :: rest) = b :: Console.revert_quot.go rest := by
          simp [Console.revert_quot.go, hback]
        obtain ⟨block, hrun, hstring⟩ := ih (pre ++ [b]) k hrest' (by omega) (by omega)
        refine ⟨block, ?_, ?_⟩
        · simp only [revertFrom, List.append_assoc, List.cons_append, get_mid, hback, if_false]
          simpa using hrun
        · rw [hstring, hgo]
          simp

theorem revert_quot_spec {fuel : Nat} {word : CStr} (hword : ∀ b ∈ word, b ≠ 0)
    (hfuel : word.length < fuel) :
    ∃ block, revert_quot fuel (word ++ [0]) word.length = some block ∧
      string block = Console.revert_quot word := by
  simpa [revert_quot, Console.revert_quot] using
    revert_loop word.length [] 0 hword (Nat.add_zero _) hfuel

/-! ### Splitting -/

/-- The text of the current word, whose start is at `word_start` in what was read. -/
def wordOf (pre : Block) (word_start : Option Nat) : Option CStr :=
  word_start.map fun i => pre.drop i

/-- The words after the end of the current one. -/
def ended (pre : Block) (word_start : Option Nat) (words : List CStr) : List CStr :=
  words ++ ((wordOf pre word_start).map Console.revert_quot).toList

/-- The copy of a word has room for it and its terminator, and is reverted. -/
theorem endWord_spec {fuel : Nat} {pre rest : Block} {word_start : Option Nat} {q : UInt8}
    {words : List CStr} (hpre : ∀ b ∈ pre, b ≠ 0) (hstart : ∀ i ∈ word_start, i ≤ pre.length)
    (hfuel : pre.length < fuel) :
    endWord fuel (pre ++ rest) ⟨pre.length, word_start, q, words⟩ =
      some (ended pre word_start words) := by
  cases word_start with
  | none => simp [endWord, ended, wordOf]
  | some i =>
    have hi : i ≤ pre.length := hstart i rfl
    have hword : (pre ++ rest).drop i = pre.drop i ++ rest := List.drop_append_of_le_length hi
    have htake : ((pre ++ rest).drop i).take (pre.length - i) = pre.drop i := by
      rw [hword, List.take_left' (List.length_drop)]
    obtain ⟨block, hrevert, hstring⟩ := @revert_quot_spec fuel (pre.drop i)
      (fun b hb => hpre b (List.mem_of_mem_drop hb)) (by rw [List.length_drop]; omega)
    rw [List.length_drop] at hrevert
    have hin : i ≤ pre.length ∧ pre.length ≤ (pre ++ rest).length := by simp [hi]
    simp only [endWord, htake, if_pos hin, hrevert, Option.map_some, hstring]
    rfl

/-- The end of a word does not consume the byte behind it. -/
theorem parseFrom_break {max_words : Nat} {words : List CStr} {w : CStr} {b : UInt8}
    {line : CStr} (hb : b ≠ 0) (hbreak : isspace b = true ∨ b = 124)
    (hroom : words.length < max_words - 1) :
    parseFrom max_words words (some w) 0 (b :: line) =
      parseFrom max_words (words ++ [Console.revert_quot w]) none 0 (b :: line) := by
  have hquote : ¬ (b = 34 ∨ b = 39) := by
    rcases hbreak with h | rfl
    · rintro (rfl | rfl) <;> simp [isspace] at h
    · decide
  have hspace : b ≠ 124 → isspace b = true := hbreak.resolve_right
  have hroom' : ¬ max_words ≤ words.length + 1 := by omega
  rw [parseFrom.eq_def, parseFrom.eq_def]
  by_cases hfull : max_words ≤ words.length + 1 + 1
  · simp [hroom', hb, hbreak, hfull]
  · by_cases hbar : b = 124
    · simp [hroom', hfull, hbar]
    · simp [hroom', hb, hquote, hfull, hbar, hspace hbar]

/-- The loop reads what is left of the line. The end of a word takes a round of its own. -/
theorem parse_loop {F max_words fuel : Nat} : ∀ {pre rest : CStr} {word_start : Option Nat}
    {q : UInt8} {words : List CStr}, (∀ b ∈ pre ++ rest, b ≠ 0) →
    (∀ i ∈ word_start, i ≤ pre.length) → (pre ++ rest).length < F →
    2 * rest.length + (if word_start.isSome then 1 else 0) < fuel →
    loop (parseBody F (pre ++ rest ++ [0]) max_words) fuel ⟨pre.length, word_start, q, words⟩ =
      some (some (parseFrom max_words words (wordOf pre word_start) q rest)) := by
  induction fuel with
  | zero =>
    intro pre rest word_start q words _ _ _ hfuel
    omega
  | succ fuel ih =>
    intro pre rest word_start q words hline hstart hF hfuel
    have hpre : ∀ b ∈ pre, b ≠ 0 := fun b hb => hline b (List.mem_append_left _ hb)
    have hFpre : pre.length < F := by rw [List.length_append] at hF; omega
    by_cases hroom : words.length < max_words - 1
    · cases rest with
      | nil =>
        have hend := @endWord_spec _ _ [0] _ q words hpre hstart hFpre
        rw [parseFrom_nil, if_pos hroom]
        simp [loop, parseBody, hroom, hend, ended]
      | cons b rest =>
        have hb : b ≠ 0 := hline b (by simp)
        have hget : (pre ++ b :: rest ++ [0])[pre.length]? = some b := by simp
        have hend := @endWord_spec _ _ (b :: rest ++ [0]) _ q words hpre hstart hFpre
        rw [← List.append_assoc] at hend
        -- the round that consumes the byte
        have hnext : ∀ {word_start' : Option Nat} {q' : UInt8} {words' : List CStr},
            (∀ i ∈ word_start', i ≤ pre.length + 1) →
            loop (parseBody F (pre ++ b :: rest ++ [0]) max_words) fuel
                ⟨pre.length + 1, word_start', q', words'⟩ =
              some (some (parseFrom max_words words' (wordOf (pre ++ [b]) word_start') q'
                rest)) := by
          intro word_start' q' words' hstart'
          have := @ih (pre ++ [b]) rest word_start' q' words' (by simpa using hline)
            (by simpa using hstart') (by simpa using hF)
            (by rw [List.length_cons] at hfuel; split <;> omega)
          simpa using this
        by_cases hq : b = q
        · -- the closing quote
          subst hq
          have hparse : parseFrom max_words words (wordOf pre word_start) b (b :: rest) =
              parseFrom max_words (ended pre word_start words) none 0 rest := by
            rw [parseFrom.eq_def]
            simp [hroom, ended]
          rw [hparse]
          simp only [loop, parseBody, hroom, not_true, if_false, hget, hb, false_or, true_or,
            if_true, hend, ne_eq, not_false_eq_true]
          exact hnext (by simp)
        · by_cases hbreak : word_start.isSome ∧ q = 0 ∧ (isspace b ∨ b = 124)
          · -- the end of a word outside of quotes
            obtain ⟨i, rfl⟩ := Option.isSome_iff_exists.mp hbreak.1
            obtain rfl := hbreak.2.1
            have hparse := @parseFrom_break _ _ (pre.drop i) _ rest hb hbreak.2.2 hroom
            have hend' := @ih pre (b :: rest) none 0 (ended pre (some i) words) hline (by simp) hF
              (by rw [Option.isSome_some] at hfuel; simpa using hfuel)
            rw [wordOf, Option.map_some, hparse]
            simp only [loop, parseBody, hroom, not_true, if_false, hget, hb, hbreak.2.2, true_and,
              Option.isSome_some, or_true, if_true, hend, ne_eq]
            exact hend'
          · by_cases hquote : b = 34 ∨ b = 39
            · -- an opening quote
              have hparse : parseFrom max_words words (wordOf pre word_start) q (b :: rest) =
                  parseFrom max_words words (wordOf (pre ++ [b]) (some (pre.length + 1))) b
                    rest := by
                have hword : (wordOf pre word_start).isSome = word_start.isSome := by
                  rw [wordOf, Option.isSome_map]
                rw [parseFrom.eq_def]
                simp only [hroom, not_true, if_false, hq, hword, hbreak, hquote, if_true]
                simp [wordOf]
              rw [hparse]
              simp only [loop, parseBody, hroom, not_true, if_false, hget, hb, hq, hbreak, false_or,
                hquote, if_true]
              exact hnext (by simp)
            · cases word_start with
              | some i =>
                -- a byte of the current word
                have hparse : parseFrom max_words words (wordOf pre (some i)) q (b :: rest) =
                    parseFrom max_words words (wordOf (pre ++ [b]) (some i)) q rest := by
                  have hi : i ≤ pre.length := hstart i rfl
                  have hdrop : (pre ++ [b]).drop i = pre.drop i ++ [b] :=
                    List.drop_append_of_le_length hi
                  rw [parseFrom.eq_def]
                  simp only [wordOf, Option.map_some, hdrop]
                  simp only [Option.isSome_some, true_and] at hbreak ⊢
                  rw [if_neg (not_not.mpr hroom), if_neg hq, if_neg hbreak, if_neg hquote]
                rw [hparse]
                simp only [loop, parseBody, hroom, not_true, if_false, hget, hb, hq, hbreak,
                  false_or, hquote]
                exact hnext (fun j hj => Nat.le_succ_of_le (hstart j hj))
              | none =>
                have hparse : parseFrom max_words words (wordOf pre none) q (b :: rest) =
                    if b = 124 then parseFrom max_words (words ++ [[124]]) none q rest
                    else if isspace b then parseFrom max_words words none q rest
                    else parseFrom max_words words (some [b]) q rest := by
                  have hword : wordOf pre none = none := rfl
                  rw [hword, parseFrom.eq_def]
                  simp only [hroom, not_true, if_false, hq, Option.isSome_none,
                    Bool.false_eq_true, false_and, hquote]
                rw [hparse]
                simp only [loop, parseBody, hroom, not_true, if_false, hget, hb, hq, hbreak,
                  false_or, hquote]
                by_cases hbar : b = 124
                · simp only [hbar, if_true]
                  exact hbar ▸ hnext (by simp)
                · by_cases hspace : isspace b
                  · simp only [hbar, hspace, if_true, if_false]
                    exact hnext (by simp)
                  · simp only [hbar, hspace, if_false]
                    have hbegin := @hnext (some pre.length) q words (by simp)
                    simpa [wordOf] using hbegin
    · rw [parseFrom_full hroom]
      simp [loop, parseBody, hroom]

/-- The loop over the white space finds the first byte that is none. -/
theorem skip_loop {fuel : Nat} : ∀ {pre rest : CStr}, (∀ b ∈ rest, b ≠ 0) → rest.length < fuel →
    ∃ word_start, loop (skipBody (pre ++ rest ++ [0])) fuel pre.length =
        some (some (pre.length + (rest.takeWhile isspace).length, word_start)) ∧
      word_start = if rest.dropWhile isspace = [] then none
        else some (pre.length + (rest.takeWhile isspace).length) := by
  induction fuel with
  | zero =>
    intro pre rest _ hfuel
    omega
  | succ fuel ih =>
    intro pre rest hrest hfuel
    cases rest with
    | nil => simp [loop, skipBody]
    | cons b rest =>
      have hb : b ≠ 0 := hrest b List.mem_cons_self
      have hget : (pre ++ b :: rest ++ [0])[pre.length]? = some b := by simp
      by_cases hspace : isspace b = true
      · obtain ⟨word_start, hloop, hstart⟩ := @ih (pre ++ [b]) rest
          (fun c hc => hrest c (List.mem_cons_of_mem b hc)) (by simpa using hfuel)
        simp only [List.append_assoc, List.singleton_append, List.length_append,
          List.length_singleton] at hloop hstart
        have hcount : pre.length + 1 + (rest.takeWhile isspace).length =
            pre.length + ((rest.takeWhile isspace).length + 1) := by omega
        rw [hcount] at hloop hstart
        rw [List.dropWhile_cons_of_pos hspace, List.takeWhile_cons_of_pos hspace, List.length_cons]
        refine ⟨word_start, ?_, hstart⟩
        simp only [loop, skipBody, hget, hb, if_false, hspace, if_true]
        simpa using hloop
      · simp [loop, skipBody, hb, hspace]

theorem mark_quot_ne {line : CStr} (hline : ∀ b ∈ line, b ≠ 0) :
    ∀ b ∈ Console.mark_quot line, b ≠ 0 := by
  rw [mark_quot_eq]
  fun_induction lex line with
  | case1 => simp
  | case2 => simp [Sym.mark]
  | case3 b hb => simpa [Sym.mark] using hline
  | case4 c line ih =>
    simp only [List.mem_cons, forall_eq_or_imp] at hline
    rw [List.flatMap_cons]
    simpa [Sym.mark, (or_quot_ne c).2] using ih hline.2.2
  | case5 b c line hb ih =>
    rw [List.flatMap_cons]
    rw [List.forall_mem_cons] at hline
    simpa [Sym.mark, hline.1] using ih hline.2

theorem length_mark_quot (line : CStr) : (Console.mark_quot line).length = line.length := by
  rw [mark_quot_eq]
  fun_induction lex line with
  | case1 => rfl
  | case2 => rfl
  | case3 b hb => rfl
  | case4 c line ih =>
    rw [List.flatMap_cons, List.length_append, ih]
    simp only [Sym.mark, List.length_cons, List.length_nil]
    omega
  | case5 b c line hb ih =>
    rw [List.flatMap_cons, List.length_append, ih]
    simp [Sym.mark, Nat.add_comm]

/-- The splitter ends on every line, and every access is inside of a block. -/
theorem console_parse_line_spec {fuel : Nat} {line : CStr} (hline : ∀ b ∈ line, b ≠ 0)
    (hfuel : 2 * line.length + 1 < fuel) (max_words : Nat) :
    console_parse_line fuel (line ++ [0]) max_words =
      some (Console.console_parse_line line max_words) := by
  have hlength := length_mark_quot line
  have hne := mark_quot_ne hline
  rw [console_parse_line, mark_quot_spec hline (by omega), Option.bind_some,
    Console.console_parse_line]
  generalize Console.mark_quot line = marked at hlength hne
  obtain ⟨word_start, hskip, hstart⟩ := @skip_loop fuel [] _ hne (by omega)
  simp only [List.nil_append, List.length_nil, Nat.zero_add] at hskip hstart
  rw [hskip, Option.join_some, Option.bind_some]
  -- the loop starts behind the white space
  have hsplit := List.takeWhile_append_dropWhile (p := isspace) (l := marked)
  have hparse := @parse_loop fuel max_words fuel (marked.takeWhile isspace)
    (marked.dropWhile isspace) word_start 0 [] (by rwa [hsplit])
    (by
      rw [hstart]
      split <;> simp)
    (by rw [hsplit]; omega)
    (by
      have := List.length_dropWhile_le (p := isspace) marked
      split <;> omega)
  rw [hsplit] at hparse
  dsimp only
  rw [hparse, Option.join_some, hstart]
  cases hdrop : marked.dropWhile isspace with
  | nil => rfl
  | cons b rest => simp [wordOf]

end Hcrtos.Native.Console.Bytes
