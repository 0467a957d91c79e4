import Hcrtos.Native.ConsoleBytes
import Hcrtos.Spec.ConsoleCompletion

/-!
# Console commands: what the lookup reads

`console_find_cmd2` by index is the lookup on the list of the words. It looks at the last byte of
every word that it comes to, and an empty word has none.

## Key results

- `length_console_parse_line`: the words of a line leave a null pointer at the end of the array
- `find_cmd2_eq`: the lookup by index
- `find_cmd2_reads_iff`: it reads only what there is exactly when it comes to no empty word
-/

namespace Hcrtos.Native.Console

open CString

/-! ### The number of words -/

theorem length_parseFrom {max_words : Nat} {line : CStr} :
    ∀ {words : List CStr} {word : Option CStr} {q : UInt8}, words.length ≤ max_words - 1 →
      (parseFrom max_words words word q line).length ≤ max_words - 1 := by
  -- a word is appended only where there is room for one
  have hroom : ∀ {words : List CStr} (word : Option CStr), words.length < max_words - 1 →
      (words ++ word.toList).length ≤ max_words - 1 := by
    intro words word hlt
    cases word <;> simp <;> omega
  induction line with
  | nil =>
    intro words word q hle
    rw [parseFrom.eq_def]
    dsimp only
    split
    · exact hroom _ ‹_›
    · exact hle
  | cons b line ih =>
    intro words word q hle
    rw [parseFrom.eq_def]
    dsimp only
    split
    · exact hle
    · rename_i hlt
      rw [not_not] at hlt
      have hbar : (words ++ [[124]]).length ≤ max_words - 1 := hroom (some [124]) hlt
      split
      · exact ih (hroom _ hlt)
      · split
        · split
          · exact hroom _ hlt
          · rename_i hlt'
            rw [not_not] at hlt'
            split
            · exact ih (hroom (some [124]) hlt')
            · exact ih (hroom _ hlt)
        · split
          · exact ih hle
          · split
            · exact ih hle
            · split
              · exact ih hbar
              · split
                · exact ih hle
                · exact ih hle

/-- There is room for a null pointer behind the words of a line. -/
theorem length_console_parse_line (line : CStr) (max_words : Nat) :
    (console_parse_line line max_words).length ≤ max_words - 1 := by
  rw [console_parse_line]
  split
  · exact length_parseFrom (Nat.zero_le _)
  · exact length_parseFrom (Nat.zero_le _)

/-! ### The lookup -/

/-- The last byte of a word. -/
theorem charAt_last (word : CStr) :
    Bytes.charAt word ((word.length : Int) - 1) = word.getLast? := by
  rcases List.eq_nil_or_concat word with rfl | ⟨w, b, rfl⟩
  · rfl
  · simp [Bytes.charAt]

section

variable (run : UInt32 → List CStr → Console → Int × Console)

theorem find_cmd2_null {s : Console} {mode num_words : Nat} {words : List (Option CStr)} {i : Nat}
    {parent : Option Addr} (hget : words[i]? = some none) :
    Bytes.console_find_cmd2 run s mode num_words words i parent = some (CONSOLE_ERROR, s) := by
  rw [Bytes.console_find_cmd2.eq_def]
  split
  · rename_i h
    rw [hget] at h
    cases h
  · rfl
  · rename_i h
    rw [hget] at h
    cases h

theorem find_cmd2_word {s : Console} {mode num_words : Nat} {words : List (Option CStr)} {i : Nat}
    {parent : Option Addr} {w : CStr} (hget : words[i]? = some (some w)) :
    Bytes.console_find_cmd2 run s mode num_words words i parent =
      match lookup (s.level parent) mode w with
      | .outOfBounds => none
      | .help => some (CONSOLE_OK, s)
      | .invalid => some (CONSOLE_ERROR_ARG, s)
      | .found c =>
        let args := ((words.drop i).take (num_words - i)).filterMap id
        if s.children c = [] ∨ i + 1 = num_words then some (correctChecks run s c args)
        else
          (Bytes.console_find_cmd2 run s mode num_words words (i + 1) (some c.addr)).map
            fun (rc, s') =>
              if rc = CONSOLE_ERROR_ARG then correctChecks run s' c args else (rc, s') := by
  rw [Bytes.console_find_cmd2.eq_def]
  split
  · rename_i h
    rw [hget] at h
    cases h
  · rename_i h
    rw [hget] at h
    cases h
  · rename_i w' h
    obtain rfl : w = w' := by simpa [hget] using h
    rw [charAt_last, lookup]
    cases w.getLast? with
    | none => rfl
    | some b =>
      by_cases hhelp : b = 63
      · simp [hhelp]
      · simp only [hhelp, if_false]
        cases (s.level parent).find? (selects mode w) <;> rfl

/-- The lookup by index is the lookup on the words that are left. -/
theorem find_cmd2_eq (s : Console) (mode : Nat) {words : List CStr}
    (hwords : words.length < MAX_WORDS) {rest : List CStr} :
    ∀ {done : List CStr} (parent : Option Addr), words = done ++ rest →
      Bytes.console_find_cmd2 run s mode words.length (Bytes.wordArray words) done.length parent =
        console_find_cmd2 run s mode rest parent := by
  obtain ⟨n, hn⟩ : ∃ n, MAX_WORDS - words.length = n + 1 :=
    ⟨MAX_WORDS - words.length - 1, by omega⟩
  induction rest with
  | nil =>
    intro done parent hsplit
    rw [List.append_nil] at hsplit
    subst hsplit
    -- the null pointer behind the words
    have hget : (Bytes.wordArray words)[words.length]? = some none := by
      simp [Bytes.wordArray, hn]
    rw [find_cmd2_null run hget, console_find_cmd2]
  | cons w rest ih =>
    intro done parent hsplit
    have hget : (Bytes.wordArray words)[done.length]? = some (some w) := by
      simp [Bytes.wordArray, hsplit]
    have hargs : (((Bytes.wordArray words).drop done.length).take
        (words.length - done.length)).filterMap id = w :: rest := by
      simp [Bytes.wordArray, hsplit]
    have hlast : done.length + 1 = words.length ↔ rest = [] := by
      rw [hsplit, List.length_append, List.length_cons, ← List.length_eq_zero_iff]
      omega
    have ih : ∀ q, Bytes.console_find_cmd2 run s mode words.length (Bytes.wordArray words)
        (done.length + 1) q = console_find_cmd2 run s mode rest q := by
      intro q
      simpa using @ih (done ++ [w]) q (by simpa using hsplit)
    rw [find_cmd2_word run hget, console_find_cmd2]
    simp only [hargs, hlast, ih] <;> rfl

theorem lookup_outOfBounds_iff {cmds : List ConsoleCmd} {mode : Nat} {w : CStr} :
    lookup cmds mode w = .outOfBounds ↔ w = [] := by
  rw [lookup]
  cases hlast : w.getLast? with
  | none => simpa using hlast
  | some b =>
    have hne : w ≠ [] := by
      rintro rfl
      cases hlast
    simp only [hne, iff_false]
    split
    · simp
    · split <;> simp

/-- The lookup on a list of words. -/
theorem find_cmd2_isSome_iff (s : Console) (mode : Nat) (words : List CStr) :
    ∀ parent, (console_find_cmd2 run s mode words parent).isSome ↔
      ∀ pre post, words = pre ++ [] :: post → leadsTo s mode pre parent = none := by
  induction words with
  | nil =>
    intro parent
    simp [console_find_cmd2]
  | cons w words ih =>
    intro parent
    -- an empty word is the first one or stands behind it
    have hcons : (∀ pre post, w :: words = pre ++ [] :: post → leadsTo s mode pre parent = none) ↔
        w ≠ [] ∧ ∀ pre post, words = pre ++ [] :: post →
          leadsTo s mode (w :: pre) parent = none := by
      constructor
      · intro h
        refine ⟨?_, fun pre post hsplit => h (w :: pre) post (by rw [hsplit]; rfl)⟩
        rintro rfl
        exact absurd (h [] words rfl) (by simp [leadsTo])
      · rintro ⟨hne, h⟩ pre post hsplit
        cases pre with
        | nil => exact absurd (List.cons.inj hsplit).1 hne
        | cons v pre =>
          obtain ⟨rfl, htail⟩ := List.cons.inj hsplit
          exact h pre post htail
    rw [hcons, console_find_cmd2]
    have hempty := @lookup_outOfBounds_iff (s.level parent) mode w
    cases hlookup : lookup (s.level parent) mode w with
    | outOfBounds => simp [hempty.mp hlookup]
    | help =>
      have hne : w ≠ [] := fun h => by simp [hempty.mpr h] at hlookup
      simp [hne, leadsTo, hlookup]
    | invalid =>
      have hne : w ≠ [] := fun h => by simp [hempty.mpr h] at hlookup
      simp [hne, leadsTo, hlookup]
    | found c =>
      have hne : w ≠ [] := fun h => by simp [hempty.mpr h] at hlookup
      by_cases hchildren : s.children c = []
      · simp [hne, leadsTo, hlookup, hchildren]
      · simp only [hchildren, false_or, leadsTo, hlookup, if_false, ne_eq, hne, not_false_eq_true,
          true_and]
        by_cases hlast : words = []
        · simp [hlast]
        · rw [if_neg hlast, Option.isSome_map, ih]

end

/-- The lookup by index ends inside of the array and of its words exactly when it comes to no
    empty word. -/
theorem find_cmd2_reads_iff (run : UInt32 → List CStr → Console → Int × Console) (s : Console)
    (mode : Nat) (line : CStr) (parent : Option Addr) :
    let words := console_parse_line line MAX_WORDS
    (Bytes.console_find_cmd2 run s mode words.length (Bytes.wordArray words) 0 parent).isSome ↔
      ∀ pre post, words = pre ++ [] :: post → leadsTo s mode pre parent = none := by
  dsimp only
  have hlen : (console_parse_line line MAX_WORDS).length < MAX_WORDS := by
    have := length_console_parse_line line MAX_WORDS
    exact Nat.lt_of_le_of_lt this (by decide)
  generalize console_parse_line line MAX_WORDS = words at hlen
  have heq := @find_cmd2_eq run s mode _ hlen _ [] parent rfl
  rw [List.length_nil] at heq
  rw [heq, find_cmd2_isSome_iff]

/-- The line `""` has one word, which is empty. -/
theorem find_cmd2_reads_fails :
    ¬ ∀ (run : UInt32 → List CStr → Console → Int × Console) (s : Console) (mode : Nat)
      (line : CStr) (parent : Option Addr),
      (Bytes.console_find_cmd2 run s mode (console_parse_line line MAX_WORDS).length
        (Bytes.wordArray (console_parse_line line MAX_WORDS)) 0 parent).isSome := by
  intro h
  have hquotes := h (fun _ _ s => (CONSOLE_OK, s)) init CONSOLE_CMD_MODE_SELF [34, 34] none
  rw [show console_parse_line [34, 34] MAX_WORDS = [[]] by decide,
    find_cmd2_word _ (w := []) rfl] at hquotes
  exact absurd hquotes (by decide)

end Hcrtos.Native.Console
