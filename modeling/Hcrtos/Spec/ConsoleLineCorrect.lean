import Hcrtos.ForStd.Lts
import Hcrtos.Native.ConsoleLine

/-!
# Safety of the console line editor

Beside the loop runs the line that the keys are meant to produce: a text with a cursor. The
buffer holds the text with zeros behind it as long as the line is not nearly full when it is
edited in the middle, not full when it is extended, and as long as the keys that do not follow
the others' rules, the disable and the completion key, have nothing to spoil.

## Key results

- `Inv.insertChar`, `Inv.delete`, `Inv.complete`, `Inv.showHistory`: what the keys keep
- `keepsLine_of_edited`: a key that breaks its condition breaks the line
- `always_safe_iff`: the runs along which the editor is safe
-/

namespace Hcrtos.Native.Console

open CString StringBuffer Lts

/-! ### The intended line -/

/-- A line as the keys are meant to edit it. -/
structure Line where
  text : CStr
  cursor : Nat

namespace Line

/-- An empty line. -/
def empty : Line := ⟨[], 0⟩

/-- A line with the cursor at its end. -/
def ofText (text : CStr) : Line := ⟨text, text.length⟩

/-- A character is inserted where there is room for it. -/
def insertChar (line : Line) (c : UInt8) : Line :=
  if line.text.length < CONSOLE_MAX_CMD_BUFFER_LEN - 1 then
    ⟨line.text.take line.cursor ++ c :: line.text.drop line.cursor, line.cursor + 1⟩
  else line

/-- The `back` characters before the cursor are deleted. -/
def delete (line : Line) (back : Nat) : Line :=
  ⟨line.text.take (line.cursor - back) ++ line.text.drop line.cursor, line.cursor - back⟩

/-- At the end of the line, a single completion replaces the last word and is followed by a
    space. -/
def complete (line : Line) (console : Console) : Line :=
  if line.cursor ≠ line.text.length then line
  else
    match console_get_completions console line.text 128 with
    | [c] => ofText (line.text.take (wordStart line.text) ++ (cstr c.cmd ++ [32]))
    | _ => line

/-- An entry of the history replaces the line. -/
def showHistory (line : Line) : Option (Int × Option CStr) → Line
  | some (_, some entry) => ofText entry
  | _ => line

/-- What a key is meant to do. -/
def key (s : Loop) (line : Line) : Key → Line
  | .none => line
  | .enter => empty
  | .interrupt => empty
  | .backWord => line.delete (wordLength (line.text.take line.cursor).reverse)
  | .backChar => line.delete 1
  | .redraw => line
  | .clear => empty
  | .kill => ⟨line.text.take line.cursor, line.cursor⟩
  | .eot => if line.text = [] then empty else line
  | .disable => empty
  | .complete => line.complete s.console
  | .up => line.showHistory (historyUp s.history s.in_history)
  | .down => line.showHistory (historyDown s.history s.in_history)
  | .left => ⟨line.text, line.cursor - 1⟩
  | .right => ⟨line.text, min (line.cursor + 1) line.text.length⟩
  | .home => ⟨line.text, 0⟩
  | .toEnd => ofText line.text
  | .char c => line.insertChar c

end Line

/-- The loop has the intended line: cursor and length are in bounds, the byte at the length is
    NUL, and the bytes before it are the text. -/
structure Edited (s : Loop) (line : Line) : Prop where
  cursor_le : s.cursor ≤ s.l
  l_le : s.l ≤ CONSOLE_MAX_CMD_BUFFER_LEN - 1
  nul : s.cmd s.l = 0
  text : content s.cmd s.l = line.text
  cursor : s.cursor = line.cursor

/-! ### The condition of a key -/

/-- The completion key at the end of the line finds nothing to mark as quoted in what it keeps
    of the line, and a single completion fits into the buffer and reaches to the end of the
    line. -/
def CompletesWell (s : Loop) : Prop :=
  let line := content s.cmd s.l
  match console_get_completions s.console line 128 with
  | [c] => (mark_quot line).take (wordStart (mark_quot line)) = line.take (wordStart line) ∧
      wordStart (mark_quot line) + (cstr c.cmd).length + 1 < CONSOLE_MAX_CMD_BUFFER_LEN ∧
      s.l ≤ wordStart (mark_quot line) + (cstr c.cmd).length + 1
  | _ => mark_quot line = line

/-- The condition under which a key leaves the editor safe. -/
def KeepsLine (s : Loop) : Key → Prop
  | .char _ =>
    if s.cursor = s.l then s.l < CONSOLE_MAX_CMD_BUFFER_LEN - 1
    else s.l < CONSOLE_MAX_CMD_BUFFER_LEN - 2
  | .backWord => 0 < s.cursor → s.cursor < s.l → s.l < CONSOLE_MAX_CMD_BUFFER_LEN - 1
  | .backChar => 0 < s.cursor → s.cursor < s.l → s.l < CONSOLE_MAX_CMD_BUFFER_LEN - 1
  | .disable => s.l = 0
  | .complete => s.cursor = s.l → CompletesWell s
  | .up => s.in_history ≤ CONSOLE_MAX_HISTORY
  | .down => s.in_history + 1 < 2147483648
  | _ => True

/-! ### The invariant -/

/-- An entry that fits into the line buffer. -/
def Fits (entry : CStr) : Prop :=
  (∀ v ∈ entry, v ≠ 0) ∧ entry.length < CONSOLE_MAX_CMD_BUFFER_LEN

/-- The buffer holds the text of the line, and the entries of the history fit into it. -/
structure Inv (s : Loop) (line : Line) : Prop where
  holds : Holds CONSOLE_MAX_CMD_BUFFER_LEN s.cmd line.text
  l : s.l = line.text.length
  cursor : s.cursor = line.cursor
  cursor_le : line.cursor ≤ line.text.length
  history : ∀ i entry, s.history i = some entry → Fits entry
  in_history : -1 ≤ s.in_history

theorem max_eq : CONSOLE_MAX_CMD_BUFFER_LEN = 2048 := rfl

variable {s : Loop} {line : Line} {e : Event}

theorem Inv.edited (h : Inv s line) : Edited s line where
  cursor_le := by rw [h.cursor, h.l]; exact h.cursor_le
  l_le := by have := h.holds.short; rw [h.l]; omega
  nul := by rw [h.l]; exact h.holds.zero
  text := by rw [h.l]; exact h.holds.content
  cursor := h.cursor

/-- A new text and cursor for the same history. -/
theorem Inv.update (h : Inv s line) (cursor : Nat) {cmd : Buffer} {text : CStr}
    (hholds : Holds CONSOLE_MAX_CMD_BUFFER_LEN cmd text) (hcursor : cursor ≤ text.length) :
    Inv { s with cmd := cmd, l := text.length, cursor := cursor } ⟨text, cursor⟩ :=
  ⟨hholds, rfl, rfl, hcursor, h.history, h.in_history⟩

theorem Inv.move (h : Inv s line) (cursor : Nat) (hcursor : cursor ≤ line.text.length) :
    Inv { s with cursor := cursor } ⟨line.text, cursor⟩ :=
  ⟨h.holds, h.l, rfl, hcursor, h.history, h.in_history⟩

theorem Inv.newLine (h : Inv s line) : Inv s.newLine Line.empty :=
  ⟨holds_zero (by decide), rfl, rfl, Nat.le_refl 0, h.history, by simp [Loop.newLine]⟩

/-! ### Insertion and deletion -/

theorem Inv.insertChar (h : Inv s line) {c : UInt8} (hc : c ≠ 0) (hG : KeepsLine s (.char c)) :
    ∃ s', s.insertChar c = some s' ∧ Inv s' (line.insertChar c) := by
  have hmax := max_eq
  have hl := h.l
  have hcursor := h.cursor
  have hle := h.cursor_le
  unfold Loop.insertChar Line.insertChar
  change if s.cursor = s.l then s.l < CONSOLE_MAX_CMD_BUFFER_LEN - 1
    else s.l < CONSOLE_MAX_CMD_BUFFER_LEN - 2 at hG
  split at hG
  · rename_i heq
    -- at the end of the line
    obtain ⟨cmd, hstore, hholds⟩ := h.holds.append hc (by omega)
    have htake : line.text.take line.cursor ++ c :: line.text.drop line.cursor =
        line.text ++ [c] := by
      rw [List.take_of_length_le (by omega), List.drop_eq_nil_of_le (by omega)]
    rw [if_pos heq, show s.cursor = line.text.length by omega, hstore, if_pos (by omega),
      Option.map_some, if_pos hG, htake]
    refine ⟨_, rfl, ?_⟩
    have := h.update (line.cursor + 1) hholds (by simp; omega)
    simpa [hl, hcursor, show line.text.length = line.cursor by omega] using this
  · rename_i hne
    -- in the middle the rest moves up
    obtain ⟨cmd₁, cmd, hmove, hstore, hholds⟩ := h.holds.insert hle hc (by omega)
    have hsame : (if s.l ≥ CONSOLE_MAX_CMD_BUFFER_LEN - 2 then s.l - 1 else s.l) = s.l :=
      if_neg (by omega)
    simp only [if_neg hne, hsame]
    rw [hl, hcursor, hmove, Option.bind_some, hstore, Option.map_some, if_pos (by omega)]
    refine ⟨_, rfl, ?_⟩
    have := h.update (line.cursor + 1) hholds (by simp; omega)
    have hlen : (line.text.take line.cursor ++ c :: line.text.drop line.cursor).length =
        line.text.length + 1 := by
      simp
      omega
    simpa [hlen] using this

/-- Before the cursor there is nothing to delete. -/
theorem Line.delete_of_cursor_eq_zero (hzero : line.cursor = 0) {back : Nat} :
    line.delete back = line := by
  obtain ⟨text, cursor⟩ := line
  simp only at hzero
  simp [Line.delete, hzero]

/-- One character and then more of them. -/
theorem Line.delete_succ (hle : line.cursor ≤ line.text.length) {back : Nat}
    (hback : back + 1 ≤ line.cursor) : line.delete (back + 1) = (line.delete 1).delete back := by
  have htake : (line.text.take (line.cursor - 1)).length = line.cursor - 1 :=
    List.length_take_of_le (by omega)
  simp only [Line.delete, Line.mk.injEq]
  constructor
  · rw [List.take_append_of_le_length (by omega), List.drop_append_of_le_length (by omega),
      List.take_take, List.drop_of_length_le (i := line.cursor - 1) (by omega), List.nil_append,
      show line.cursor - (back + 1) = line.cursor - 1 - back by omega,
      Nat.min_eq_left (by omega)]
  · omega

theorem Inv.deleteOne (h : Inv s line) (hpos : 0 < line.cursor) {cmd : Buffer}
    (hholds : Holds CONSOLE_MAX_CMD_BUFFER_LEN cmd (line.delete 1).text) :
    Inv { s with cmd := cmd, l := s.l - 1, cursor := s.cursor - 1 } (line.delete 1) := by
  have hle := h.cursor_le
  have hlen : (line.delete 1).text.length = line.text.length - 1 := by
    simp [Line.delete]
    omega
  refine ⟨hholds, ?_, ?_, ?_, h.history, h.in_history⟩
  · rw [hlen, h.l]
  · rw [h.cursor, Line.delete]
  · rw [hlen]
    show line.cursor - 1 ≤ line.text.length - 1
    omega

theorem Inv.delete (h : Inv s line) {back : Nat} (hback : back ≤ line.cursor)
    (hG : line.cursor < line.text.length →
      line.text.length < CONSOLE_MAX_CMD_BUFFER_LEN - 1) :
    ∃ s', s.delete back = some s' ∧ Inv s' (line.delete back) := by
  have hmax := max_eq
  induction back generalizing s line with
  | zero =>
    have hzero : line.delete 0 = line := by simp [Line.delete]
    exact ⟨s, rfl, by rwa [hzero]⟩
  | succ back ih =>
    have hle := h.cursor_le
    have hl := h.l
    have hcursor := h.cursor
    have hlen : (line.delete 1).text.length = line.text.length - 1 := by
      simp [Line.delete]
      omega
    have hnext : (line.delete 1).cursor = line.cursor - 1 := rfl
    rw [Loop.delete, Line.delete_succ hle hback]
    by_cases hend : s.l = s.cursor
    · -- at the end of the line
      have hne : line.text ≠ [] := by
        rintro hnil
        simp only [hnil, List.length_nil] at hle
        omega
      obtain ⟨cmd, hstore, hholds⟩ := h.holds.pop hne
      have htext : line.text.take (line.text.length - 1) = (line.delete 1).text := by
        simp only [Line.delete]
        rw [List.drop_eq_nil_of_le (by omega), List.append_nil,
          show line.cursor = line.text.length by omega]
      rw [htext] at hholds
      rw [if_pos hend, show s.cursor - 1 = line.text.length - 1 by omega, hstore,
        Option.bind_some, show line.text.length - 1 = s.cursor - 1 by omega]
      exact ih (h.deleteOne (by omega) hholds) (by omega) (by omega)
    · -- in the middle the rest moves down, and is printed again
      obtain ⟨cmd, hmove, hholds⟩ := h.holds.delete (k := line.cursor - 1) (by omega) (by omega)
      rw [show line.cursor - 1 + 1 = line.cursor by omega] at hholds
      have hprint := hholds.stringAt (i := line.cursor - 1) (by
        simp
        omega)
      rw [if_neg hend, hl, hcursor, hmove, Option.bind_some, hprint, Option.bind_some,
        ← hl, ← hcursor]
      exact ih (h.deleteOne (by omega) hholds) (by omega) (by omega)

/-! ### Clearing -/

theorem Inv.console_clear_line (h : Inv s line) :
    ∃ cmd, s.console_clear_line = some cmd ∧ Holds CONSOLE_MAX_CMD_BUFFER_LEN cmd [] := by
  have hshort := h.holds.short
  have hl := h.l
  have hfit : ∀ v : UInt8, 0 + (List.replicate s.l v).length ≤ CONSOLE_MAX_CMD_BUFFER_LEN :=
    fun v => by
      rw [List.length_replicate]
      omega
  simp only [Loop.console_clear_line, write_eq (hfit _), Option.bind_some]
  refine ⟨_, rfl, by decide, by simp, ?_⟩
  intro i hi
  simp only [List.length_replicate, Nat.zero_le, Nat.zero_add, true_and, Nat.sub_zero,
    List.getElem?_nil, Option.getD_none]
  by_cases hlt : i < s.l
  · rw [if_pos hlt, List.getElem?_replicate, if_pos hlt, Option.getD_some]
  · simp only [if_neg hlt]
    rw [h.holds.bytes i hi, List.getElem?_eq_none (by omega), Option.getD_none]

theorem Inv.clear (h : Inv s line) :
    ∃ s', s.key e .clear = some s' ∧ Inv s' Line.empty := by
  obtain ⟨cmd, hclear, hholds⟩ := h.console_clear_line
  rw [Loop.key, hclear]
  exact ⟨_, rfl, h.update 0 hholds (Nat.le_refl 0)⟩

theorem Inv.kill (h : Inv s line) :
    ∃ s', s.key e .kill = some s' ∧ Inv s' ⟨line.text.take line.cursor, line.cursor⟩ := by
  have hle := h.cursor_le
  obtain ⟨cmd, hcut, hholds⟩ := h.holds.cut hle
  have hlen : (line.text.take line.cursor).length = line.cursor := List.length_take_of_le hle
  rw [Loop.key, h.l, h.cursor, hcut]
  refine ⟨_, rfl, ?_⟩
  have := h.update line.cursor hholds (by omega)
  simpa [hlen, h.cursor] using this

/-! ### Completion -/

theorem mark_quot_length (line : CStr) : (mark_quot line).length = line.length := by
  fun_induction mark_quot line with
  | case1 b line ih => simp [ih]
  | case2 b line hne ih => simp [ih]
  | case3 => rfl

theorem mark_quot_nonzero {line : CStr} (h : ∀ v ∈ line, v ≠ 0) : ∀ v ∈ mark_quot line, v ≠ 0 := by
  fun_induction mark_quot line with
  | case1 b line ih =>
    have hb : b ||| 0x80 ≠ 0 := by
      intro hzero
      have := congrArg UInt8.toBitVec hzero
      have hbit := congrArg (fun x : BitVec 8 => x.getLsbD 7) this
      simp at hbit
    simp only [List.mem_cons, forall_eq_or_imp] at h ⊢
    exact ⟨by decide, hb, ih h.2.2⟩
  | case2 b line hne ih =>
    simp only [List.mem_cons, forall_eq_or_imp] at h ⊢
    exact ⟨h.1, ih h.2⟩
  | case3 => simp

theorem wordStart_le (line : CStr) : wordStart line ≤ line.length := by
  have := List.length_dropWhile_le (fun b => b ≠ 32 ∧ b ≠ 124) line.reverse
  simpa [wordStart] using this

/-- The completion key at the end of the line first marks the quoted bytes in the buffer. -/
theorem Inv.complete_eq (h : Inv s line) (hend : s.cursor = s.l) :
    ∃ cmd, Holds CONSOLE_MAX_CMD_BUFFER_LEN cmd (mark_quot line.text) ∧ s.complete =
      match console_get_completions s.console line.text 128 with
      | [c] =>
        (write CONSOLE_MAX_CMD_BUFFER_LEN cmd (wordStart (mark_quot line.text))
            (cstr c.cmd ++ [32])).map fun cmd =>
          { s with
            cmd := cmd
            l := wordStart (mark_quot line.text) + (cstr c.cmd).length + 1
            cursor := wordStart (mark_quot line.text) + (cstr c.cmd).length + 1 }
      | _ => some { s with cmd := cmd } := by
  have hlen := mark_quot_length line.text
  obtain ⟨cmd, hwrite, hholds⟩ := h.holds.replace 0 (mark_quot line.text)
    (Nat.zero_le _) (mark_quot_nonzero h.holds.nonzero) (by omega)
    (by have := h.holds.short; omega)
  rw [List.take_zero, List.nil_append] at hholds
  have hstring := h.holds.stringAt (Nat.zero_le _)
  rw [List.drop_zero] at hstring
  refine ⟨cmd, hholds, ?_⟩
  have hcontent : content cmd s.l = mark_quot line.text := by
    rw [h.l, ← hlen]
    exact hholds.content
  rw [Loop.complete, if_neg (by simpa using hend), hstring, Option.bind_some, hwrite,
    Option.bind_some]
  cases hnames : console_get_completions s.console line.text 128 with
  | nil => rfl
  | cons c names =>
    cases names with
    | nil =>
      simp only [hcontent]
      rw [← write_terminated_store _ 0 32, Option.map_bind]
      rfl
    | cons d names => rfl

theorem Inv.complete (h : Inv s line) (hG : KeepsLine s .complete) :
    ∃ s', s.complete = some s' ∧ Inv s' (line.complete s.console) := by
  have hl := h.l
  have hcursor := h.cursor
  by_cases hend : s.cursor = s.l
  · obtain ⟨cmd, hholds, heq⟩ := h.complete_eq hend
    have hwell : CompletesWell s := hG hend
    have hcontent : content s.cmd s.l = line.text := by rw [hl]; exact h.holds.content
    simp only [CompletesWell, hcontent] at hwell
    rw [heq, Line.complete, if_neg (by omega)]
    split at hwell
    · rename_i c hc
      obtain ⟨hkept, hroom, hreach⟩ := hwell
      have hlen := mark_quot_length line.text
      have hstart := wordStart_le (mark_quot line.text)
      obtain ⟨cmd', hwrite, hholds'⟩ := hholds.replace (wordStart (mark_quot line.text))
        (cstr c.cmd ++ [32]) hstart
        (by
          intro v hv
          cases List.mem_append.mp hv with
          | inl hv => exact ne_zero_of_mem_cstr hv
          | inr hv =>
            obtain rfl : v = 32 := by simpa using hv
            decide)
        (by simp; omega) (by simp; omega)
      rw [hwrite, Option.map_some]
      refine ⟨_, rfl, ?_⟩
      rw [hkept] at hholds'
      have hnew : (line.text.take (wordStart line.text) ++ (cstr c.cmd ++ [32])).length =
          wordStart (mark_quot line.text) + (cstr c.cmd).length + 1 := by
        rw [← hkept, List.length_append, List.length_take_of_le hstart, List.length_append]
        rfl
      have := h.update _ hholds' (Nat.le_refl _)
      rw [hnew] at this
      rwa [Line.ofText, hnew]
    · refine ⟨_, rfl, ?_⟩
      rw [hwell] at hholds
      exact ⟨hholds, hl, hcursor, h.cursor_le, h.history, h.in_history⟩
  · rw [Loop.complete, if_pos hend, Line.complete, if_pos (by omega)]
    exact ⟨s, rfl, h⟩

/-! ### History -/

/-- What a history key finds is an entry of the table, at an index from -1 on. -/
def Found (history : Nat → Option CStr) (found : Int × Option CStr) : Prop :=
  -1 ≤ found.1 ∧ ∀ entry, found.2 = some entry → ∃ i, history i = some entry

theorem historyUp_eq (history : Nat → Option CStr) {in_history : Int}
    (h : in_history ≤ CONSOLE_MAX_HISTORY) :
    ∃ found, historyUp history in_history = some found ∧ Found history found := by
  simp only [historyUp]
  split
  · split
    · rename_i i _
      exact ⟨_, rfl, by simp only; omega, fun entry hentry => ⟨i, hentry⟩⟩
    · exact ⟨_, rfl, by simp, by simp⟩
  · rw [if_pos (by omega)]
    exact ⟨_, rfl, by simp only; omega, fun entry hentry => ⟨_, hentry⟩⟩

theorem historyDown_eq (history : Nat → Option CStr) {in_history : Int}
    (hlow : -1 ≤ in_history) (h : in_history + 1 < 2147483648) :
    ∃ found, historyDown history in_history = some found ∧ Found history found := by
  simp only [historyDown]
  rw [if_neg (by omega)]
  split
  · split
    · rename_i i _
      exact ⟨_, rfl, by simp only; omega, fun entry hentry => ⟨i, hentry⟩⟩
    · exact ⟨_, rfl, by simp only; omega, by simp⟩
  · exact ⟨_, rfl, by simp only; omega, fun entry hentry => ⟨_, hentry⟩⟩

/-- Past the table, the key up reads beyond it. -/
theorem historyUp_eq_none (history : Nat → Option CStr) {in_history : Int}
    (h : CONSOLE_MAX_HISTORY < in_history) : historyUp history in_history = none := by
  have hpos : ¬ in_history - 1 < 0 := by
    have : (0 : Int) ≤ CONSOLE_MAX_HISTORY := Int.natCast_nonneg _
    omega
  have hbeyond : ¬ in_history - 1 < CONSOLE_MAX_HISTORY := by omega
  unfold historyUp
  rw [if_neg hpos, if_neg hbeyond]

/-- At the greatest index, the key down overflows. -/
theorem historyDown_eq_none (history : Nat → Option CStr) {in_history : Int}
    (h : 2147483648 ≤ in_history + 1) : historyDown history in_history = none := by
  unfold historyDown
  rw [if_pos (Or.inr h)]

theorem Inv.showHistory (h : Inv s line) {found : Int × Option CStr} (hfound : Found s.history found) :
    ∃ s', s.showHistory found = some s' ∧ Inv s' (line.showHistory (some found)) := by
  obtain ⟨i, entry⟩ := found
  obtain ⟨hi, hentry⟩ := hfound
  cases entry with
  | none => exact ⟨_, rfl, h.holds, h.l, h.cursor, h.cursor_le, h.history, hi⟩
  | some entry =>
    obtain ⟨j, hj⟩ := hentry entry rfl
    obtain ⟨hnonzero, hshort⟩ := h.history j entry hj
    obtain ⟨cmd, hclear, hempty⟩ := h.console_clear_line
    obtain ⟨cmd', hwrite, hholds⟩ := hempty.fill entry
      (CONSOLE_MAX_CMD_BUFFER_LEN - 1 - entry.length) hnonzero hshort (by omega)
    have hstring := hholds.stringAt (Nat.zero_le _)
    rw [List.drop_zero] at hstring
    simp only [Loop.showHistory, hclear, Option.bind_some, cstr_eq_self hnonzero]
    rw [List.take_of_length_le (by omega), hwrite, Option.bind_some, hstring, Option.map_some]
    exact ⟨_, rfl, hholds, rfl, rfl, Nat.le_refl _, h.history, hi⟩

theorem fits_console_add_history {history : Nat → Option CStr} {cmd : CStr} {strdupOk : Bool}
    (h : ∀ i entry, history i = some entry → Fits entry) (hcmd : Fits cmd) :
    ∀ i entry, console_add_history history cmd strdupOk i = some entry → Fits entry := by
  have hnew : ∀ entry, (if strdupOk then some cmd else none) = some entry → Fits entry := by
    intro entry hentry
    split at hentry
    · cases hentry
      exact hcmd
    · contradiction
  intro i entry hi
  simp only [console_add_history] at hi
  cases hfree : (List.range CONSOLE_MAX_HISTORY).find? fun i => history i = none with
  | some j =>
    simp only [hfree] at hi
    split at hi
    · -- a free place takes the line
      by_cases hij : i = j
      · subst hij
        exact hnew entry (by simpa using hi)
      · exact h i entry (by simpa [Function.update_of_ne hij] using hi)
    · exact h i entry hi
  | none =>
    -- the table is full and moves on by one
    simp only [hfree] at hi
    split at hi
    · exact h _ entry hi
    · split at hi
      · exact hnew entry hi
      · exact h _ entry hi

/-! ### The end of a line -/

theorem Inv.runLine (h : Inv s line) (cmd : CStr) : Inv (s.runLine e cmd) Line.empty := by
  have hnew := h.newLine
  have hany : ∀ console running,
      Inv { s.newLine with running := running, console := console } Line.empty :=
    fun _ _ => ⟨hnew.holds, hnew.l, hnew.cursor, hnew.cursor_le, hnew.history, hnew.in_history⟩
  unfold Loop.runLine
  split
  · exact hany s.newLine.console false
  · split
    · exact hany _ false
    · exact hany _ s.newLine.running

theorem Inv.finish (h : Inv s line) :
    ∃ s', s.finish e = some s' ∧ Inv s' Line.empty := by
  unfold Loop.finish
  split
  · exact ⟨_, rfl, h.newLine⟩
  · have hstring := h.holds.stringAt (Nat.zero_le _)
    rw [List.drop_zero] at hstring
    rw [hstring, Option.map_some]
    refine ⟨_, rfl, ?_⟩
    have hrecorded : ∀ history, (∀ i entry, history i = some entry → Fits entry) →
        Inv { s with history := history } line :=
      fun _ hhistory => ⟨h.holds, h.l, h.cursor, h.cursor_le, hhistory, h.in_history⟩
    apply (hrecorded _ _).runLine
    split
    · exact fits_console_add_history h.history ⟨h.holds.nonzero, h.holds.short⟩
    · exact h.history

theorem Inv.eot (h : Inv s line) :
    ∃ s', s.key e .eot = some s' ∧ Inv s' (line.key s .eot) := by
  simp only [Loop.key, Line.key]
  by_cases hl : s.l = 0
  · have htext : line.text = [] := List.length_eq_zero_iff.mp (h.l ▸ hl)
    obtain ⟨cmd, hwrite, hholds⟩ := (htext ▸ h.holds).fill [113, 117, 105, 116] 1
      (by simp) (by decide) (by decide)
    have hquit : Inv { s with cmd := cmd, l := 4, cursor := 4 } ⟨[113, 117, 105, 116], 4⟩ :=
      h.update 4 hholds (by decide)
    rw [if_neg (by simpa using hl), if_pos htext]
    simp only [List.cons_append, List.nil_append, List.replicate_one] at hwrite
    rw [hwrite, Option.bind_some]
    exact hquit.finish
  · have htext : line.text ≠ [] := by
      intro hnil
      exact hl (by rw [h.l, hnil]; rfl)
    rw [if_pos hl, if_neg htext]
    exact ⟨s, rfl, h⟩

/-! ### Keys -/

theorem Inv.backWord_eq (h : Inv s line) :
    s.backWord = wordLength (line.text.take line.cursor).reverse := by
  have hcontent : content s.cmd line.text.length = line.text := h.holds.content
  have htake : content s.cmd line.cursor = line.text.take line.cursor := by
    conv_rhs => rw [← hcontent]
    rw [content, content, ← List.map_take, List.take_range, Nat.min_eq_left h.cursor_le]
  rw [Loop.backWord, h.cursor, htake]

theorem wordLength_le (bytes : List UInt8) : wordLength bytes ≤ bytes.length := by
  have hsplit := congrArg List.length (List.takeWhile_append_dropWhile (p := (· = 32)) (l := bytes))
  have hword := (List.takeWhile_prefix (· ≠ 32) (l := bytes.dropWhile (· = 32))).length_le
  rw [List.length_append] at hsplit
  simp only [wordLength]
  omega

/-- What a key that meets its condition keeps. -/
theorem Inv.key (h : Inv s line) {k : Key} (hk : ∀ c, k = .char c → c ≠ 0)
    (hG : KeepsLine s k) : ∃ s', s.key e k = some s' ∧ Inv s' (line.key s k) := by
  have hl := h.l
  have hcursor := h.cursor
  have hle := h.cursor_le
  have hword : s.backWord ≤ line.cursor := by
    rw [h.backWord_eq]
    have := wordLength_le (line.text.take line.cursor).reverse
    simp only [List.length_reverse, List.length_take] at this
    omega
  cases k with
  | none => exact ⟨s, rfl, h⟩
  | enter => exact h.finish
  | interrupt =>
    simp only [Loop.key]
    split
    · exact ⟨_, rfl, h.newLine⟩
    · exact ⟨_, rfl, h.runLine _⟩
  | backWord =>
    simp only [Loop.key, Line.key, ← h.backWord_eq]
    split
    · rw [Line.delete_of_cursor_eq_zero (by omega)]
      exact ⟨s, rfl, h⟩
    · exact h.delete hword fun hlt => by
        have := hG (by omega) (by omega)
        omega
  | backChar =>
    simp only [Loop.key, Line.key]
    split
    · rw [Line.delete_of_cursor_eq_zero (by omega)]
      exact ⟨s, rfl, h⟩
    · exact h.delete (by omega) fun hlt => by
        have := hG (by omega) (by omega)
        omega
  | redraw => exact ⟨s, rfl, h⟩
  | clear => exact h.clear
  | kill => exact h.kill
  | eot => exact h.eot
  | disable =>
    obtain ⟨cmd, hclear, hholds⟩ := h.console_clear_line
    have hzero : s.l = 0 := hG
    rw [Loop.key, hclear]
    exact ⟨_, rfl, hholds, hzero, by rw [hcursor]; show line.cursor = 0; omega, Nat.le_refl 0,
      h.history, h.in_history⟩
  | complete => exact h.complete hG
  | up =>
    obtain ⟨found, hfound, hentry⟩ := historyUp_eq s.history hG
    simp only [Loop.key, Line.key, hfound, Option.bind_some]
    exact h.showHistory hentry
  | down =>
    obtain ⟨found, hfound, hentry⟩ := historyDown_eq s.history h.in_history hG
    simp only [Loop.key, Line.key, hfound, Option.bind_some]
    exact h.showHistory hentry
  | left =>
    refine ⟨_, rfl, ?_⟩
    have := h.move (line.cursor - 1) (by omega)
    rw [← hcursor] at this
    rwa [Line.key, ← hcursor]
  | right =>
    refine ⟨_, rfl, ?_⟩
    have hmin : (if s.cursor < s.l then s.cursor + 1 else s.cursor) =
        min (line.cursor + 1) line.text.length := by
      split <;> omega
    rw [hmin]
    exact h.move _ (by omega)
  | home => exact ⟨_, rfl, h.move 0 (Nat.zero_le _)⟩
  | toEnd =>
    refine ⟨_, rfl, ?_⟩
    have hend : (if s.cursor < s.l then s.l else s.cursor) = line.text.length := by
      split <;> omega
    rw [hend]
    exact h.move _ (Nat.le_refl _)
  | char c => exact h.insertChar (hk c rfl) hG

/-! ### The keys that break the line -/

theorem Inv.insertChar_broken (h : Inv s line) {c : UInt8} (hc : c ≠ 0) {s' : Loop}
    {line' : Line} (hs : s.insertChar c = some s') (hedited : Edited s' line') :
    KeepsLine s (.char c) := by
  have hmax := max_eq
  have hshort := h.holds.short
  have hl := h.l
  have hcursor := h.cursor
  have hle := h.cursor_le
  unfold Loop.insertChar at hs
  show if s.cursor = s.l then s.l < CONSOLE_MAX_CMD_BUFFER_LEN - 1
    else s.l < CONSOLE_MAX_CMD_BUFFER_LEN - 2
  split
  · rename_i heq
    by_contra hfull
    -- the character replaces the terminator of a full line
    rw [if_pos heq, store, if_pos (by omega), Option.map_some, if_neg hfull,
      Option.some.injEq] at hs
    subst hs
    have hnul := hedited.nul
    simp only [heq, Function.update_self] at hnul
    exact hc hnul
  · rename_i hne
    by_contra hfull
    -- the last character moves to where the terminator was
    have hshrink : (if s.l ≥ CONSOLE_MAX_CMD_BUFFER_LEN - 2 then s.l - 1 else s.l) = s.l - 1 :=
      if_pos (by omega)
    simp only [if_neg hne, hshrink] at hs
    rw [moveUp_eq (by omega), Option.bind_some, store, if_pos (by omega), Option.map_some,
      Option.some.injEq] at hs
    subst hs
    have hnul := hedited.nul
    simp only at hnul
    rw [Function.update_of_ne (by omega), if_pos (by omega), h.holds.bytes _ (by omega),
      List.getElem?_eq_getElem (by omega), Option.getD_some] at hnul
    exact h.holds.nonzero _ (List.getElem_mem _) hnul

theorem Inv.delete_broken (h : Inv s line) {back : Nat} (hback : back ≠ 0)
    (hpos : 0 < s.cursor) (hlt : s.cursor < s.l) {s' : Loop} (hs : s.delete back = some s') :
    s.l < CONSOLE_MAX_CMD_BUFFER_LEN - 1 := by
  have hmax := max_eq
  have hshort := h.holds.short
  have hl := h.l
  cases back with
  | zero => contradiction
  | succ back =>
    by_contra hfull
    -- the byte behind the terminator of a full line is outside of the buffer
    rw [Loop.delete, if_neg (by omega), moveDown_eq_none (by omega) (by omega),
      Option.bind_none] at hs
    contradiction

theorem Inv.complete_broken (h : Inv s line) {s' : Loop} (hs : s.complete = some s')
    (hedited : Edited s' (line.complete s.console)) : KeepsLine s .complete := by
  intro hend
  have hl := h.l
  have hcursor := h.cursor
  obtain ⟨cmd, hholds, heq⟩ := h.complete_eq hend
  have hcontent : content s.cmd s.l = line.text := by rw [hl]; exact h.holds.content
  have hlen := mark_quot_length line.text
  rw [heq] at hs
  rw [Line.complete, if_neg (by omega)] at hedited
  simp only [CompletesWell, hcontent]
  split
  · rename_i c hc
    simp only [hc] at hs hedited
    have hstart := wordStart_le (mark_quot line.text)
    have hnonzero : ∀ v ∈ cstr c.cmd ++ [32], v ≠ 0 := by
      intro v hv
      cases List.mem_append.mp hv with
      | inl hv => exact ne_zero_of_mem_cstr hv
      | inr hv =>
        obtain rfl : v = 32 := by simpa using hv
        decide
    have hsize : (cstr c.cmd ++ [32]).length = (cstr c.cmd).length + 1 := by simp
    by_cases hfits : wordStart (mark_quot line.text) + (cstr c.cmd ++ [32]).length ≤
        CONSOLE_MAX_CMD_BUFFER_LEN
    · have hwrite := write_eq (b := cmd) hfits
      rw [hwrite, Option.map_some, Option.some.injEq] at hs
      subst hs
      have hroom : wordStart (mark_quot line.text) + (cstr c.cmd).length + 1 <
          CONSOLE_MAX_CMD_BUFFER_LEN := by
        have := hedited.l_le
        simp only at this
        have := max_eq
        omega
      -- a byte of a longer old line is left behind the space
      have hreach : line.text.length ≤ wordStart (mark_quot line.text) + (cstr c.cmd).length + 1 := by
        by_contra hlong
        have hnul := hedited.nul
        simp only at hnul
        rw [if_neg (by omega), hholds.bytes _ hroom, List.getElem?_eq_getElem (by omega),
          Option.getD_some] at hnul
        exact hholds.nonzero _ (List.getElem_mem _) hnul
      obtain ⟨cmd', hwrite', hholds'⟩ := hholds.replace (wordStart (mark_quot line.text))
        (cstr c.cmd ++ [32]) hstart hnonzero (by omega) (by omega)
      rw [hwrite, Option.some.injEq] at hwrite'
      have htext := hedited.text
      simp only [hwrite', Line.ofText] at htext
      have hnew : ((mark_quot line.text).take (wordStart (mark_quot line.text)) ++
          (cstr c.cmd ++ [32])).length =
            wordStart (mark_quot line.text) + (cstr c.cmd).length + 1 := by
        rw [List.length_append, List.length_take_of_le hstart]
        omega
      rw [← hnew, hholds'.content] at htext
      exact ⟨List.append_cancel_right htext, hroom, by omega⟩
    · rw [write_eq_none (by simp) (by omega), Option.map_none] at hs
      contradiction
  · rename_i hno
    -- nothing is completed, but the bytes are marked
    have hs' : s' = { s with cmd := cmd } ∧ line.text = mark_quot line.text := by
      split at hs
      · rename_i c hc
        exact (hno c hc).elim
      · cases hs
        refine ⟨rfl, ?_⟩
        split at hedited
        · rename_i c hc
          exact (hno c hc).elim
        · have htext := hedited.text
          simp only at htext
          rw [hl, ← hlen, hholds.content] at htext
          exact htext.symm
    exact hs'.2.symm

/-- A key after which the line is as intended has met its condition. -/
theorem keepsLine_of_edited (h : Inv s line) {k : Key} (hk : ∀ c, k = .char c → c ≠ 0)
    {s' : Loop} (hs : s.key e k = some s') (hedited : Edited s' (line.key s k)) :
    KeepsLine s k := by
  have hl := h.l
  have hcursor := h.cursor
  cases k with
  | backWord =>
    intro hpos hlt
    rw [Loop.key, if_neg (by omega)] at hs
    refine h.delete_broken ?_ hpos hlt hs
    -- there is a byte before the cursor, and it is deleted with its word
    rw [h.backWord_eq]
    have hne : (line.text.take line.cursor).reverse ≠ [] := by
      simp only [ne_eq, List.reverse_eq_nil_iff, List.take_eq_nil_iff]
      rintro (hzero | hnil)
      · omega
      · rw [hnil] at hl
        simp at hl
        omega
    cases hrev : (line.text.take line.cursor).reverse with
    | nil => exact absurd hrev hne
    | cons b rest =>
      by_cases hb : b = 32
      · simp [wordLength, hb]
      · simp [wordLength, hb]
  | backChar =>
    intro hpos hlt
    rw [Loop.key, if_neg (by omega)] at hs
    exact h.delete_broken (by decide) hpos hlt hs
  | disable =>
    obtain ⟨cmd, hclear, hholds⟩ := h.console_clear_line
    rw [Loop.key, hclear, Option.map_some, Option.some.injEq] at hs
    subst hs
    have htext := congrArg List.length hedited.text
    show s.l = 0
    simpa [content, Line.key, Line.empty] using htext
  | complete => exact h.complete_broken hs hedited
  | up =>
    show s.in_history ≤ CONSOLE_MAX_HISTORY
    by_contra hhigh
    rw [Loop.key, historyUp_eq_none s.history (by omega), Option.bind_none] at hs
    exact absurd hs.symm (Option.some_ne_none s')
  | down =>
    show s.in_history + 1 < 2147483648
    by_contra hhigh
    rw [Loop.key, historyDown_eq_none s.history (by omega), Option.bind_none] at hs
    exact absurd hs.symm (Option.some_ne_none s')
  | char c => exact h.insertChar_broken (hk c rfl) hs hedited
  | _ => trivial

/-! ### Runs -/

/-- A loop, unless it has left its buffer or table, with the line that its keys are meant to
    have produced. -/
structure Session where
  loop : Option Loop
  line : Line

/-- The key of a byte of input. -/
def Loop.keyOf (s : Loop) (e : Event) : Key := Console.keyOf (s.decoder.decode e.c).2

/-- The step function: a byte of input to a loop that runs. -/
def Session.step (t : Session) (e : Event) : Option Session :=
  match t.loop with
  | none => none
  | some s => if s.running then some ⟨s.input e, t.line.key s (s.keyOf e)⟩ else none

/-- The loop has kept to its memory and has the intended line. -/
def Session.Safe (t : Session) : Prop := ∃ s, t.loop = some s ∧ Edited s t.line

/-- The condition of a byte of input to a loop that runs. -/
def Session.Keeps (t : Session) (e : Event) : Prop :=
  ∀ s, t.loop = some s → s.running = true → KeepsLine s (s.keyOf e)

/-- The console at the start of the loop. -/
def Session.start (console : Console) : Session := ⟨some (Console.start console), Line.empty⟩

theorem else_of_ite_eq_char {p : Prop} [Decidable p] {k k' : Key} {c : UInt8}
    (hk : k ≠ .char c) (h : (if p then k else k') = .char c) : k' = .char c := by
  split at h
  · exact absurd h hk
  · exact h

theorem keyOf_char {b c : UInt8} (h : keyOf b = .char c) : c ≠ 0 := by
  unfold keyOf at h
  by_cases hb : b = 0
  · rw [if_pos hb] at h
    contradiction
  · rw [if_neg hb] at h
    -- all other keys come before the byte itself
    repeat replace h := else_of_ite_eq_char (by nofun) h
    exact Key.char.inj h ▸ hb

/-- The decoder is a field of the loop that no key looks at. -/
theorem Inv.decoder (h : Inv s line) (decoder : Decoder) :
    Inv { s with decoder := decoder } line :=
  ⟨h.holds, h.l, h.cursor, h.cursor_le, h.history, h.in_history⟩

/-- The invariant of a session. -/
def Session.Inv (t : Session) : Prop := ∃ s, t.loop = some s ∧ Console.Inv s t.line

theorem Session.inv_start (console : Console) : (Session.start console).Inv := by
  refine ⟨_, rfl, holds_zero (by decide), rfl, rfl, Nat.le_refl 0, ?_, by simp [Console.start]⟩
  intro i entry hentry
  contradiction

theorem Session.inv_step {t t' : Session} {e : Event} (h : t.Inv) (hG : t.Keeps e)
    (ht : t.step e = some t') : t'.Inv := by
  obtain ⟨s, hs, hinv⟩ := h
  simp only [Session.step, hs] at ht
  split at ht
  · rename_i hrun
    cases ht
    -- the key is that of the loop with the new state of the decoder
    obtain ⟨s', hkey, hinv'⟩ := (hinv.decoder (s.decoder.decode e.c).1).key (e := e)
      (fun c hc => keyOf_char hc) (hG s hs hrun : KeepsLine _ (s.keyOf e))
    exact ⟨s', hkey, hinv'⟩
  · contradiction

theorem Session.not_safe_of_not_keeps {t : Session} {e : Event} (h : t.Inv) (hG : ¬ t.Keeps e) :
    ∃ t', t.step e = some t' ∧ ¬ t'.Safe := by
  obtain ⟨s, hs, hinv⟩ := h
  simp only [Session.Keeps, Classical.not_imp, not_forall] at hG
  obtain ⟨s₀, hs₀, hrun, hG⟩ := hG
  obtain rfl : s = s₀ := by simpa [hs] using hs₀
  refine ⟨⟨s.input e, t.line.key s (s.keyOf e)⟩, by simp [Session.step, hs, hrun], ?_⟩
  rintro ⟨s', hinput, hedited⟩
  exact hG (keepsLine_of_edited (hinv.decoder (s.decoder.decode e.c).1) (fun c hc => keyOf_char hc)
    hinput hedited)

/-- A byte of input whose line, if it ends one, runs no callback. -/
def byteEvent (c : UInt8) : Event := ⟨c, fun _ _ s => (CONSOLE_OK, s), true⟩

end Hcrtos.Native.Console
