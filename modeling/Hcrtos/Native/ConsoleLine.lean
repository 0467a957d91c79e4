import Hcrtos.ForStd.StringBuffer
import Hcrtos.Native.Console

/-!
# The console line editor

`_console_loop`: a byte of input is decoded into a key, which edits the line buffer. An access
outside of the buffer or of the history table gives `none`. What is printed is left out, and
with it `lastchar`, which tells a second completion key apart, and `skip` and `oldcmd`, which
are never set.
-/

namespace Hcrtos.Native.Console

open CString StringBuffer

def CONSOLE_MAX_HISTORY : Nat := 10
def CONSOLE_MAX_CMD_BUFFER_LEN : Nat := 2048

/-- The decoder of telnet options and escape sequences. -/
structure Decoder where
  is_telnet_option : UInt8
  esc : UInt8

/-- The state of the loop: the table of the history by index, the line buffer with its length
    and the cursor, and the index of the entry shown last. -/
structure Loop where
  console : Console
  history : Nat → Option CStr
  cmd : Buffer
  l : Nat
  cursor : Nat
  in_history : Int
  decoder : Decoder
  running : Bool

/-- A new line. -/
def Loop.newLine (s : Loop) : Loop :=
  { s with cmd := fun _ => 0, l := 0, cursor := 0, in_history := 0 }

/-- The start of `_console_loop`. -/
def start (console : Console) : Loop where
  console := console_build_shortest console
  history := fun _ => none
  cmd := fun _ => 0
  l := 0
  cursor := 0
  in_history := 0
  decoder := ⟨0, 0⟩
  running := true

/-! ### Keys -/

/-- What a byte of input becomes; 0 is no key. -/
def Decoder.decode (d : Decoder) (c : UInt8) : Decoder × UInt8 :=
  if c = 0 then (d, 0)
  else if c = 255 ∧ d.is_telnet_option = 0 then ({ d with is_telnet_option := 1 }, 0)
  else if d.is_telnet_option ≠ 0 ∧ 251 ≤ c ∧ c ≤ 254 then ({ d with is_telnet_option := c }, 0)
  else if d.is_telnet_option ≠ 0 ∧ c ≠ 255 then ({ d with is_telnet_option := 0 }, 0)
  else
    let d := { d with is_telnet_option := 0 }
    if d.esc = 91 then
      -- the arrows are the readline control codes
      ({ d with esc := 0 },
        if c = 65 then 16 else if c = 66 then 14 else if c = 67 then 6
        else if c = 68 then 2 else 0)
    else if d.esc ≠ 0 then ({ d with esc := if c = 91 then 91 else 0 }, 0)
    else if c = 27 then ({ d with esc := 1 }, 0)
    else (d, c)

/-- The keys. -/
inductive Key where
  | none
  | enter
  | interrupt
  | backWord
  | backChar
  | redraw
  | clear
  | kill
  | eot
  | disable
  | complete
  | up
  | down
  | left
  | right
  | home
  | toEnd
  | char (c : UInt8)

/-- The key of a decoded byte. -/
def keyOf (c : UInt8) : Key :=
  if c = 0 then .none
  else if c = 13 ∨ c = 10 then .enter
  else if c = 3 then .interrupt
  else if c = 23 then .backWord
  else if c = 8 ∨ c = 127 then .backChar
  else if c = 12 then .redraw
  else if c = 21 then .clear
  else if c = 11 then .kill
  else if c = 4 then .eot
  else if c = 26 then .disable
  else if c = 9 then .complete
  else if c = 16 then .up
  else if c = 14 then .down
  else if c = 2 then .left
  else if c = 6 then .right
  else if c = 1 then .home
  else if c = 5 then .toEnd
  else .char c

/-! ### Editing -/

section Editing

variable (s : Loop)

/-- A normal character. -/
def Loop.insertChar (c : UInt8) : Option Loop :=
  if s.cursor = s.l then
    (store CONSOLE_MAX_CMD_BUFFER_LEN s.cmd s.cursor c).map fun cmd =>
      if s.l < CONSOLE_MAX_CMD_BUFFER_LEN - 1 then
        { s with cmd := cmd, l := s.l + 1, cursor := s.cursor + 1 }
      else { s with cmd := cmd }
  else
    let l := if s.l ≥ CONSOLE_MAX_CMD_BUFFER_LEN - 2 then s.l - 1 else s.l
    (moveUp CONSOLE_MAX_CMD_BUFFER_LEN s.cmd s.cursor (l + 1 - s.cursor)).bind fun cmd =>
      (store CONSOLE_MAX_CMD_BUFFER_LEN cmd s.cursor c).map fun cmd =>
        { s with cmd := cmd, l := l + 1, cursor := s.cursor + 1 }

/-- The deletion of `back` characters before the cursor. In the middle of the line the rest is
    printed again, up to its terminator. -/
def Loop.delete (s : Loop) : Nat → Option Loop
  | 0 => some s
  | back + 1 =>
    if s.l = s.cursor then
      (store CONSOLE_MAX_CMD_BUFFER_LEN s.cmd (s.cursor - 1) 0).bind fun cmd =>
        Loop.delete { s with cmd := cmd, l := s.l - 1, cursor := s.cursor - 1 } back
    else
      (moveDown CONSOLE_MAX_CMD_BUFFER_LEN s.cmd (s.cursor - 1)
          (s.l + 1 - (s.cursor - 1))).bind fun cmd =>
        (stringAt CONSOLE_MAX_CMD_BUFFER_LEN cmd (s.cursor - 1)).bind fun _ =>
          Loop.delete { s with cmd := cmd, l := s.l - 1, cursor := s.cursor - 1 } back

/-- The length of the spaces and the word that come first. -/
def wordLength (bytes : List UInt8) : Nat :=
  (bytes.takeWhile (· = 32)).length + ((bytes.dropWhile (· = 32)).takeWhile (· ≠ 32)).length

/-- The characters that the key for a word or a character deletes. -/
def Loop.backWord : Nat := wordLength (content s.cmd s.cursor).reverse

/-- `console_clear_line`. -/
def Loop.console_clear_line : Option Buffer :=
  (write CONSOLE_MAX_CMD_BUFFER_LEN s.cmd 0 (List.replicate s.l 8)).bind fun cmd =>
    (write CONSOLE_MAX_CMD_BUFFER_LEN cmd 0 (List.replicate s.l 32)).bind fun cmd =>
      (write CONSOLE_MAX_CMD_BUFFER_LEN cmd 0 (List.replicate s.l 8)).bind fun cmd =>
        write CONSOLE_MAX_CMD_BUFFER_LEN cmd 0 (List.replicate s.l 0)

/-- The start of the word that a completion replaces. -/
def wordStart (bytes : List UInt8) : Nat :=
  (bytes.reverse.dropWhile fun b => b ≠ 32 ∧ b ≠ 124).length

/-- The completion key. `console_get_completions` marks the quoted bytes in the line buffer. -/
def Loop.complete : Option Loop :=
  if s.cursor ≠ s.l then some s
  else
    (stringAt CONSOLE_MAX_CMD_BUFFER_LEN s.cmd 0).bind fun line =>
      (write CONSOLE_MAX_CMD_BUFFER_LEN s.cmd 0 (mark_quot line)).bind fun cmd =>
        match console_get_completions s.console line 128 with
        | [c] =>
          let l := wordStart (content cmd s.l)
          let name := cstr c.cmd
          (write CONSOLE_MAX_CMD_BUFFER_LEN cmd l (name ++ [0])).bind fun cmd =>
            (store CONSOLE_MAX_CMD_BUFFER_LEN cmd (l + name.length) 32).map fun cmd =>
              { s with cmd := cmd, l := l + name.length + 1, cursor := l + name.length + 1 }
        | _ => some { s with cmd := cmd }

/-! ### History -/

/-- The index and the entry for the key up; `none` when the table is left. -/
def historyUp (history : Nat → Option CStr) (in_history : Int) : Option (Int × Option CStr) :=
  let i := in_history - 1
  if i < 0 then
    match (List.range CONSOLE_MAX_HISTORY).reverse.find? fun i => (history i).isSome with
    | some i => some (i, history i)
    | none => some (-1, none)
  else if i < CONSOLE_MAX_HISTORY then some (i, history i.toNat)
  else none

/-- The index and the entry for the key down. An index beyond the table is not looked at; one
    that overflows is below it. -/
def historyDown (history : Nat → Option CStr) (in_history : Int) : Option (Int × Option CStr) :=
  let i := in_history + 1
  if i < 0 ∨ 2147483648 ≤ i then none
  else if CONSOLE_MAX_HISTORY ≤ i ∨ history i.toNat = none then
    match (List.range CONSOLE_MAX_HISTORY).find? fun i => (history i).isSome with
    | some i => some (i, history i)
    | none => some (i, none)
  else some (i, history i.toNat)

/-- An entry of the history replaces the line. -/
def Loop.showHistory (found : Int × Option CStr) : Option Loop :=
  match found with
  | (i, none) => some { s with in_history := i }
  | (i, some entry) =>
    let src := cstr entry
    let n := CONSOLE_MAX_CMD_BUFFER_LEN - 1
    s.console_clear_line.bind fun cmd =>
      (write CONSOLE_MAX_CMD_BUFFER_LEN cmd 0
          (src.take n ++ List.replicate (n - src.length) 0)).bind fun cmd =>
        (stringAt CONSOLE_MAX_CMD_BUFFER_LEN cmd 0).map fun line =>
          { s with cmd := cmd, l := line.length, cursor := line.length, in_history := i }

/-- `console_add_history`; `strdupOk` is whether the entry is allocated. -/
def console_add_history (history : Nat → Option CStr) (cmd : CStr) (strdupOk : Bool) :
    Nat → Option CStr :=
  let entry := if strdupOk then some cmd else none
  match (List.range CONSOLE_MAX_HISTORY).find? fun i => history i = none with
  | some i =>
    if i = 0 ∨ (history (i - 1)).map lower ≠ some (lower cmd) then
      Function.update history i entry
    else history
  | none => fun i =>
    if i < CONSOLE_MAX_HISTORY - 1 then history (i + 1)
    else if i = CONSOLE_MAX_HISTORY - 1 then entry
    else history i

/-! ### The end of a line -/

/-- A byte of input, and what the end of a line does: the callbacks of the command, and
    whether the entry of the history is allocated. -/
structure Event where
  c : UInt8
  run : UInt32 → List CStr → Console → Int × Console
  strdupOk : Bool

/-- The name of the command that is not recorded. -/
def historyName : CStr := [104, 105, 115, 116, 111, 114, 121]

/-- The line `line` is run, and a new one begins, unless the command ends the loop. -/
def Loop.runLine (e : Event) (line : CStr) : Loop :=
  match _console_run_cmd e.run s.console line with
  | none => { s.newLine with running := false }
  | some (r, console) =>
    if r = CONSOLE_QUIT then { s.newLine with running := false, console := console }
    else { s.newLine with console := console }

/-- The end of a line that is not interrupted: it is recorded and run. -/
def Loop.finish (e : Event) : Option Loop :=
  if s.l = 0 then some s.newLine
  else
    (stringAt CONSOLE_MAX_CMD_BUFFER_LEN s.cmd 0).map fun line =>
      let history :=
        if s.cmd (s.l - 1) ≠ 63 ∧ lower line ≠ lower historyName then
          console_add_history s.history line e.strdupOk
        else s.history
      Loop.runLine { s with history := history } e line

/-- What a key does. -/
def Loop.key (e : Event) : Key → Option Loop
  | .none => some s
  | .enter => s.finish e
  | .interrupt => if s.l = 0 then some s.newLine else some (s.runLine e [13, 10])
  | .backWord => if s.l = 0 ∨ s.cursor = 0 then some s else s.delete s.backWord
  | .backChar => if s.l = 0 ∨ s.cursor = 0 then some s else s.delete 1
  | .redraw => some s
  | .clear => s.console_clear_line.map fun cmd => { s with cmd := cmd, l := 0, cursor := 0 }
  | .kill =>
    (write CONSOLE_MAX_CMD_BUFFER_LEN s.cmd s.cursor
        (List.replicate (s.l - s.cursor) 0)).map fun cmd =>
      { s with cmd := cmd, l := s.cursor }
  | .eot =>
    if s.l ≠ 0 then some s
    else
      (write CONSOLE_MAX_CMD_BUFFER_LEN s.cmd 0 [113, 117, 105, 116, 0]).bind fun cmd =>
        Loop.finish { s with cmd := cmd, l := 4, cursor := 4 } e
  | .disable => s.console_clear_line.map fun cmd => { s with cmd := cmd }
  | .complete => s.complete
  | .up => (historyUp s.history s.in_history).bind s.showHistory
  | .down => (historyDown s.history s.in_history).bind s.showHistory
  | .left => some { s with cursor := s.cursor - 1 }
  | .right => some { s with cursor := if s.cursor < s.l then s.cursor + 1 else s.cursor }
  | .home => some { s with cursor := 0 }
  | .toEnd => some { s with cursor := if s.cursor < s.l then s.l else s.cursor }
  | .char c => s.insertChar c

end Editing

/-- A byte of input. -/
def Loop.input (s : Loop) (e : Event) : Option Loop :=
  let (decoder, c) := s.decoder.decode e.c
  Loop.key { s with decoder := decoder } e (keyOf c)

end Hcrtos.Native.Console
