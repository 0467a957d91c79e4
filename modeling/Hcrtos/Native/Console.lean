import Hcrtos.ForStd.CString
import Hcrtos.ForStd.Lts

/-!
# Console commands

`console.c`: the tree of commands, the abbreviations by which a word names a command, the
words of a line, the lookup that executes a line and the completions of a line. The commands
stand in the order in which they were registered, each with its parent, so a level of the tree
is the list of the commands with one parent. What `malloc` answers is part of a label.
-/

namespace Hcrtos.Native.Console

open CString

def CONSOLE_CMD_MODE_SELF : Nat := 0
def CONSOLE_CMD_MODE_ALL : Nat := 1

def CONSOLE_OK : Int := 0
def CONSOLE_ERROR : Int := -1
def CONSOLE_QUIT : Int := -2
def CONSOLE_ERROR_ARG : Int := -3

/-- The address of a `console_cmd`. -/
abbrev Addr := UInt32

/-- What a command calls. -/
inductive Callback where
  | dummy_callback
  | fn (proc : UInt32)
  deriving DecidableEq

/-- `struct console_cmd`; its `next` and `children` links are the levels of the console. -/
structure ConsoleCmd where
  addr : Addr
  cmd : CStr
  callback : Callback
  unique_len : Nat
  mode : Nat
  help : Option CStr
  parent : Option Addr
  deriving DecidableEq

/-- The commands, and the command whose children are the current level. -/
structure Console where
  cmds : List ConsoleCmd
  current : Option Addr
  deriving DecidableEq

/-- No command registered. -/
def init : Console := ⟨[], none⟩

namespace Console

/-- The children of a command in the order of their `next` links, or the root level. -/
def level (s : Console) (parent : Option Addr) : List ConsoleCmd :=
  s.cmds.filter fun c => c.parent = parent

def children (s : Console) (c : ConsoleCmd) : List ConsoleCmd := s.level (some c.addr)

def cmds_root (s : Console) : List ConsoleCmd := s.level none

def cmds_current (s : Console) : List ConsoleCmd := s.level s.current

end Console

/-! ### Registration -/

/-- The bytes up to and including the first one in which `c` leaves `p`. -/
def prefixLen : CStr → CStr → Nat
  | a :: c, b :: p => if a = b then prefixLen c p + 1 else 1
  | _, _ => 1

/-- The 16 bits of `unique_len` that `console_build_shortest` computes for a command of the
    level `cmds`. -/
def shortest (cmds : List ConsoleCmd) (c : ConsoleCmd) : Nat :=
  cmds.foldl (fun unique_len p =>
    if p.addr = c.addr then unique_len
    else if prefixLen c.cmd p.cmd > unique_len then prefixLen c.cmd p.cmd % 65536
    else unique_len) 1

/-- `console_build_shortest` from the root: it visits every level of the tree. -/
def console_build_shortest (s : Console) : Console :=
  { s with cmds := s.cmds.map fun c => { c with unique_len := shortest (s.level c.parent) c } }

/-- `console_register_cmd2`; `node` is `none` when an allocation fails. -/
def console_register_cmd2 (s : Console) (parent : Option Addr) (cmd : CStr)
    (callback : Option UInt32) (mode : Nat) (help : Option CStr) (node : Option Addr) :
    Console :=
  match node with
  | none => s
  | some a =>
    let c : ConsoleCmd :=
      { addr := a
        cmd := cmd
        callback := (callback.map Callback.fn).getD .dummy_callback
        unique_len := 0
        mode := mode % 65536
        help := help
        parent := parent }
    { cmds := s.cmds ++ [c]
      current := if parent = none ∧ s.cmds_root = [] then none else s.current }

/-- `_console_register_cmd`. -/
def _console_register_cmd (s : Console) (parent : Option Addr) (cmd : CStr)
    (callback : Option UInt32) (mode : Nat) (help : Option CStr) (node : Option Addr) :
    Console :=
  console_build_shortest (console_register_cmd2 s parent cmd callback mode help node)

/-- A registration: `malloc` answers with an address that is not in use, and the parent is a
    command. -/
structure Registration where
  parent : Option Addr
  cmd : CStr
  callback : Option UInt32
  mode : Nat
  help : Option CStr
  node : Option Addr

/-- The step function. -/
def step (s : Console) (r : Registration) : Option Console :=
  if (r.node.all fun a => s.cmds.all fun c => c.addr ≠ a) ∧
      (r.parent.all fun p => s.cmds.any fun c => c.addr = p) then
    some (_console_register_cmd s r.parent r.cmd r.callback r.mode r.help r.node)
  else none

/-! ### The words of a line -/

/-- `mark_quot`: sets the high bit of a byte after a backslash. -/
def mark_quot : CStr → CStr
  | 92 :: b :: line => 92 :: (b ||| 0x80) :: mark_quot line
  | b :: line => b :: mark_quot line
  | [] => []

/-- `revert_quot` on the bytes of a word; what follows a NUL is cut off. -/
def revert_quot (word : CStr) : CStr := (go word).takeWhile (· ≠ 0)
where
  /-- The loop: it takes the backslashes out. -/
  go : CStr → CStr
    | 92 :: b :: word => (b &&& 0x7f) :: go word
    | [92] => []
    | b :: word => b :: go word
    | [] => []

/-- The main loop of `console_parse_line` from a byte on: `words` are the words so far,
    `word` is the text since `word_start`, and `inquote` the open quote. -/
def parseFrom (max_words : Nat) (words : List CStr) (word : Option CStr) (inquote : UInt8) :
    CStr → List CStr
  | [] =>
    if words.length < max_words - 1 then words ++ (word.map revert_quot).toList else words
  | b :: line =>
    if ¬ words.length < max_words - 1 then words
    else if b = inquote then
      parseFrom max_words (words ++ (word.map revert_quot).toList) none 0 line
    else if word.isSome ∧ inquote = 0 ∧ (isspace b ∨ b = 124) then
      -- the word ends without consuming the byte, which the next round then looks at
      let words := words ++ (word.map revert_quot).toList
      if ¬ words.length < max_words - 1 then words
      else if b = 124 then parseFrom max_words (words ++ [[124]]) none 0 line
      else parseFrom max_words words none 0 line
    else if b = 34 ∨ b = 39 then
      -- an opening quote starts a word and drops what came before it
      parseFrom max_words words (some []) b line
    else
      match word with
      | some w => parseFrom max_words words (some (w ++ [b])) inquote line
      | none =>
        if b = 124 then parseFrom max_words (words ++ [[124]]) none inquote line
        else if isspace b then parseFrom max_words words none inquote line
        else parseFrom max_words words (some [b]) inquote line

/-- `console_parse_line` on the line that `mark_quot` leaves. The word starts at the first
    byte that is not a space, whatever it is. -/
def console_parse_line (line : CStr) (max_words : Nat) : List CStr :=
  match (mark_quot line).dropWhile isspace with
  | [] => parseFrom max_words [] none 0 []
  | b :: line => parseFrom max_words [] (some []) 0 (b :: line)

/-- The size of the array of words of a caller. -/
def MAX_WORDS : Nat := 128

/-! ### Completion -/

/-- The loops of `console_get_completions` from the level `cmds`: the words before the last
    one select a command, and the last one, if there is one, the completions. `ok` is the test
    of the mode. -/
def completionsFrom (s : Console) (ok : ConsoleCmd → Bool) (last : CStr) :
    List CStr → List ConsoleCmd → List ConsoleCmd
  | [], cmds => cmds.filter fun c => ok c && strncasecmp c.cmd last last.length
  | w :: words, cmds =>
    let selected := cmds.find? fun c =>
      ok c && strncasecmp c.cmd w w.length && !decide (w.length < c.unique_len)
    match selected with
    | none => []
    | some c => completionsFrom s ok last words (s.children c)

/-- The words of a line to complete: those before the last one, and the last one, which is
    empty after a space. There are none in a line without words. -/
def completionWords (line : CStr) : Option (List CStr × CStr) :=
  let cmd := line.dropWhile isspace
  let words := console_parse_line cmd MAX_WORDS
  if cmd = [] ∨ (mark_quot cmd).getLast? = some 32 then some (words, [])
  else words.getLast?.map fun last => (words.dropLast, last)

/-- The completions that the first loop of `console_get_completions` takes. -/
def currentCompletions (s : Console) (line : CStr) (max_completions : Nat) : List ConsoleCmd :=
  match completionWords line with
  | none => []
  | some (words, last) =>
    (completionsFrom s (fun _ => true) last words s.cmds_current).take max_completions

/-- `console_get_completions`. -/
def console_get_completions (s : Console) (line : CStr) (max_completions : Nat) :
    List ConsoleCmd :=
  let current := currentCompletions s line max_completions
  if s.current = none then current
  else
    match completionWords line with
    | none => current
    | some (words, last) =>
      current ++ (completionsFrom s (fun c => c.mode = CONSOLE_CMD_MODE_ALL) last words
        s.cmds_root).take (max_completions - current.length)

/-! ### Execution -/

/-- The tests with which `console_find_cmd2` selects a command for a word. -/
def selects (mode : Nat) (word : CStr) (c : ConsoleCmd) : Bool :=
  c.mode = mode && strncasecmp c.cmd word c.unique_len && strncasecmp c.cmd word word.length

/-- What a word is to `console_find_cmd2`. -/
inductive Lookup where
  | outOfBounds
  | help
  | invalid
  | found (c : ConsoleCmd)
  deriving DecidableEq

/-- How `console_find_cmd2` looks a word up in a level. The byte before an empty word is
    outside of it. -/
def lookup (cmds : List ConsoleCmd) (mode : Nat) (word : CStr) : Lookup :=
  match word.getLast? with
  | none => .outOfBounds
  | some b =>
    if b = 63 then .help
    else
      match cmds.find? (selects mode word) with
      | none => .invalid
      | some c => .found c

section Execution

-- what the callbacks do and return
variable (run : UInt32 → List CStr → Console → Int × Console)

/-- A call of a callback. -/
def Callback.call (args : List CStr) (s : Console) : Callback → Int × Console
  | .dummy_callback => (CONSOLE_OK, s)
  | .fn proc => run proc args s

/-- The checks at the end of `console_find_cmd2`: a command with children becomes the current
    level, and the callback runs. -/
def correctChecks (s : Console) (c : ConsoleCmd) (words : List CStr) : Int × Console :=
  let s := if s.children c ≠ [] then { s with current := some c.addr } else s
  c.callback.call run words s

/-- `console_find_cmd2` from a level and a word on; `none` when it reads before a word. Every
    command has a callback. -/
def console_find_cmd2 (s : Console) (mode : Nat) : List CStr → Option Addr → Option (Int × Console)
  | [], _ => some (CONSOLE_ERROR, s)
  | w :: words, parent =>
    match lookup (s.level parent) mode w with
    | .outOfBounds => none
    | .help => some (CONSOLE_OK, s)
    | .invalid => some (CONSOLE_ERROR_ARG, s)
    | .found c =>
      if s.children c = [] ∨ words = [] then some (correctChecks run s c (w :: words))
      else
        (console_find_cmd2 s mode words (some c.addr)).map fun (rc, s') =>
          -- a bad argument is left to the callback of the parent
          if rc = CONSOLE_ERROR_ARG then correctChecks run s' c (w :: words) else (rc, s')

/-- `_console_run_cmd`. -/
def _console_run_cmd (s : Console) (line : CStr) : Option (Int × Console) :=
  let cmd := line.dropWhile isspace
  if cmd = [] then some (CONSOLE_OK, s)
  else
    let words := console_parse_line cmd MAX_WORDS
    if words = [] then some (CONSOLE_ERROR, s)
    else
      (console_find_cmd2 run s CONSOLE_CMD_MODE_SELF words s.current).bind fun (r, s') =>
        if r ≠ CONSOLE_OK then console_find_cmd2 run s' CONSOLE_CMD_MODE_ALL words none
        else some (r, s')

end Execution

/-- The level to which the words lead `console_find_cmd2` from a level: each one is found
    there as a command with children. -/
def leadsTo (s : Console) (mode : Nat) : List CStr → Option Addr → Option (Option Addr)
  | [], parent => some parent
  | w :: words, parent =>
    match lookup (s.level parent) mode w with
    | .found c => if s.children c = [] then none else leadsTo s mode words (some c.addr)
    | _ => none

end Hcrtos.Native.Console
