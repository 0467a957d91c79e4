import Hcrtos.Native.Console

/-!
# The initial commands

`console_find_cmd` searches the whole tree for a name, and `console_init` registers the commands
that `CONSOLE_CMD` puts into the section `_console_init_start` to `_console_init_end`. The k-th
command that is registered gets the block `node k` from `malloc`, and no allocation fails.
-/

namespace Hcrtos.Native.Console

open CString

/-! ### The search -/

/-- The loop of `console_find_cmd_ext` over a level: `n` is what the last child level gave, and
    `descend` is the recursive call. -/
def findLoop (s : Console) (cmd : CStr) (descend : ConsoleCmd → Option (Option ConsoleCmd)) :
    Option ConsoleCmd → List ConsoleCmd → Option (Option ConsoleCmd)
  | n, [] => some n
  | n, p :: ps =>
    if p.cmd = cmd then some (some p)
    else if s.children p ≠ [] then (descend p).bind fun n => findLoop s cmd descend n ps
    else findLoop s cmd descend n ps

/-- `console_find_cmd_ext` from a level on; `none` when the fuel runs out. -/
def console_find_cmd_ext (s : Console) (cmd : CStr) :
    Nat → Option Addr → Option (Option ConsoleCmd)
  | 0, _ => none
  | fuel + 1, parent =>
    findLoop s cmd (fun p => console_find_cmd_ext s cmd fuel (some p.addr)) none (s.level parent)

/-- `console_find_cmd`. No level is deeper than the number of commands. -/
def console_find_cmd (s : Console) (cmd : CStr) : Option (Option ConsoleCmd) :=
  console_find_cmd_ext s cmd (s.cmds.length + 1) none

/-! ### The initialization -/

/-- `struct console_init_cmd`. -/
structure InitCmd where
  parent : Option CStr
  cmd : CStr
  callback : Option UInt32
  mode : UInt8
  initialized : Bool
  help : Option CStr
  deriving DecidableEq

/-- The console and the section of initial commands. -/
structure InitState where
  console : Console
  table : List InitCmd

section

-- the blocks that `malloc` answers with
variable (node : Nat → Addr)

/-- `console_register_cmd` for an initial command. -/
def registerUnder (s : Console) (p : InitCmd) (parent : Option Addr) : Console :=
  _console_register_cmd s parent p.cmd p.callback p.mode.toNat p.help (some (node s.cmds.length))

/-- `console_register_init_cmds`; `none` when the fuel runs out. -/
def console_register_init_cmds : Nat → InitState → CStr → Option InitState
  | 0, _, _ => none
  | fuel + 1, s, cmd =>
    match s.table.findIdx? fun p => p.cmd = cmd ∧ p.initialized = false with
    | none => some s
    | some i =>
      match s.table[i]? with
      | none => some s
      | some p =>
        match p.parent with
        | some q =>
          (console_register_init_cmds fuel s q).bind fun s =>
            (console_find_cmd s.console q).map fun parent =>
              { console := registerUnder node s.console p (parent.map ConsoleCmd.addr)
                table := s.table.modify i fun p => { p with initialized := true } }
        | none =>
          some
            { console := registerUnder node s.console p none
              table := s.table.modify i fun p => { p with initialized := true } }

/-- The entry of a command that `console_init` registers itself. -/
def builtin (cmd : CStr) (callback : UInt32) (help : CStr) : InitCmd :=
  { parent := none
    cmd := cmd
    callback := some callback
    mode := 1
    initialized := true
    help := some help }

-- the functions behind the commands that are always there
variable (console_help console_exit console_history : UInt32)

/-- The commands `help`, `exit` and `history`. -/
def builtins : List InitCmd :=
  [ -- "Show available cmds"
    builtin [104, 101, 108, 112] console_help
      [83, 104, 111, 119, 32, 97, 118, 97, 105, 108, 97, 98, 108, 101, 32, 99, 109, 100, 115],
    -- "Exit from current cmd set"
    builtin [101, 120, 105, 116] console_exit
      [69, 120, 105, 116, 32, 102, 114, 111, 109, 32, 99, 117, 114, 114, 101, 110, 116, 32, 99,
       109, 100, 32, 115, 101, 116],
    -- "Show history cmds"
    builtin [104, 105, 115, 116, 111, 114, 121] console_history
      [83, 104, 111, 119, 32, 104, 105, 115, 116, 111, 114, 121, 32, 99, 109, 100, 115] ]

/-- The console with the commands that are always there. -/
def registerBuiltins : Console :=
  (builtins console_help console_exit console_history).foldl
    (fun s p => registerUnder node s p none) init

/-- The body of the loop of `console_init` over the section. -/
def initBody (fuel : Nat) (s : InitState) (i : Nat) : Option InitState :=
  match s.table[i]? with
  | none => some s
  | some p => if p.initialized then some s else console_register_init_cmds node fuel s p.cmd

/-- `console_init`. -/
def console_init (fuel : Nat) (table : List InitCmd) : Option InitState :=
  (List.range table.length).foldlM (initBody node fuel)
    ⟨registerBuiltins node console_help console_exit console_history, table⟩

end

end Hcrtos.Native.Console
