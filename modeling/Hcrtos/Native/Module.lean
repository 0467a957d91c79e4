import Hcrtos.ForStd.CString

/-!
# Modules

`drivers/base/module.c`: the linker collects the modules of all drivers in one table, whose
sections are the groups. What the functions of the modules return is part of a call.
-/

namespace Hcrtos.Native.Module

open CString

def ENODEV : Int := 19

/-- `struct mod_init` without its flag: whether the module has the two functions. -/
structure ModInit where
  name : CStr
  init : Bool
  exit : Bool

/-- The names that stand for a section of the table. -/
inductive Group where
  | core
  | postcore
  | arch
  | system
  | driver
  | driver_late
  | others
  | all
  deriving DecidableEq

/-- The `strcmp` chain of `module_init2`. -/
def Group.ofName (name : CStr) : Option Group :=
  -- "core"
  if name = [99, 111, 114, 101] then some .core
  -- "postcore"
  else if name = [112, 111, 115, 116, 99, 111, 114, 101] then some .postcore
  -- "arch"
  else if name = [97, 114, 99, 104] then some .arch
  -- "system"
  else if name = [115, 121, 115, 116, 101, 109] then some .system
  -- "driver"
  else if name = [100, 114, 105, 118, 101, 114] then some .driver
  -- "driver_late"
  else if name = [100, 114, 105, 118, 101, 114, 95, 108, 97, 116, 101] then some .driver_late
  -- "others"
  else if name = [111, 116, 104, 101, 114, 115] then some .others
  -- "all"
  else if name = [97, 108, 108] then some .all
  else none

/-- The table, and the symbols of the linker script: where each section starts and ends. -/
structure Table where
  modules : List ModInit
  bounds : Group → Nat × Nat
  bounds_le : ∀ g, (bounds g).2 ≤ modules.length
  bounds_all : bounds .all = (0, modules.length)

/-- The entries of a section, by their places in the table. -/
def Table.entries (t : Table) (g : Group) : List Nat :=
  List.range' (t.bounds g).1 ((t.bounds g).2 - (t.bounds g).1)

def Table.name (t : Table) (p : Nat) : CStr := (t.modules[p]?.map (·.name)).getD []

/-- The first entry with a name. -/
def Table.find (t : Table) (name : CStr) : Option Nat :=
  (t.entries .all).find? fun p => t.name p = name

/-- An action on an entry, and its flag at that time. A module without an init function is
    initialised with the result 0. -/
inductive Event where
  | init (p : Nat) (res : Int) (initialized : Bool)
  | exit (p : Nat) (initialized : Bool)

def Event.entry : Event → Nat
  | .init p _ _ => p
  | .exit p _ => p

/-- The flags. As history, the completed actions, the latest one first. -/
structure State where
  initialized : Nat → Bool
  log : List Event

def init : State := ⟨fun _ => false, []⟩

/-- Calls the init function of an entry, and sets the flag if it succeeds. -/
def State.initEntry (t : Table) (res : Nat → Int) (s : State) (p : Nat) : Int × State :=
  let r := if t.modules[p]?.any (·.init) then res p else 0
  let log := .init p r (s.initialized p) :: s.log
  if r ≠ 0 then (r, { s with log := log })
  else (0, ⟨Function.update s.initialized p true, log⟩)

/-- Calls the exit function of an entry, whose result is not looked at. -/
def State.exitEntry (s : State) (p : Nat) : State :=
  ⟨Function.update s.initialized p false, .exit p (s.initialized p) :: s.log⟩

/-- The loop of `module_init2` over the entries of a group. -/
def initLoop (t : Table) (excludes : List CStr) (res : Nat → Int) :
    List Nat → State → Int × State
  | [], s => (0, s)
  | p :: ps, s =>
    if t.name p ∈ excludes ∨ s.initialized p = true then initLoop t excludes res ps s
    else
      let (r, s) := s.initEntry t res p
      if r ≠ 0 then (r, s) else initLoop t excludes res ps s

/-- `module_init2`. What an init function returns when it is called is `res` of its entry. -/
def module_init2 (t : Table) (s : State) (name : CStr) (excludes : List CStr) (res : Nat → Int) :
    Int × State :=
  match Group.ofName name with
  | some g => initLoop t excludes res (t.entries g) s
  | none =>
    match t.find name with
    | none => (-ENODEV, s)
    | some p => if s.initialized p = true then (0, s) else s.initEntry t res p

/-- The loop of `module_exit2` over the entries of the table. -/
def exitLoop (t : Table) (excludes : List CStr) : List Nat → State → State
  | [], s => s
  | p :: ps, s =>
    if t.name p ∈ excludes ∨ s.initialized p = false then exitLoop t excludes ps s
    else exitLoop t excludes ps (s.exitEntry p)

/-- `module_exit2`. -/
def module_exit2 (t : Table) (s : State) (name : CStr) (excludes : List CStr) : Int × State :=
  -- "all"
  if name = [97, 108, 108] then (0, exitLoop t excludes (t.entries .all) s)
  else
    match t.find name with
    | none => (-ENODEV, s)
    | some p => if s.initialized p = false then (0, s) else (0, s.exitEntry p)

/-- A call. -/
inductive Action where
  | init (name : CStr) (excludes : List CStr) (res : Nat → Int)
  | exit (name : CStr) (excludes : List CStr)

def step (t : Table) (s : State) : Action → State
  | .init name excludes res => (module_init2 t s name excludes res).2
  | .exit name excludes => (module_exit2 t s name excludes).2

/-- The state after a sequence of calls, from the start of the system. -/
def after (t : Table) (calls : List Action) : State := calls.foldl (step t) init

end Hcrtos.Native.Module
