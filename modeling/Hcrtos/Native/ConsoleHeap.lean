import Mathlib.Logic.Function.Basic
import Mathlib.Logic.Relation
import Hcrtos.ForStd.Chain
import Hcrtos.Native.Console

/-!
# The command tree in memory

The commands as nodes with `next`, `children` and `parent` links, and the edits of the tree on
them. An access to memory that holds no command gives `none`. The loops and the recursion run on a
fuel, and what `malloc` answers is part of a label.
-/

namespace Hcrtos.Native.Console

open CString Hcrtos.Loop Chain

/-- `struct console_cmd` with its links; `parent` is a field of the command. -/
structure Node where
  cmd : ConsoleCmd
  children : Option Addr
  next : Option Addr

/-- The commands in memory, and the fields of `struct console_def` about them. -/
structure Heap where
  nodes : Addr → Option Node
  cmds_root : Option Addr
  cmds_current : Option Addr
  promptstr : Option CStr

namespace Heap

/-- The console of `console_init` before any command. -/
def init : Heap := ⟨fun _ => none, none, none, none⟩

/-- Write the node at an address, or free it. -/
def set (h : Heap) (a : Addr) (n : Option Node) : Heap :=
  { h with nodes := Function.update h.nodes a n }

/-- The links of the levels. -/
def next (h : Heap) (a : Addr) : Option (Option Addr) := (h.nodes a).map Node.next

end Heap

/-! ### Registration -/

/-- The walk to the last command of a level, and the link to the new one behind it. -/
def appendTo (fuel : Nat) (h : Heap) (start a : Addr) : Option Heap :=
  (loop (lastBody h.next) fuel start).join.bind fun p =>
    (h.nodes p).map fun n => h.set p (some { n with next := some a })

/-- `console_register_cmd2` in memory; `node` is `none` when an allocation fails. -/
def Heap.console_register_cmd2 (fuel : Nat) (h : Heap) (parent : Option Addr) (cmd : CStr)
    (callback : Option UInt32) (mode : Nat) (help : Option CStr) (node : Option Addr) :
    Option Heap :=
  match node with
  | none => some h
  | some a =>
    let c : ConsoleCmd :=
      { addr := a
        cmd := cmd
        callback := (callback.map Callback.fn).getD .dummy_callback
        unique_len := 0
        mode := mode % 65536
        help := help
        parent := parent }
    let h := h.set a (some ⟨c, none, none⟩)
    match parent with
    | some p =>
      match h.nodes p with
      | none => none
      | some n =>
        match n.children with
        | none => some (h.set p (some { n with children := some a }))
        | some start => appendTo fuel h start a
    | none =>
      match h.cmds_root with
      | none => some { h with cmds_root := some a, cmds_current := some a }
      | some start => appendTo fuel h start a

/-! ### The name of a command -/

/-- The body of the loop of `console_cmd_name2`: the path in front of `name`. -/
def nameBody (h : Heap) : Option Addr × CStr → Option CStr ⊕ (Option Addr × CStr)
  | (none, name) => .inl (some name)
  | (some a, name) =>
    match h.nodes a with
    | none => .inl none
    | some n => .inr (n.cmd.parent, n.cmd.cmd ++ (if name = [] then [] else [47]) ++ name)

/-- `console_cmd_name2`. -/
def console_cmd_name2 (fuel : Nat) (h : Heap) (cmd : Option Addr) : Option CStr :=
  (loop (nameBody h) fuel (cmd, [])).join

/-- The current level, and the name of a command as the prompt. -/
def enterLevel (fuel : Nat) (h : Heap) (current : Option Addr) (cmd : Option Addr) : Option Heap :=
  (console_cmd_name2 fuel h cmd).map fun name =>
    { h with cmds_current := current, promptstr := some name }

/-- The level above the children of `p` becomes the current one; its name is that of its
    parent. -/
def leaveLevel (fuel : Nat) (h : Heap) (p : Addr) : Option Heap :=
  (h.nodes p).bind fun pn =>
    match pn.cmd.parent with
    | none => some { h with cmds_current := h.cmds_root, promptstr := none }
    | some pp =>
      (h.nodes pp).bind fun ppn =>
        ppn.children.bind fun current =>
          (h.nodes current).bind fun cn => enterLevel fuel h (some current) cn.cmd.parent

/-! ### Deletion -/

/-- `console_delete_cmd` when it takes the first command `t` out of its level: the pointer to the
    level, and the current level if it is this one. -/
def unlinkFirst (fuel : Nat) (h : Heap) (t : Addr) (n : Node) (start : Option Addr) :
    Option Heap :=
  let unlinked : Option Heap :=
    if start = h.cmds_root then some { h with cmds_root := n.next }
    else
      n.cmd.parent.bind fun p =>
        (h.nodes p).map fun pn => h.set p (some { pn with children := n.next })
  unlinked.bind fun h =>
    if h.cmds_current = some t then
      match n.cmd.parent with
      | none => some { h with cmds_current := h.cmds_root, promptstr := none }
      | some p => leaveLevel fuel h p
    else some h

/-- The body of the loop over the level of a command that is deleted. -/
def unlinkBody (fuel : Nat) (cmd : Addr) (start : Option Addr) :
    Heap × Option Addr → Option Heap ⊕ (Heap × Option Addr)
  | (h, none) => .inl (some h)
  | (h, some t) =>
    match h.nodes t with
    | none => .inl none
    | some n =>
      match (if t = cmd ∧ some t = start then unlinkFirst fuel h t n start else some h) with
      | none => .inl none
      | some h =>
        match h.nodes t with
        | none => .inl none
        | some n =>
          if n.next = some cmd then
            match h.nodes cmd with
            | none => .inl none
            | some c => .inr (h.set t (some { n with next := c.next }), c.next)
          else .inr (h, n.next)

/-- The body of the loop over the children of a command that is deleted. -/
def childrenBody (delete : Heap → Addr → Option Heap) :
    Heap × Option Addr → Option Heap ⊕ (Heap × Option Addr)
  | (h, none) => .inl (some h)
  | (h, some c) =>
    match h.nodes c with
    | none => .inl none
    | some n =>
      match delete h c with
      | none => .inl none
      | some h => .inr (h, n.next)

/-- `console_delete_cmd`: `limit` is a fuel for the loops over a level, the other one for the
    depth of the tree. -/
def console_delete_cmd (limit : Nat) : Nat → Heap → Addr → Option Heap
  | 0, _, _ => none
  | fuel + 1, h, cmd =>
    (h.nodes cmd).bind fun n =>
      (loop (childrenBody (console_delete_cmd limit fuel)) limit (h, n.children)).join.bind fun h =>
        (h.nodes cmd).bind fun n =>
          let start : Option (Option Addr) :=
            match n.cmd.parent with
            | none => some h.cmds_root
            | some p => (h.nodes p).map Node.children
          start.bind fun start =>
            (loop (unlinkBody limit cmd start) limit (h, start)).join.map fun h => h.set cmd none

/-! ### Execution -/

/-- `console_find_cmd2` when a word names a command: the children become the current level. -/
def enter (fuel : Nat) (h : Heap) (c : Addr) : Option Heap :=
  (h.nodes c).bind fun n =>
    if n.children ≠ none then enterLevel fuel h n.children (some c) else some h

/-- `console_exit`. -/
def console_exit (fuel : Nat) (h : Heap) : Option Heap :=
  h.cmds_current.bind fun current =>
    (h.nodes current).bind fun n =>
      match n.cmd.parent with
      | none => some h
      | some p => leaveLevel fuel h p

/-- What is done with the tree. -/
inductive Edit where
  | register (parent : Option Addr) (cmd : CStr) (callback : Option UInt32) (mode : Nat)
      (help : Option CStr) (node : Option Addr)
  | delete (cmd : Addr)
  | enter (cmd : Addr)
  | exit

/-- The caller names commands that are there, and `malloc` answers with memory that is not in
    use. `console_exit` is called from a command, so there is a current level. -/
def Edit.Allowed (h : Heap) : Edit → Prop
  | .register parent _ _ _ _ node =>
    (∀ p ∈ parent, (h.nodes p).isSome) ∧ ∀ a ∈ node, h.nodes a = none
  | .delete cmd => (h.nodes cmd).isSome
  | .enter cmd => (h.nodes cmd).isSome
  | .exit => h.cmds_current.isSome

instance (h : Heap) : (e : Edit) → Decidable (e.Allowed h)
  | .register parent _ _ _ _ node =>
    @instDecidableAnd (∀ p ∈ parent, (h.nodes p).isSome) (∀ a ∈ node, h.nodes a = none)
      (Option.decidableForallMem parent) (Option.decidableForallMem node)
  | .delete cmd => inferInstanceAs (Decidable ((h.nodes cmd).isSome = true))
  | .enter cmd => inferInstanceAs (Decidable ((h.nodes cmd).isSome = true))
  | .exit => inferInstanceAs (Decidable (h.cmds_current.isSome = true))

/-- An edit, with one fuel for all loops. -/
def Edit.perform (fuel : Nat) (h : Heap) : Edit → Option Heap
  | .register parent cmd callback mode help node =>
    h.console_register_cmd2 fuel parent cmd callback mode help node
  | .delete cmd => console_delete_cmd fuel fuel h cmd
  | .enter cmd => Console.enter fuel h cmd
  | .exit => Console.console_exit fuel h

/-- With enough fuel an edit gives `h'`. -/
def Performs (h : Heap) (e : Edit) (h' : Heap) : Prop :=
  ∃ n, ∀ fuel, n ≤ fuel → e.perform fuel h = some h'

/-- The heaps that a run of allowed edits gives. -/
def Reaches : Heap → Prop :=
  Relation.ReflTransGen (fun h h' => ∃ e : Edit, e.Allowed h ∧ Performs h e h') Heap.init

end Hcrtos.Native.Console
