import Hcrtos.ForStd.Circular
import Hcrtos.ForStd.Loop
import Hcrtos.ForStd.Lts
import Hcrtos.Native.PortInterrupt

/-!
# The handlers of an interrupt in memory

`prvDoIrq` of `port_interrupt.c` and the functions that handlers call during it, on the list of
one interrupt in memory. An access to memory that is not in use gives `none`. What `malloc`
answers and what a handler does are labels; the registers are left out here, and so are the
run-time statistics.
-/

namespace Hcrtos.Native.PortDoIrq

open PortInterrupt Loop Lts

abbrev Addr := UInt32

/-- `struct list_head`. -/
structure ListHead where
  next : Addr
  prev : Addr

def LIST_POISON1 : Addr := 0xdead0100
def LIST_POISON2 : Addr := 0xdead0200

/-- The memory in use: the head of the list and the blocks of the handlers, each with its
    `struct list_head` in front. -/
structure Mem where
  list : Addr → Option ListHead
  isrcb : Addr → Option IsrCtrlBlk

namespace Mem

def next (m : Mem) (a : Addr) : Option Addr := (m.list a).map ListHead.next

def prev (m : Mem) (a : Addr) : Option Addr := (m.list a).map ListHead.prev

def setNext (m : Mem) (a v : Addr) : Option Mem :=
  (m.list a).map fun e => { m with list := Function.update m.list a (some { e with next := v }) }

def setPrev (m : Mem) (a v : Addr) : Option Mem :=
  (m.list a).map fun e => { m with list := Function.update m.list a (some { e with prev := v }) }

end Mem

/-- `INIT_LIST_HEAD` on a memory without handlers. -/
def INIT_LIST_HEAD (head : Addr) : Mem :=
  ⟨Function.update (fun _ => none) head (some ⟨head, head⟩), fun _ => none⟩

/-- `__list_add`. -/
def __list_add (m : Mem) (new prev next : Addr) : Option Mem :=
  (m.setPrev next new).bind fun m =>
    (m.setNext new next).bind fun m =>
      (m.setPrev new prev).bind fun m => m.setNext prev new

/-- `list_add_tail`. -/
def list_add_tail (m : Mem) (new head : Addr) : Option Mem :=
  (m.prev head).bind fun prev => __list_add m new prev head

/-- `__list_del`. -/
def __list_del (m : Mem) (prev next : Addr) : Option Mem :=
  (m.setPrev next prev).bind fun m => m.setNext prev next

/-- `list_del`. -/
def list_del (m : Mem) (entry : Addr) : Option Mem :=
  (m.list entry).bind fun e =>
    (__list_del m e.prev e.next).bind fun m =>
      (m.setNext entry LIST_POISON1).bind fun m => m.setPrev entry LIST_POISON2

/-- `malloc` with `memset`, and the fields of the block. -/
def Mem.malloc (m : Mem) (a : Addr) (b : IsrCtrlBlk) : Mem :=
  ⟨Function.update m.list a (some ⟨0, 0⟩), Function.update m.isrcb a (some b)⟩

def Mem.free (m : Mem) (a : Addr) : Mem :=
  ⟨Function.update m.list a none, Function.update m.isrcb a none⟩

variable (head : Addr)

/-- `__xPortInterruptInstallISR`; `node` is what `malloc` answers. -/
def xPortInterruptInstallISR (m : Mem) (fn param : UInt32) (type : Nat) (node : Option Addr) :
    Option Mem :=
  if fn ≠ 0 then
    match node with
    | none => some m
    | some a => list_add_tail (m.malloc a ⟨fn, param, type⟩) a head
  else none

/-- The body of the loop of `xPortInterruptRemoveISR`, with the variables `ele` and `next`. -/
def findBody (m : Mem) (fn : UInt32) : Addr × Addr → Option (Option Addr) ⊕ (Addr × Addr)
  | (ele, next) =>
    if ele = head then .inl (some none)
    else
      match m.isrcb ele with
      | none => .inl none
      | some b =>
        if b.isFor fn then .inl (some (some ele))
        else
          match m.next next with
          | none => .inl none
          | some n => .inr (next, n)

/-- The search of `xPortInterruptRemoveISR`. A list has no more entries than there are
    addresses. -/
def find (m : Mem) (fn : UInt32) : Option (Option Addr) :=
  (m.next head).bind fun ele =>
    (m.next ele).bind fun next => (loop (findBody head m fn) (2 ^ 32 + 1) (ele, next)).join

/-- `xPortInterruptRemoveISR`, with the block that is freed; without one the result is -1. -/
def xPortInterruptRemoveISR (m : Mem) (fn : UInt32) : Option (Mem × Option Addr) :=
  if fn ≠ 0 then
    (find head m fn).bind fun
      | none => some (m, none)
      | some isrcb => (list_del m isrcb).map fun m => (m.free isrcb, some isrcb)
  else none

/-- A call that a handler makes. -/
inductive Action where
  | install (fn param : UInt32) (type : Nat) (node : Option Addr)
  | remove (fn : UInt32)

/-- The assertions hold, and `malloc` answers with memory that is not in use. -/
def Action.Allowed (m : Mem) : Action → Prop
  | .install fn _ _ node => fn ≠ 0 ∧ ∀ a ∈ node, m.list a = none
  | .remove fn => fn ≠ 0

/-- A call of a handler, with the blocks that were freed. -/
def act (s : Mem × List Addr) : Action → Option (Mem × List Addr)
  | .install fn param type node =>
    (xPortInterruptInstallISR head s.1 fn param type node).map fun m => (m, s.2)
  | .remove fn =>
    (xPortInterruptRemoveISR head s.1 fn).map fun r => (r.1, s.2 ++ r.2.toList)

/-- `prvDoIrq` in front of its next call: `ele`, and as history the entries that it ran and the
    blocks that were freed. -/
structure Dispatch where
  mem : Mem
  ele : Addr
  runs : List (Addr × IsrCtrlBlk)
  freed : List Addr

/-- The start of `prvDoIrq`. -/
def start (m : Mem) : Option Dispatch := (m.next head).map fun ele => ⟨m, ele, [], []⟩

/-- One round of the loop of `prvDoIrq`: `next` is read in front of the call, and `actions` is
    what the handler does. When `ele` is the head the loop is over. -/
def step (d : Dispatch) (actions : List Action) : Option Dispatch :=
  if d.ele = head then none
  else
    (d.mem.next d.ele).bind fun next =>
      (d.mem.isrcb d.ele).bind fun isrcb =>
        (run (act head) (d.mem, []) actions).map fun r =>
          ⟨r.1, next, d.runs ++ [(d.ele, isrcb)], d.freed ++ r.2⟩

end Hcrtos.Native.PortDoIrq
