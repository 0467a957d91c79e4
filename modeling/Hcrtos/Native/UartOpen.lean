import Mathlib.Data.List.Basic
import Mathlib.Logic.Function.Basic
import Hcrtos.ForStd.Lts

/-!
# Opening and closing a UART

`sci_open` and `sci_close` of `uart.c`: the instances on the list of the port, their count, and
the receive buffer that they share. An address that `malloc` returns is part of the label, 0 for
a failure. What an open sets up in the controller, at its pins and in the interrupt layer is left
out.
-/

namespace Hcrtos.Native.UartOpen

def ENOMEM : Int := 12

/-- What a block of the heap was allocated for. -/
inductive Block where
  | sciDevice
  | rxBuf

/-- The fields of `struct sci_device`, the allocated blocks, and `f_priv` of the open files. -/
structure State where
  refcnt : Int
  rx_buf : Nat
  instance_list : List Nat
  heap : Nat → Option Block
  f_priv : Nat → Option Nat

/-- The port after its probe. -/
def init : State := ⟨0, 0, [], fun _ => none, fun _ => none⟩

def malloc (heap : Nat → Option Block) (p : Nat) (b : Block) : Nat → Option Block :=
  if p = 0 then heap else Function.update heap p (some b)

def free (heap : Nat → Option Block) (p : Nat) : Nat → Option Block :=
  Function.update heap p none

/-- `sci_open`, with the answers of its two calls of `malloc`. -/
def sci_open (s : State) (filep ins rx_buf : Nat) : State × Int :=
  let s := { s with heap := malloc s.heap ins .sciDevice }
  if ins = 0 then (s, -ENOMEM)
  else
    let s := { s with instance_list := s.instance_list ++ [ins] }
    if s.refcnt = 0 then
      let s := { s with rx_buf := rx_buf, heap := malloc s.heap rx_buf .rxBuf }
      if s.rx_buf = 0 then ({ s with heap := free s.heap ins }, -ENOMEM)
      else
        ({ s with
          f_priv := Function.update s.f_priv filep (some ins)
          refcnt := s.refcnt + 1 }, 0)
    else
      ({ s with
        f_priv := Function.update s.f_priv filep (some ins)
        refcnt := s.refcnt + 1 }, 0)

/-- `sci_close` of a file with the instance `ins`. -/
def sci_close (s : State) (filep ins : Nat) : State :=
  let s := { s with
    instance_list := s.instance_list.erase ins
    refcnt := s.refcnt - 1
    f_priv := Function.update s.f_priv filep none }
  let s := if s.refcnt = 0 then { s with heap := free s.heap s.rx_buf } else s
  { s with heap := free s.heap ins }

/-- What the next two calls of `malloc` may return. -/
def State.Fresh (s : State) (ins rx_buf : Nat) : Prop :=
  s.heap ins = none ∧ s.heap rx_buf = none ∧ (ins = rx_buf → ins = 0)

instance (s : State) (ins rx_buf : Nat) : Decidable (s.Fresh ins rx_buf) :=
  inferInstanceAs (Decidable (_ ∧ _))

/-- A call for a file. Every file is opened before it is closed. -/
inductive Action where
  | open (filep ins rx_buf : Nat)
  | close (filep : Nat)

/-- The step function. -/
def step (s : State) : Action → Option State
  | .open filep ins rx_buf =>
    if s.f_priv filep = none ∧ s.Fresh ins rx_buf then some (sci_open s filep ins rx_buf).1
    else none
  | .close filep => (s.f_priv filep).map (sci_close s filep)

/-- The count is the number of instances, these are live, and the receive buffer is there as
    long as the count is positive. -/
structure Booked (s : State) : Prop where
  refcnt_eq : s.refcnt = s.instance_list.length
  live : ∀ ins ∈ s.instance_list, s.heap ins = some .sciDevice
  rx_buf_iff : s.heap s.rx_buf = some .rxBuf ↔ 0 < s.refcnt

/-- If the call returns an error, it changes nothing. -/
def FailureAtomic (s : State) : Action → Prop
  | .open filep ins rx_buf =>
    s.f_priv filep = none → s.Fresh ins rx_buf → (sci_open s filep ins rx_buf).2 < 0 →
      (sci_open s filep ins rx_buf).1 = s
  | .close _ => True

/-- An open that finds the port closed and gets an instance also gets the receive buffer. -/
def GetsBuffer (s : State) : Action → Prop
  | .open filep ins rx_buf =>
    s.f_priv filep = none → s.Fresh ins rx_buf → s.refcnt = 0 → ins ≠ 0 → rx_buf ≠ 0
  | .close _ => True

end Hcrtos.Native.UartOpen
