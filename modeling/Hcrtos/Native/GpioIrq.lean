import Hcrtos.Native.PortInterrupt

/-!
# GPIO interrupts

`gpioirq.c`: the pads share one interrupt. The first request for a pad installs the common
handler with the address of its node; further ones are linked in front of it. A freed node is
absent from the heap, and its address may be handed out again; what `malloc` answers is part
of the label. A failed assertion stops the system in the state in which it fails.
-/

namespace Hcrtos.Native.GpioIrq

open PortInterrupt

def PINPAD_MAX : Nat := 128
def EINVAL : Int := 22
def ENOMEM : Int := 12

/-- The address of a `gpio_irq_param_s`. -/
abbrev Addr := UInt32

/-- `struct gpio_irq_param`; its `next` link is in `State.isr_head`. -/
structure GpioIrqParam where
  padctl : Nat
  param : UInt32
  callback : UInt32
  type : Nat

/-- The symbols of the linker script that the code uses: the numbers of the mailbox and of the
    GPIO interrupt, and the address of `gpio_interrupt`. -/
structure Symbols where
  mbox : Nat
  GPIO_INTR : Nat
  gpio_interrupt : UInt32
  intr_lt : GPIO_INTR < IRQ_NUM + EIRQ_NUM
  isr_ne : gpio_interrupt ≠ 0

/-- The nodes, the list of each pad in the order of its `next` links, the interrupt enable bits
    of the pads and the interrupt layer. `registered` is history: the callbacks of a pad that
    were requested and not yet freed, the latest one first. -/
structure State where
  heap : Addr → Option GpioIrqParam
  isr_head : Nat → List Addr
  ier : Nat → Bool
  port : PortInterrupt.State
  halted : Bool
  registered : Nat → List GpioIrqParam

/-- No callback requested. -/
def init : State := ⟨fun _ => none, fun _ => [], fun _ => false, PortInterrupt.init, false,
  fun _ => []⟩

variable (c : Symbols)

/-- `__gpio_irq_request`: its return value and the state. `node` and `isrOk` are what the two
    calls of `malloc` answer. -/
def gpio_irq_request (s : State) (padctl : Nat) (callback param : UInt32) (type : Nat)
    (node : Option Addr) (isrOk : Bool) : Int × State :=
  if ¬ padctl < PINPAD_MAX then (-EINVAL, s)
  else
    match node with
    | none => (-ENOMEM, s)
    | some a =>
      let irq_param : GpioIrqParam := ⟨padctl, param, callback, type⟩
      let registered :=
        Function.update s.registered padctl (irq_param :: s.registered padctl)
      let heap := Function.update s.heap a (some irq_param)
      if s.isr_head padctl = [] then
        let s := { s with
          heap := heap
          isr_head := Function.update s.isr_head padctl [a]
          registered := registered }
        match xPortInterruptInstallISR c.mbox s.port c.GPIO_INTR c.gpio_interrupt a 0 isrOk with
        | none => (0, { s with halted := true })
        | some port => (0, { s with port := port, ier := Function.update s.ier padctl true })
      else
        (0, { s with
          heap := heap
          isr_head := Function.update s.isr_head padctl (a :: s.isr_head padctl)
          registered := registered })

/-- The node that `gpio_irq_free` finds: the first one of the pad with the parameter. -/
def findNode (s : State) (padctl : Nat) (param : UInt32) : Option Addr :=
  (s.isr_head padctl).find? fun a => (s.heap a).any fun n => n.param = param

/-- `gpio_irq_free`: its return value and the state. -/
def gpio_irq_free (s : State) (padctl : Nat) (param : UInt32) : Int × State :=
  if ¬ padctl < PINPAD_MAX then (-EINVAL, s)
  else
    match findNode s padctl param with
    | none => (-EINVAL, s)
    | some a =>
      let head := (s.isr_head padctl).erase a
      let s := { s with
        isr_head := Function.update s.isr_head padctl head
        registered := Function.update s.registered padctl
          ((s.registered padctl).eraseP fun n => n.param = param) }
      if head = [] then
        let s := { s with ier := Function.update s.ier padctl false }
        -- the handler to remove is the head of the list, which is NULL here
        match xPortInterruptRemoveISR c.mbox s.port c.GPIO_INTR 0 with
        | none => (0, { s with halted := true })
        | some port => (0, { s with port := port, heap := Function.update s.heap a none })
      else (0, { s with heap := Function.update s.heap a none })

/-- A call of a callback. -/
structure Invocation where
  fn : UInt32
  args : List UInt32
  deriving DecidableEq

/-- How `gpio_interrupt` calls the callback of a node. -/
def GpioIrqParam.invoke (n : GpioIrqParam) : Invocation :=
  if n.type = 0 then ⟨n.callback, [n.param]⟩
  else ⟨n.callback, [UInt32.ofNat (n.padctl + 256), n.param]⟩

/-- The nodes from `a` on, along the `next` links. -/
def nodesFrom (s : State) (padctl : Nat) (a : Addr) : List Addr :=
  (s.isr_head padctl).dropWhile (· ≠ a)

/-- `gpio_interrupt`, while only the pad `p` has raised its interrupt; `pending` is its bit in
    the status register. The result is `none` when a freed node is read. -/
def gpio_interrupt (s : State) (p : Nat) (pending : Bool) (param : UInt32) :
    Option (List Invocation × Bool) :=
  if param = 0 then some ([], pending)
  else
    match s.heap param with
    | none => none
    | some n =>
      if n.padctl = p ∧ pending then
        ((nodesFrom s n.padctl param).mapM s.heap).map fun ns =>
          (ns.map GpioIrqParam.invoke, false)
      else some ([], pending)

/-- `prvDoIrq` over the blocks `blks`: the callbacks in the order of their calls. -/
def prvDoIrq (s : State) (p : Nat) : Bool → List IsrCtrlBlk → Option (List Invocation)
  | _, [] => some []
  | pending, blk :: blks =>
    (gpio_interrupt s p pending blk.param).bind fun (calls, pending) =>
      (prvDoIrq s p pending blks).map (calls ++ ·)

/-- An interrupt raised on the pad `p`. -/
def raise (s : State) (p : Nat) : Option (List Invocation) :=
  prvDoIrq s p true (s.port.isr_head c.GPIO_INTR)

/-- A call of a task or of a handler. -/
inductive Action where
  | request (padctl : Nat) (callback param : UInt32) (type : Nat) (node : Option Addr)
      (isrOk : Bool)
  | free (padctl : Nat) (param : UInt32)

/-- The step function. `malloc` answers with an address that is not in use. -/
def step (s : State) : Action → Option State
  | .request padctl callback param type node isrOk =>
    if s.halted = false ∧ node.all fun a => a ≠ 0 ∧ s.heap a = none then
      some (gpio_irq_request c s padctl callback param type node isrOk).2
    else none
  | .free padctl param =>
    if s.halted = false then some (gpio_irq_free c s padctl param).2 else none

/-- An interrupt of any pad invokes its registered callbacks, each once and with its own
    parameter, and the system has not been stopped by an assertion. -/
structure FansOut (s : State) : Prop where
  running : s.halted = false
  invokes : ∀ p, ∃ l, raise c s p = some l ∧
    l.Perm ((s.registered p).map GpioIrqParam.invoke)

/-- Every installed block refers to a node that has not been freed, of a pad that has a
    registered callback. -/
def Lifetime (s : State) : Prop :=
  ∀ blk ∈ s.port.isr_head c.GPIO_INTR, ∃ n, s.heap blk.param = some n ∧
    s.registered n.padctl ≠ []

end Hcrtos.Native.GpioIrq
