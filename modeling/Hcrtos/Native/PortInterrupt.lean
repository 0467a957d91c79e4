import Mathlib.Logic.Function.Basic
import Hcrtos.ForStd.Bits
import Hcrtos.ForStd.Lts

/-!
# Interrupt handlers and masks

`port_interrupt.c`: the handler lists, the enable registers of the external interrupts and
the mask bits of the status register. A step is a call of a task or of a handler, or the
start or the end of a dispatch; a call whose `configASSERT` fails is not a step. The number
of the mailbox interrupt is a symbol of the linker script.
-/

namespace Hcrtos.Native.PortInterrupt

open Bits

def IRQ_NUM : Nat := 8
def EIRQ3_NUM : Nat := 64
def EIRQ2_NUM : Nat := 32
def EIRQ_NUM : Nat := EIRQ2_NUM + EIRQ3_NUM
def IRQ_EIRQ3_NUM : Nat := 3
def IRQ_EIRQ2_NUM : Nat := 2

/-- `struct isr_ctrl_blk`: the function, its parameter, and whether it is called with the
    number of the interrupt as well. -/
structure IsrCtrlBlk where
  proc : UInt32
  param : UInt32
  type : Nat
  deriving DecidableEq

/-- What `vPortInterruptHandoff` holds during a dispatch: the status it read at its start,
    and, as history, the handler lists at that time. -/
structure Dispatch where
  status : BitVec 32
  heads : Nat → List IsrCtrlBlk

/-- The handler lists, the status register, the enable registers by bank with the copy of
    bank 1, and the dispatch under way. -/
structure State where
  isr_head : Nat → List IsrCtrlBlk
  sr : BitVec 32
  enable_reg : Nat → BitVec 32
  enable_reg_bank1 : BitVec 32
  dispatch : Option Dispatch

/-- After `vPortInterruptInit`, with every interrupt disabled. -/
def init : State := ⟨fun _ => [], 0, fun _ => 0, 0, none⟩

variable (mbox : Nat)

/-- `xPortInterruptEnable`. -/
def xPortInterruptEnable (s : State) (irq : Nat) : State :=
  if irq ≥ IRQ_NUM then
    let status :=
      if irq = mbox then setBit s.sr (IRQ_EIRQ2_NUM + IRQ_NUM)
      else setBit s.sr (IRQ_EIRQ3_NUM + IRQ_NUM)
    let irq_num := irq - IRQ_NUM
    let irq_bank := irq_num / 32
    if irq_bank = 1 then
      let bank1 := setBit s.enable_reg_bank1 (irq_num % 32)
      { s with
        enable_reg_bank1 := bank1
        enable_reg := Function.update s.enable_reg irq_bank bank1
        sr := status }
    else
      { s with
        enable_reg := Function.update s.enable_reg irq_bank
          (setBit (s.enable_reg irq_bank) (irq_num % 32))
        sr := status }
  else { s with sr := setBit s.sr (irq + IRQ_NUM) }

/-- `xPortInterruptDisable`. -/
def xPortInterruptDisable (s : State) (irq : Nat) : State :=
  if irq ≥ IRQ_NUM then
    let status :=
      if ∀ i ∈ List.range' IRQ_NUM EIRQ3_NUM, s.isr_head i = [] then
        clearBit s.sr (IRQ_EIRQ3_NUM + IRQ_NUM)
      else s.sr
    let status :=
      if irq = mbox then clearBit status (IRQ_EIRQ2_NUM + IRQ_NUM) else status
    let irq_num := irq - IRQ_NUM
    let irq_bank := irq_num / 32
    if irq_bank = 1 then
      let bank1 := clearBit s.enable_reg_bank1 (irq_num % 32)
      { s with
        enable_reg_bank1 := bank1
        enable_reg := Function.update s.enable_reg irq_bank bank1
        sr := status }
    else
      { s with
        enable_reg := Function.update s.enable_reg irq_bank
          (clearBit (s.enable_reg irq_bank) (irq_num % 32))
        sr := status }
  else { s with sr := clearBit s.sr (irq + IRQ_NUM) }

/-- `__xPortInterruptInstallISR`; `none` when an assertion fails. -/
def xPortInterruptInstallISR (s : State) (irq : Nat) (fn param : UInt32) (type : Nat)
    (mallocOk : Bool) : Option State :=
  if fn ≠ 0 ∧ irq < IRQ_NUM + EIRQ_NUM then
    if mallocOk = false then some s
    else
      let head := s.isr_head irq ++ [⟨fn, param, type⟩]
      some (xPortInterruptEnable mbox
        { s with isr_head := Function.update s.isr_head irq head } irq)
  else none

/-- The test of `xPortInterruptRemoveISR` for the block to remove. -/
def IsrCtrlBlk.isFor (b : IsrCtrlBlk) (fn : UInt32) : Bool :=
  (b.type = 0 ∧ fn = b.proc) ∨ (b.type = 1 ∧ fn = b.param)

/-- `xPortInterruptRemoveISR`; `none` when an assertion fails. -/
def xPortInterruptRemoveISR (s : State) (irq : Nat) (fn : UInt32) : Option State :=
  if fn ≠ 0 ∧ irq < IRQ_NUM + EIRQ_NUM then
    if (s.isr_head irq).any (·.isFor fn) then
      let head := (s.isr_head irq).eraseP (·.isFor fn)
      let s := { s with isr_head := Function.update s.isr_head irq head }
      if head = [] then some (xPortInterruptDisable mbox s irq) else some s
    else some s
  else none

/-- A call, or the start or the end of `vPortInterruptHandoff`. -/
inductive Action where
  | install (irq : Nat) (fn param : UInt32) (type : Nat) (mallocOk : Bool)
  | remove (irq : Nat) (fn : UInt32)
  | enter
  | leave

/-- The step function. -/
def step (s : State) : Action → Option State
  | .install irq fn param type mallocOk =>
    xPortInterruptInstallISR mbox s irq fn param type mallocOk
  | .remove irq fn => xPortInterruptRemoveISR mbox s irq fn
  | .enter =>
    match s.dispatch with
    | none => some { s with dispatch := some ⟨s.sr, s.isr_head⟩ }
    | some _ => none
  | .leave =>
    match s.dispatch with
    | none => none
    | some d => some { s with sr := d.status, dispatch := none }

/-! ### Dispatching interrupts

`vPortInterruptHandoff` of `port_interrupt.c`. A dispatch is the list of the handlers it calls;
what they do is not modelled, and the handler lists do not change meanwhile. The soft interrupts
behind the loop have no handler lists and are left out.
-/

/-- What the hand-off reads: the cause register, the status words of the banks, the address of
    the status word of the mailbox, and that word. -/
structure Registers where
  cause : BitVec 32
  status_reg : Nat → BitVec 32
  mbox_status_reg : BitVec 32
  mbox_status : BitVec 32

/-- A handler that is called: the number of the interrupt, and the block. -/
structure Call where
  irq_no : Nat
  isr : IsrCtrlBlk
  deriving DecidableEq

/-- `prvDoIrq`; `none` is its result -1, for which the assertion of the callers fails. -/
def prvDoIrq (isr_head : Nat → List IsrCtrlBlk) (irq_no : Nat) : Option (List Call) :=
  if irq_no ≥ IRQ_NUM + EIRQ_NUM then none
  else some ((isr_head irq_no).map fun isr => ⟨irq_no, isr⟩)

/-- The loop of `prvNBInterruptHandler` over the bits of the bank `i`, with the status word
    `stat`. The number of the interrupt is made in the variable of the loop. -/
def scanBank (isr_head : Nat → List IsrCtrlBlk) (stat : BitVec 32) (i : Nat) :
    Nat → Nat → Option (List Call)
  | 0, _ => none
  | fuel + 1, nb_irq_no =>
    if nb_irq_no < 32 then
      if stat.getLsbD nb_irq_no then
        let nb_irq_no := nb_irq_no + 32 * i
        let irq_no := nb_irq_no + IRQ_NUM
        (prvDoIrq isr_head irq_no).bind fun calls =>
          (scanBank isr_head stat i fuel (nb_irq_no + 1)).map (calls ++ ·)
      else scanBank isr_head stat i fuel (nb_irq_no + 1)
    else some []

/-- The loop over the banks. -/
def scanBanks (isr_head : Nat → List IsrCtrlBlk) (int_stat : Nat → BitVec 32) :
    List Nat → Option (List Call)
  | [] => some []
  | i :: banks =>
    if int_stat i = 0 then scanBanks isr_head int_stat banks
    else
      (scanBank isr_head (int_stat i) i 33 0).bind fun calls =>
        (scanBanks isr_head int_stat banks).map (calls ++ ·)

/-- `prvNBInterruptHandler`. -/
def prvNBInterruptHandler (isr_head : Nat → List IsrCtrlBlk) (int_stat : Nat → BitVec 32) :
    Option (List Call) :=
  scanBanks isr_head int_stat (List.range (EIRQ_NUM / 32))

/-- `int_stat`: the status words of the banks, and a bit for the mailbox in the last one. -/
def intStat (r : Registers) (i : Nat) : BitVec 32 :=
  if i < EIRQ_NUM / 32 - 1 then r.status_reg i
  else if i = EIRQ_NUM / 32 - 1 ∧ r.mbox_status_reg ≠ 0xffffffff ∧
      r.mbox_status &&& 0xff ≠ 0 then BitVec.twoPow 32 2
  else 0

/-- The loop of the hand-off over the bits `lines` of the cause register. -/
def scanLines (isr_head : Nat → List IsrCtrlBlk) (int_stat : Nat → BitVec 32)
    (cause : BitVec 32) : List Nat → Option (List Call)
  | [] => some []
  | irq_no :: lines =>
    if cause.getLsbD irq_no then
      (if irq_no = IRQ_EIRQ3_NUM ∨ irq_no = IRQ_EIRQ2_NUM then
          prvNBInterruptHandler isr_head int_stat
        else prvDoIrq isr_head irq_no).bind fun calls =>
          (scanLines isr_head int_stat cause lines).map (calls ++ ·)
    else scanLines isr_head int_stat cause lines

/-- `vPortInterruptHandoff`: the calls it makes; `none` when an assertion fails. -/
def vPortInterruptHandoff (s : State) (r : Registers) : Option (List Call) :=
  if r.cause &&& 0x7c = 0 ∧ s.dispatch = none then
    let cause := (r.cause &&& s.sr &&& 0xff00) >>> 8
    scanLines s.isr_head (intStat r) cause (List.range IRQ_NUM)
  else none

end Hcrtos.Native.PortInterrupt
