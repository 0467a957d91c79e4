import Hcrtos.ForStd.Bits
import Hcrtos.ForStd.Lts

/-!
# Directions and outputs of the pads

`drivers/gpio/gpio.c` and `gpio_irq_mode_config` of `gpioirq.c`: 32 pads share each register. An
update of a pad reads the word, sets or clears its bit and writes the word back. The interrupt
handler runs between two accesses of the task. The registers of the pin multiplexer, which
`gpio_configure` writes first, are separate bytes and are left out.
-/

namespace Hcrtos.Native.Gpio

open Bits

def PINPAD_MAX : Nat := 128
def GPIO_DIR_MUSK : BitVec 8 := 0x0f
def GPIO_DIR_INPUT : BitVec 8 := 0
def GPIO_DIR_OUTPUT : BitVec 8 := 1
def GPIO_IRQ_RISING : BitVec 8 := 0x10
def GPIO_IRQ_FALLING : BitVec 8 := 0x20

/-- The registers of a bank of pads. -/
inductive Reg where
  | RIS_IER_REG
  | FALL_IER_REG
  | OUTPUT_VAL_REG
  | DIR_REG
  deriving DecidableEq

/-- `REG32_SET_BIT` or `REG32_CLR_BIT` of a pad's bit. -/
structure Update where
  reg : Reg
  padctl : Nat
  val : Bool

/-- The word that the update writes after it has read `word`. -/
def Update.modify (u : Update) (word : BitVec 32) : BitVec 32 :=
  if u.val then setBit word (u.padctl % 32) else clearBit word (u.padctl % 32)

def gpio_config_setin (padctl : Nat) : List Update := [⟨.DIR_REG, padctl, false⟩]
def gpio_config_setout (padctl : Nat) : List Update := [⟨.DIR_REG, padctl, true⟩]
def gpio_set_output_high (padctl : Nat) : List Update := [⟨.OUTPUT_VAL_REG, padctl, true⟩]
def gpio_set_output_low (padctl : Nat) : List Update := [⟨.OUTPUT_VAL_REG, padctl, false⟩]

def gpio_irq_mode_config (padctl : Nat) (pinset : BitVec 8) : List Update :=
  [⟨.FALL_IER_REG, padctl, decide (GPIO_IRQ_FALLING &&& pinset ≠ 0)⟩,
    ⟨.RIS_IER_REG, padctl, decide (GPIO_IRQ_RISING &&& pinset ≠ 0)⟩]

def gpio_set_output (padctl : Nat) (val : Bool) : List Update :=
  if padctl ≥ PINPAD_MAX then []
  else if val then gpio_set_output_high padctl
  else gpio_set_output_low padctl

/-- The return value and the updates. -/
def gpio_configure (padctl : Nat) (pinset : BitVec 8) : Int × List Update :=
  if padctl ≥ PINPAD_MAX then (-1, [])
  else if pinset &&& GPIO_DIR_MUSK = GPIO_DIR_INPUT then
    (0, gpio_config_setin padctl ++ gpio_irq_mode_config padctl pinset)
  else if pinset &&& GPIO_DIR_MUSK = GPIO_DIR_OUTPUT then (0, gpio_config_setout padctl)
  else (0, [])

inductive Call where
  | gpio_set_output (padctl : Nat) (val : Bool)
  | gpio_configure (padctl : Nat) (pinset : BitVec 8)

def Call.padctl : Call → Nat
  | .gpio_set_output padctl _ => padctl
  | .gpio_configure padctl _ => padctl

def Call.updates : Call → List Update
  | .gpio_set_output padctl val => Gpio.gpio_set_output padctl val
  | .gpio_configure padctl pinset => (Gpio.gpio_configure padctl pinset).2

/-- The registers of the banks. -/
abbrev Regs := Reg → Nat → BitVec 32

/-- The bit of a pad. -/
def Regs.bit (r : Regs) (reg : Reg) (padctl : Nat) : Bool :=
  (r reg (padctl / 32)).getLsbD (padctl % 32)

def Regs.write (r : Regs) (reg : Reg) (bank : Nat) (word : BitVec 32) : Regs :=
  Function.update r reg (Function.update (r reg) bank word)

/-- An update that nothing interrupts. -/
def Regs.update (r : Regs) (u : Update) : Regs :=
  r.write u.reg (u.padctl / 32) (u.modify (r u.reg (u.padctl / 32)))

/-- What a call asks for: the output bit, or a direction that is one of the two known ones. -/
def Call.request : Call → Reg → Nat → Option Bool
  | .gpio_set_output padctl val, .OUTPUT_VAL_REG, pad =>
    if pad = padctl ∧ padctl < PINPAD_MAX then some val else none
  | .gpio_configure padctl pinset, .DIR_REG, pad =>
    if pad = padctl ∧ padctl < PINPAD_MAX then
      if pinset &&& GPIO_DIR_MUSK = GPIO_DIR_INPUT then some false
      else if pinset &&& GPIO_DIR_MUSK = GPIO_DIR_OUTPUT then some true
      else none
    else none
  | _, _, _ => none

/-- The registers, the updates that the task's call still has to make and the word that the first
    of them has read. `requested` is history: what the last call for a pad asked for, or the bit
    in the beginning. -/
structure State where
  regs : Regs
  todo : List Update
  loaded : Option (BitVec 32)
  requested : Reg → Nat → Bool

def State.request (s : State) (c : Call) : State :=
  { s with requested := fun reg pad => (c.request reg pad).getD (s.requested reg pad) }

/-- A call that nothing interrupts. -/
def State.perform (s : State) (c : Call) : State :=
  { s.request c with regs := c.updates.foldl Regs.update s.regs }

inductive Action where
  /-- The task makes a call. -/
  | call (c : Call)
  /-- The task reads the word of its next update. -/
  | load
  /-- The task writes it back. -/
  | store
  /-- The interrupt handler runs to completion. -/
  | interrupt (cs : List Call)

/-- The step function. The pads that satisfy `handlers` are those of the interrupt handler. -/
def step (handlers : Nat → Bool) (s : State) : Action → Option State
  | .call c =>
    if s.todo = [] ∧ handlers c.padctl = false then
      some { s.request c with todo := c.updates }
    else none
  | .load =>
    match s.todo, s.loaded with
    | u :: _, none => some { s with loaded := some (s.regs u.reg (u.padctl / 32)) }
    | _, _ => none
  | .store =>
    match s.todo, s.loaded with
    | u :: todo, some word =>
      some { s with
        regs := s.regs.write u.reg (u.padctl / 32) (u.modify word)
        todo := todo
        loaded := none }
    | _, _ => none
  | .interrupt cs =>
    if cs.all fun c => handlers c.padctl then some (cs.foldl State.perform s) else none

/-- No call is running. -/
def start (regs : Regs) : State := ⟨regs, [], none, regs.bit⟩

end Hcrtos.Native.Gpio
