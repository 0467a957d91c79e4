import Mathlib.Logic.Function.Basic
import Hcrtos.ForStd.Lts
import Hcrtos.Native.PortInterrupt

/-!
# The I2C master

`hc-i2c.c`: any number of tasks call `hc_i2c_transfer` on one controller. A transfer of three
messages is an EDDC access, and the driver keeps that in a flag of the controller, which it reads
again for each message. What a message does on the bus is a `Command`, a function of the flag
and the message; waiting for the controller is a step whose outcome is part of the label.

After an error the driver initialises the controller again, which installs its interrupt handler.
-/

namespace Hcrtos.Native.I2c

open PortInterrupt

def I2C_M_READ : UInt16 := 0x0001
def I2C_M_NOSTOP : UInt16 := 0x0040
def I2C_M_NOSTART : UInt16 := 0x0080

def HCR_ST : UInt8 := 0x01
def HCR_CP_CUR_READ : UInt8 := 0x04
def HCR_CP_SEQ_READ : UInt8 := 0x08
def HCR_EO : UInt8 := 0x20
def HCR_DNEE : UInt8 := 0x40
def HCR_HCE : UInt8 := 0x80

def HC_I2C_STAT_RW_ERR : Int := -1
def ETIMEDOUT : Int := 116

/-- `struct i2c_msg_s`; the length is the one of the buffer. -/
structure I2cMsg where
  addr : UInt16
  flags : UInt16
  buffer : List UInt8
  deriving DecidableEq

/-- The message starts a transfer: `(flags & I2C_M_NOSTART) == 0`. -/
def I2cMsg.starts (msg : I2cMsg) : Bool := msg.flags &&& I2C_M_NOSTART = 0

/-- The message ends a transfer: `(flags & I2C_M_NOSTOP) == 0`. -/
def I2cMsg.stops (msg : I2cMsg) : Bool := msg.flags &&& I2C_M_NOSTOP = 0

/-- The flags that `hc_i2c_transfer` gives to message `i` of `count`. -/
def setFlags (count i : Nat) (msg : I2cMsg) : I2cMsg :=
  let flags := if i = 0 then msg.flags &&& ~~~I2C_M_NOSTART else msg.flags ||| I2C_M_NOSTART
  { msg with
    flags := if i + 1 = count then flags &&& ~~~I2C_M_NOSTOP else flags ||| I2C_M_NOSTOP }

/-- What the driver asks of the controller. -/
inductive Command where
  /-- The address and the segment of an EDDC access are set. -/
  | segment (eddc_addr : UInt16) (seg_pointer : UInt8)
  /-- The offset for the next message is set. -/
  | subaddress (bytes : List UInt8)
  | write (addr : UInt16) (data : List UInt8)
  /-- A read is started with the bits `hcr`, if any, and the FIFO interrupt. -/
  | read (addr : UInt16) (length : Nat) (hcr : Option UInt8) (trigger : Bool)
  /-- The bytes read are taken from the interrupt handler or from the FIFO. -/
  | collect (byInterrupt : Bool)
  deriving DecidableEq

/-- The command of `hc_i2c_write_msg`. -/
def hc_i2c_write_msg (eddc_flag : Bool) (msg : I2cMsg) : Command :=
  if eddc_flag ∧ msg.starts then .segment msg.addr (msg.buffer.getD 0 0)
  else if msg.stops then .write msg.addr msg.buffer
  -- ((wlen - 1) & 0x3) bytes after the first one
  else .subaddress (msg.buffer.take (1 + (msg.buffer.length + 3) % 4))

/-- The command of a round of `hc_i2c_read_msg`. -/
def hc_i2c_read_msg (eddc_flag : Bool) (msg : I2cMsg) : Command :=
  let rlen := msg.buffer.length
  if msg.starts then
    if msg.stops then
      .read msg.addr rlen (some (HCR_HCE ||| HCR_DNEE ||| HCR_CP_CUR_READ ||| HCR_ST)) (rlen > 32)
    else .read msg.addr rlen none false
  else if eddc_flag then
    .read msg.addr rlen
      (some (HCR_HCE ||| HCR_DNEE ||| HCR_EO ||| HCR_CP_SEQ_READ ||| HCR_ST)) true
  else
    .read msg.addr rlen (some (HCR_HCE ||| HCR_DNEE ||| HCR_CP_SEQ_READ ||| HCR_ST)) (rlen > 32)

/-- How the end of `hc_i2c_read_msg` gets the bytes. -/
def collectCommand (eddc_flag : Bool) (msg : I2cMsg) : Command :=
  .collect (msg.buffer.length > 32 ∨ eddc_flag)

/-- The message that a transfer of `count` messages is at, and those after it. -/
structure Xfer where
  count : Nat
  i : Nat
  msg : I2cMsg
  todo : List I2cMsg
  deriving DecidableEq

/-- The mode of the transfer itself. -/
def Xfer.eddc (x : Xfer) : Bool := x.count = 3

/-- Where a task is in `hc_i2c_transfer`. -/
inductive Pc where
  | idle
  /-- In `xSemaphoreTake`; the flag is written. -/
  | waiting (msgs : List I2cMsg)
  /-- At the head of the loop over the messages. -/
  | loop (count i : Nat) (msgs : List I2cMsg)
  /-- In `hc_i2c_wait_host_ready`. -/
  | host (x : Xfer)
  /-- In `hc_i2c_read_msg` with `j` attempts left, and in its `hc_i2c_wait_dev_ready`. -/
  | read (x : Xfer) (j : Nat)
  | readReady (x : Xfer) (j : Nat)
  /-- After the attempts of `hc_i2c_read_msg`. -/
  | collect (x : Xfer)
  | collecting (x : Xfer) (byInterrupt : Bool)
  /-- In `hc_i2c_write_msg`, and in its `hc_i2c_wait_dev_ready` with `j` attempts left. -/
  | write (x : Xfer)
  | writeReady (x : Xfer) (j : Nat)
  /-- In `hc_i2c_wait_trans_done`. -/
  | transDone (x : Xfer)
  /-- Before `hc_i2c_master_init` at the end of a failed `hc_i2c_xfer_msg`. -/
  | failed (ret : Int)
  /-- Before `xSemaphoreGive`. -/
  | unlock (ret : Int)
  deriving DecidableEq

/-- The next message. -/
def Xfer.next (x : Xfer) : Pc := .loop x.count (x.i + 1) x.todo

/-- A controller: its interrupt, the address of the handler and of the device, the baud rate,
    and the number of the mailbox interrupt. -/
structure Controller where
  irq : Nat
  hc_i2c_interrupt : UInt32
  priv : UInt32
  baudrate : UInt32
  mbox : Nat
  handler_ne : hc_i2c_interrupt ≠ 0
  irq_lt : irq < IRQ_NUM + EIRQ_NUM

/-- The device, the interrupt layer and the tasks. As history, the number of messages of the last
    call of `hc_i2c_transfer`, and each command that was carried out with the one that the
    transfer's own mode asks for. -/
structure State where
  probed : Bool
  eddc_flag : Bool
  lock : Option Nat
  port : PortInterrupt.State
  tasks : Nat → Pc
  lastCount : Option Nat
  log : List (Command × Command)

/-- The zeroed device before its probe. -/
def init : State := ⟨false, false, none, PortInterrupt.init, fun _ => .idle, none, []⟩

/-- `hc_i2c_master_init`, as far as it is about the interrupt handler. -/
def hc_i2c_master_init (c : Controller) (s : State) (mallocOk : Bool) : Option State :=
  if c.baudrate ≤ 0 then some s
  else
    (xPortInterruptInstallISR c.mbox s.port c.irq c.hc_i2c_interrupt c.priv 0 mallocOk).map
      fun port => { s with port := port }

def State.goto (s : State) (t : Nat) (pc : Pc) : State :=
  { s with tasks := Function.update s.tasks t pc }

/-- The command `f flag msg` is carried out with the flag of the device. -/
def State.perform (s : State) (f : Bool → I2cMsg → Command) (x : Xfer) : State :=
  { s with log := s.log ++ [(f s.eddc_flag x.msg, f x.eddc x.msg)] }

/-- The next step of task `t`; `ok` is how a wait ends, or whether `malloc` succeeds. -/
def taskStep (c : Controller) (s : State) (t : Nat) (ok : Bool) : Option State :=
  match s.tasks t with
  | .idle => none
  | .waiting msgs =>
    if s.lock = none then some { s.goto t (.loop msgs.length 0 msgs) with lock := some t }
    else none
  | .loop count _ [] => some (s.goto t (.unlock count))
  | .loop count i (msg :: todo) => some (s.goto t (.host ⟨count, i, setFlags count i msg, todo⟩))
  | .host x =>
    if ok then
      if x.msg.flags &&& I2C_M_READ ≠ 0 then some (s.goto t (.read x 10))
      else some (s.goto t (.write x))
    else some (s.goto t (.failed (-ETIMEDOUT)))
  | .read x j => some ((s.perform hc_i2c_read_msg x).goto t (.readReady x j))
  | .readReady x j =>
    if ok then some (s.goto t (.collect x))
    else if j ≤ 1 then some (s.goto t (.failed HC_I2C_STAT_RW_ERR))
    else some (s.goto t (.read x (j - 1)))
  | .collect x =>
    let byInterrupt := x.msg.buffer.length > 32 ∨ s.eddc_flag
    some ((s.perform collectCommand x).goto t (.collecting x byInterrupt))
  | .collecting x byInterrupt =>
    -- without the interrupt, missing bytes are not noticed
    if byInterrupt ∧ ok = false then some (s.goto t (.failed HC_I2C_STAT_RW_ERR))
    else some (s.goto t x.next)
  | .write x =>
    let s' := s.perform hc_i2c_write_msg x
    match hc_i2c_write_msg s.eddc_flag x.msg with
    | .write .. => some (s'.goto t (.writeReady x 10))
    | _ => some (s'.goto t x.next)
  | .writeReady x j =>
    if ok then some (s.goto t (.transDone x))
    else if j ≤ 1 then some (s.goto t (.failed HC_I2C_STAT_RW_ERR))
    else some (s.goto t (.writeReady x (j - 1)))
  | .transDone x =>
    if ok then some (s.goto t x.next) else some (s.goto t (.failed HC_I2C_STAT_RW_ERR))
  | .failed ret => (hc_i2c_master_init c s ok).map fun s => s.goto t (.unlock ret)
  | .unlock _ => some { s.goto t .idle with lock := none }

/-- A step of the system. -/
inductive Action where
  /-- `i2cbus_initialize`. -/
  | probe (mallocOk : Bool)
  /-- Task `t` calls `hc_i2c_transfer`, which writes the flag. -/
  | transfer (t : Nat) (msgs : List I2cMsg)
  | task (t : Nat) (ok : Bool)

/-- The step function. -/
def step (c : Controller) (s : State) : Action → Option State
  | .probe mallocOk =>
    if s.probed = false then
      (hc_i2c_master_init c s mallocOk).map fun s => { s with probed := 0 < c.baudrate }
    else none
  | .transfer t msgs =>
    if s.probed ∧ s.tasks t = .idle then
      some { s.goto t (.waiting msgs) with
        eddc_flag := msgs.length = 3
        lastCount := some msgs.length }
    else none
  | .task t ok => taskStep c s t ok

/-- Every message was carried out in the mode of its own transfer. -/
def Isolated (s : State) : Prop := ∀ e ∈ s.log, e.1 = e.2

instance (s : State) : Decidable (Isolated s) := inferInstanceAs (Decidable (∀ e ∈ _, _))

/-- The number of messages of the transfer, where the next command depends on its mode. -/
def Pc.modeOf : Pc → Option Nat
  | .write x => if x.msg.starts then some x.count else none
  | .read x _ => if x.msg.starts then none else some x.count
  | .collect x => if x.msg.buffer.length > 32 then none else some x.count
  | _ => none

/-- A command that depends on the mode comes while the last call of `hc_i2c_transfer` was of the
    mode of the command's transfer. -/
def LastCallAgrees (s : State) : Action → Prop
  | .task t _ => ∀ count ∈ (s.tasks t).modeOf, s.lastCount = some 3 ↔ count = 3
  | _ => True

/-- How often an interrupt of the controller runs the handler. -/
def State.registrations (c : Controller) (s : State) : Nat :=
  (s.port.isr_head c.irq).count ⟨c.hc_i2c_interrupt, c.priv, 0⟩

/-- The interrupt handler is registered at most once. -/
def Single (c : Controller) (s : State) : Prop := s.registrations c ≤ 1

instance (c : Controller) (s : State) : Decidable (Single c s) :=
  inferInstanceAs (Decidable (_ ≤ _))

/-- A failed message finds the handler not registered, or `malloc` fails for its block. -/
def NotYetRegistered (c : Controller) (s : State) : Action → Prop
  | .task t true => ∀ ret, s.tasks t = .failed ret → 0 < c.baudrate → s.registrations c = 0
  | _ => True

end Hcrtos.Native.I2c
