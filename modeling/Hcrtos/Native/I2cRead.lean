import Hcrtos.Native.I2c

/-!
# The reads of the I2C master

`hc-i2c.c`, as far as bytes are received: the loop of `hc_i2c_transfer` over the messages, the
attempts of `hc_i2c_read_msg`, the two ways in which it takes the bytes from the FIFO, and the
interrupt handler, which takes them too. The controller puts bytes into the FIFO at any time, and
each wait ends as the label says or, for a byte, when the FIFO is still empty. The calls that wait
for the lock have written the flag for EDDC accesses already.

What is sent is left out, and so is the completion, since how the wait for it ends is not looked
at. As history a message has the bytes that the driver has taken from the FIFO for it since the
last start.
-/

namespace Hcrtos.Native.I2cRead

open I2c (I2cMsg Command I2C_M_READ setFlags ETIMEDOUT HC_I2C_STAT_RW_ERR)

/-- A transfer of `count` messages that is at message `i`, and the messages that are left. -/
structure Xfer where
  count : Nat
  i : Nat
  todo : List I2cMsg
  deriving DecidableEq

/-- Where the task that holds the lock is. -/
inductive Pc where
  /-- There is no such task. -/
  | idle
  /-- At the head of the loop over the messages. -/
  | loop (x : Xfer)
  /-- In `hc_i2c_wait_host_ready`. -/
  | host (x : Xfer)
  /-- In `hc_i2c_read_msg` with `j` attempts left: before the FIFO is cleared, before the read is
      started, and in `hc_i2c_wait_dev_ready`, where the interrupt is `armed` or not. -/
  | clear (x : Xfer) (j : Nat)
  | start (x : Xfer) (j : Nat)
  | ready (x : Xfer) (j : Nat) (armed : Bool)
  /-- After the attempts. -/
  | collect (x : Xfer) (armed : Bool)
  /-- In `wait_for_completion_timeout`, in the loop after it, and in the loop of a short read. -/
  | completion (x : Xfer)
  | drain (x : Xfer)
  | poll (x : Xfer) (i : Nat)
  /-- In `hc_i2c_write_msg`, in its attempts, in the wait for the completion of one, in
      `hc_i2c_wait_dev_ready`, and in `hc_i2c_wait_trans_done`. -/
  | write (x : Xfer)
  | attempt (x : Xfer) (j : Nat)
  | written (x : Xfer) (j : Nat)
  | writeReady (x : Xfer) (j : Nat)
  | transDone (x : Xfer)
  /-- At the label `err` of `hc_i2c_xfer_msg`. -/
  | failed (x : Xfer) (ret : Int)
  /-- Before `xSemaphoreGive`, after `i` messages. -/
  | unlock (i : Nat) (ret : Int)
  deriving DecidableEq

/-- The next message. -/
def Xfer.next (x : Xfer) : Pc := .loop { x with i := x.i + 1 }

/-- A message, and the bytes that were taken for it. -/
abbrev Record := I2cMsg × List UInt8

structure State where
  eddc_flag : Bool
  ridx : Nat
  fifo_trigger_int_en : Bool
  /-- The bytes in the receive FIFO. -/
  fifo : List UInt8
  msg : I2cMsg
  /-- The bytes that were taken for the message. -/
  taken : List UInt8
  /-- The messages of the transfer before it. -/
  past : List Record
  pc : Pc
  /-- The calls that wait for the lock. -/
  waiting : List (List I2cMsg)
  /-- The last return of `hc_i2c_transfer`: its result and its messages. -/
  returned : Option (Int × List Record)

/-- The zeroed device. -/
def init : State := ⟨false, 0, false, [], ⟨0, 0, []⟩, [], [], .idle, [], none⟩

/-- The messages of the transfer up to the one at which it is. -/
def State.records (s : State) (i : Nat) : List Record :=
  if i = 0 then [] else s.past ++ [(s.msg, s.taken)]

/-- The bytes of the message are taken by the handler, as far as it gets. -/
def State.long (s : State) : Bool := s.msg.buffer.length > 32 || s.eddc_flag

/-- `rdata[k] = reg->data_register`. -/
def State.store (s : State) (k : Nat) (byte : UInt8) (rest : List UInt8) : State :=
  { s with
    msg := { s.msg with buffer := s.msg.buffer.set k byte }
    taken := s.taken ++ [byte]
    fifo := rest }

/-- `rdata[priv->ridx++] = reg->data_register`. -/
def State.storeNext (s : State) (byte : UInt8) (rest : List UInt8) : State :=
  { s.store s.ridx byte rest with ridx := s.ridx + 1 }

/-- The loop of the handler, for the bytes in the FIFO. -/
def readFifo : List UInt8 → State → State
  | [], s => s
  | byte :: rest, s =>
    if s.ridx < s.msg.buffer.length then readFifo rest (s.storeNext byte rest) else s

/-- The handler. For a message to be written it fills the other FIFO. -/
def hc_i2c_interrupt (s : State) : State :=
  if s.msg.flags &&& I2C_M_READ ≠ 0 then readFifo s.fifo s else s

/-- An attempt of `hc_i2c_read_msg` enables the FIFO interrupt. -/
def triggers (eddc_flag : Bool) (msg : I2cMsg) : Bool :=
  match I2c.hc_i2c_read_msg eddc_flag msg with
  | .read _ _ _ trigger => trigger
  | _ => false

/-- `hc_i2c_write_msg` writes the message, and does not only keep it for the next one. -/
def writes (eddc_flag : Bool) (msg : I2cMsg) : Bool :=
  match I2c.hc_i2c_write_msg eddc_flag msg with
  | .write .. => true
  | _ => false

/-- The next step of the task that holds the lock; `ok` is how a wait ends. -/
def taskStep (s : State) (ok : Bool) : Option State :=
  match s.pc with
  | .idle => none
  | .loop x =>
    match x.todo with
    | [] => some { s with pc := .unlock x.i x.count }
    | msg :: todo =>
      some { s with
        past := s.records x.i
        msg := setFlags x.count x.i msg
        taken := []
        pc := .host { x with todo := todo } }
  | .host x =>
    if ok then
      if s.msg.flags &&& I2C_M_READ ≠ 0 then some { s with pc := .clear x 10 }
      else some { s with pc := .write x }
    else some { s with pc := .failed x (-ETIMEDOUT) }
  | .clear x j => some { s with fifo := [], pc := .start x j }
  | .start x j =>
    -- a read that is the first of several messages starts nothing, and leaves the index
    let armed := triggers s.eddc_flag s.msg
    some { s with
      ridx := if armed then 0 else s.ridx
      fifo_trigger_int_en := armed || s.fifo_trigger_int_en
      taken := []
      pc := .ready x j armed }
  | .ready x j armed =>
    if ok then some { s with pc := .collect x armed }
    else if j ≤ 1 then some { s with pc := .failed x HC_I2C_STAT_RW_ERR }
    else some { s with pc := .clear x (j - 1) }
  | .collect x _ =>
    -- by the length and the flag as it is now, not by how the read was started
    if s.long then some { s with pc := .completion x }
    else some { s with pc := .poll x 0 }
  -- a timeout is treated like the completion: what is missing is waited for in the loop
  | .completion x => some { s with fifo_trigger_int_en := false, pc := .drain x }
  | .drain x =>
    if s.ridx < s.msg.buffer.length then
      match s.fifo with
      | byte :: rest => some (s.storeNext byte rest)
      -- the loop ends with bytes missing, and the test after it fails
      | [] => some { s with pc := .failed x HC_I2C_STAT_RW_ERR }
    else some { s with pc := x.next }
  | .poll x i =>
    if i < s.msg.buffer.length then
      match s.fifo with
      | byte :: rest => some { s.store i byte rest with pc := .poll x (i + 1) }
      -- the loop ends, and the state of the device becomes that of a success
      | [] => some { s with pc := x.next }
    else some { s with pc := x.next }
  | .write x =>
    if writes s.eddc_flag s.msg then some { s with pc := .attempt x 10 }
    else some { s with pc := x.next }
  | .attempt x j =>
    if s.msg.buffer.length ≤ 32 then some { s with fifo := [], pc := .writeReady x j }
    else some { s with fifo := [], fifo_trigger_int_en := true, pc := .written x j }
  | .written x j => some { s with fifo_trigger_int_en := false, pc := .writeReady x j }
  | .writeReady x j =>
    if ok then some { s with pc := .transDone x }
    else if j ≤ 1 then some { s with pc := .failed x HC_I2C_STAT_RW_ERR }
    else some { s with pc := .attempt x (j - 1) }
  | .transDone x =>
    if ok then some { s with pc := x.next }
    else some { s with pc := .failed x HC_I2C_STAT_RW_ERR }
  -- the controller is initialised again, and its FIFO is cleared
  | .failed x ret => some { s with fifo := [], pc := .unlock (x.i + 1) ret }
  | .unlock i ret => some { s with returned := some (ret, s.records i), pc := .idle }

/-- A step of the system. -/
inductive Action where
  /-- A task calls `hc_i2c_transfer`, which writes the flag, and waits for the lock. -/
  | call (msgs : List I2cMsg)
  /-- A call obtains the lock. -/
  | lock (msgs : List I2cMsg)
  | task (ok : Bool)
  | interrupt
  /-- The controller receives a byte. -/
  | arrive (byte : UInt8)

/-- The step function. -/
def step (s : State) : Action → Option State
  | .call msgs =>
    some { s with eddc_flag := msgs.length = 3, waiting := msgs :: s.waiting }
  | .lock msgs =>
    if s.pc = .idle ∧ msgs ∈ s.waiting then
      some { s with pc := .loop ⟨msgs.length, 0, msgs⟩, waiting := s.waiting.erase msgs }
    else none
  | .task ok => taskStep s ok
  | .interrupt => if s.fifo_trigger_int_en then some (hc_i2c_interrupt s) else none
  | .arrive byte => some { s with fifo := s.fifo ++ [byte] }

/-- The buffer of a message that is read has the bytes that were taken for it, all of them and
    nothing else. -/
def Complete (r : Record) : Prop := r.1.flags &&& I2C_M_READ ≠ 0 → r.1.buffer = r.2

instance (r : Record) : Decidable (Complete r) := inferInstanceAs (Decidable (_ → _))

/-- Whenever `hc_i2c_transfer` reports success, every message that was to be read is complete. -/
def ReadsComplete (s : State) : Prop :=
  ∀ r ∈ s.returned, 0 ≤ r.1 → ∀ m ∈ r.2, Complete m

/-- The handler would take a byte. -/
def State.TakesByte (s : State) : Prop :=
  s.msg.flags &&& I2C_M_READ ≠ 0 ∧ s.ridx < s.msg.buffer.length ∧ s.fifo ≠ []

instance (s : State) : Decidable s.TakesByte := inferInstanceAs (Decidable (_ ∧ _ ∧ _))

/-- The task relies on the handler taking nothing: it reads a message by itself, or is done with
    it. -/
def Pc.exposed : Pc → Bool
  | .ready _ _ armed => !armed
  | .collect _ armed => !armed
  | .poll _ _ => true
  | .loop x => x.i ≠ 0
  | .unlock _ ret => 0 ≤ ret
  | _ => false

/-- The condition on a step of the task: the bytes of a read are taken in the way for which it was
    started, or the handler begins at the first one, and a short read finds a byte in the FIFO. -/
def State.TaskClean (s : State) : Pc → Prop
  | .collect _ armed => armed = s.long ∨ s.ridx = 0
  | .poll _ i => i < s.msg.buffer.length → s.fifo ≠ []
  | _ => True

instance (s : State) (pc : Pc) : Decidable (s.TaskClean pc) :=
  match pc with
  | .collect _ _ => inferInstanceAs (Decidable (_ ∨ _))
  | .poll _ i => inferInstanceAs (Decidable (i < s.msg.buffer.length → s.fifo ≠ []))
  | .idle | .loop _ | .host _ | .clear _ _ | .start _ _ | .ready _ _ _ | .completion _ | .drain _
  | .write _ | .attempt _ _ | .written _ _ | .writeReady _ _ | .transDone _ | .failed _ _
  | .unlock _ _ => inferInstanceAs (Decidable True)

/-- And a FIFO interrupt that was left enabled takes no byte where the task relies on that. -/
def Clean (s : State) : Action → Prop
  | .task _ => s.TaskClean s.pc
  | .interrupt => s.pc.exposed → ¬ s.TakesByte
  | _ => True

instance (s : State) (a : Action) : Decidable (Clean s a) :=
  match a with
  | .task _ => inferInstanceAs (Decidable (s.TaskClean s.pc))
  | .interrupt => inferInstanceAs (Decidable (s.pc.exposed → ¬ s.TakesByte))
  | .call _ | .lock _ | .arrive _ => inferInstanceAs (Decidable True)

end Hcrtos.Native.I2cRead
