import Mathlib.Logic.Function.Basic
import Hcrtos.Native.IrNec

/-!
# The infrared receiver

`drivers/input/rc/rc-ir-raw.c` with the interrupt of `hc_rc.c`. The interrupt reads samples from
the receiver, joins those of one level to pulses and spaces, and puts them into a queue. A thread
takes them from there, and hands them to the decoders. The NEC decoder is the only one.
-/

namespace Hcrtos.Native.Rc

def ENOSPC : Int := 28

def MAX_IR_EVENT_SIZE : Nat := 512

/-- Microseconds that a sample counts in. -/
def BIT_DURATION : BitVec 32 := 8

def IRC_ISR_FIFO_ST : BitVec 8 := 1
def IRC_ISR_TMO_ST : BitVec 8 := 2

/-- `nec_handler.protocols`. -/
def nec_protocols : BitVec 64 := 1 <<< 9 ||| 1 <<< 10 ||| 1 <<< 11

/-- What the raw layer has in `struct rc_dev` and `struct ir_raw_event_ctrl`. -/
structure RawDev where
  kfifo : List RawEvent
  this_ev : RawEvent
  idle : Bool
  timeout : BitVec 32
  enabled_protocols : BitVec 64
  nec : Nec.Dec

namespace RawDev

/-- `ir_raw_event_store`: an event that finds the queue full is lost. -/
def ir_raw_event_store (dev : RawDev) (ev : RawEvent) : RawDev × Int :=
  if dev.kfifo.length < MAX_IR_EVENT_SIZE then ({ dev with kfifo := dev.kfifo ++ [ev] }, 0)
  else (dev, -ENOSPC)

/-- `ir_raw_event_set_idle`. The driver has no `s_idle`. -/
def ir_raw_event_set_idle (dev : RawDev) (idle : Bool) : RawDev :=
  let dev : RawDev :=
    if idle then
      { (dev.ir_raw_event_store { dev.this_ev with timeout := true }).1 with
        this_ev := RawEvent.zero }
    else dev
  { dev with idle }

/-- `ir_raw_event_store_with_filter`. -/
def ir_raw_event_store_with_filter (dev : RawDev) (ev : RawEvent) : RawDev × Int :=
  if dev.idle ∧ ev.pulse = false then (dev, 0)
  else
    let dev : RawDev := if dev.idle then dev.ir_raw_event_set_idle false else dev
    let dev : RawDev :=
      if dev.this_ev.duration = 0 then { dev with this_ev := ev }
      else if ev.pulse = dev.this_ev.pulse then
        { dev with
          this_ev := { dev.this_ev with duration := dev.this_ev.duration + ev.duration } }
      else { (dev.ir_raw_event_store dev.this_ev).1 with this_ev := ev }
    let dev : RawDev :=
      if ev.pulse = false ∧ dev.timeout ≠ 0 ∧ dev.this_ev.duration ≥ dev.timeout then
        dev.ir_raw_event_set_idle true
      else dev
    (dev, 1)

/-- The event of a sample that was read from the receiver. -/
def sample (irdata : BitVec 8) : RawEvent :=
  { RawEvent.zero with
    pulse := if irdata &&& 0x80 ≠ 0 then false else true
    duration := ((irdata &&& 0x7f).setWidth 32 + 1) * BIT_DURATION }

/-- `hc_rc_rx_interrupt`, with the status of the receiver and what its queue holds. -/
def hc_rc_rx_interrupt (dev : RawDev) (status : BitVec 8) (irdata : List (BitVec 8)) : RawDev :=
  let status := status &&& 0x3
  let dev : RawDev :=
    if status ≠ 0 then
      irdata.foldl (fun dev x => (dev.ir_raw_event_store_with_filter (sample x)).1) dev
    else dev
  if status &&& IRC_ISR_TMO_ST ≠ 0 then dev.ir_raw_event_set_idle true else dev

/-- A round of `ir_raw_event_thread`, which ends when the queue is empty. -/
def ir_raw_event_thread (dev : RawDev) : Option (RawDev × Option Nec.Call) :=
  match dev.kfifo with
  | [] => none
  | ev :: kfifo =>
    let dev : RawDev := { dev with kfifo }
    if dev.enabled_protocols &&& nec_protocols ≠ 0 then
      let r := Nec.ir_nec_decode dev.nec ev
      some ({ dev with nec := r.1 }, r.2.1)
    else some (dev, none)

/-- What can happen to the receiver. -/
inductive Label where
  | interrupt (status : BitVec 8) (irdata : List (BitVec 8))
  | thread

/-- A step of the receiver, with the calls that its decoder has made so far. -/
def step (s : RawDev × List Nec.Call) : Label → Option (RawDev × List Nec.Call)
  | .interrupt status irdata => some (s.1.hc_rc_rx_interrupt status irdata, s.2)
  | .thread => s.1.ir_raw_event_thread.map fun r => (r.1, s.2 ++ r.2.toList)

/-- The receiver when it has been registered, with the protocols of its key map. -/
def prepare (enabled_protocols : BitVec 64) : RawDev :=
  { kfifo := []
    this_ev := RawEvent.zero
    idle := true
    timeout := 125000
    enabled_protocols
    nec := Nec.init }

end RawDev

end Hcrtos.Native.Rc
