import Mathlib.Algebra.Ring.Nat
import Mathlib.Data.List.Basic
import Hcrtos.ForStd.Lts

/-!
# The scheduler tick

`port_timer.c` and `clock_gettime.c`: the tick timer fires when its counter reaches the compare
value. The handler counts a tick and moves the compare value on. `clock_gettime` computes the
monotonic time from the count of ticks, which it reads once for the seconds and once more for the
nanoseconds. Ticks come between any two steps of the calls.
-/

namespace Hcrtos.Native.PortTick

/-- `CONFIG_TIMER_CLOCK_HZ`. -/
def configTIMER_RATE_HZ : UInt32 := 27000000 / 16

/-- The registers of the tick timer. -/
structure Timer where
  cnt : UInt32
  aim : UInt32
  int_st : Bool

def xTickNewCompareVal (compare count xJiffies : UInt32) : UInt32 :=
  let compare :=
    if count - compare > xJiffies then count + (xJiffies - (count - compare) % xJiffies)
    else compare + xJiffies
  -- too close to the counter: one more period
  if compare - count < xJiffies / 16 then compare + xJiffies else compare

/-- Milliseconds as counts of the timer. -/
def jiffies (ms : UInt32) : UInt32 := ms * (configTIMER_RATE_HZ / 1000)

def prvSetNextTick (t : Timer) (ms : UInt32) : Timer :=
  { t with aim := xTickNewCompareVal t.aim t.cnt (jiffies ms) }

/-- `struct timespec`. -/
structure Timespec where
  tv_sec : UInt32
  tv_nsec : UInt32

/-- The order of the pairs. -/
def Timespec.NotAfter (a b : Timespec) : Prop :=
  a.tv_sec < b.tv_sec ∨ a.tv_sec = b.tv_sec ∧ a.tv_nsec ≤ b.tv_nsec

instance (a b : Timespec) : Decidable (a.NotAfter b) := inferInstanceAs (Decidable (_ ∨ _))

/-- The timer, the count of ticks, and the seconds of a call of `clock_gettime` under way. As
    history, the results of the calls. -/
structure State where
  timer : Timer
  xTickCount : UInt32
  tv_sec : Option UInt32
  log : List Timespec

def init (timer : Timer) (xTickCount : UInt32) : State := ⟨timer, xTickCount, none, []⟩

/-- A step of the timer or of a call. -/
inductive Action where
  /-- The counter goes on to `cnt`; the timer may fire on the way. -/
  | count (cnt : UInt32) (fires : Bool)
  | interrupt
  /-- `clock_gettime` is called and reads the seconds. -/
  | load
  /-- It reads the nanoseconds and returns. -/
  | finish

section Clock

variable (portTICK_PERIOD_MS : UInt32)

/-- The seconds of `clock_gettime`. -/
def seconds (xTickCount : UInt32) : UInt32 := xTickCount / portTICK_PERIOD_MS / 1000

/-- Its nanoseconds. -/
def nanoseconds (xTickCount : UInt32) : UInt32 :=
  xTickCount / portTICK_PERIOD_MS % 1000 * 1000000

def vPortIncrementTick (s : State) : State := { s with xTickCount := s.xTickCount + 1 }

def vPortTickInterruptHandler (s : State) : State :=
  if s.timer.int_st then
    let s := vPortIncrementTick s
    { s with timer := prvSetNextTick { s.timer with int_st := false } portTICK_PERIOD_MS }
  else s

/-- The step function. -/
def step (s : State) : Action → Option State
  | .count cnt fires =>
    some { s with timer := { s.timer with cnt := cnt, int_st := s.timer.int_st || fires } }
  | .interrupt => some (vPortTickInterruptHandler portTICK_PERIOD_MS s)
  | .load =>
    if s.tv_sec = none then
      some { s with tv_sec := some (seconds portTICK_PERIOD_MS s.xTickCount) }
    else none
  | .finish =>
    s.tv_sec.map fun tv_sec =>
      { s with
        tv_sec := none
        log := s.log ++ [⟨tv_sec, nanoseconds portTICK_PERIOD_MS s.xTickCount⟩] }

/-- No call returned a time before that of an earlier call. -/
def Monotone (s : State) : Prop := s.log.Pairwise Timespec.NotAfter

instance (s : State) : Decidable (Monotone s) := inferInstanceAs (Decidable (List.Pairwise _ _))

/-- The count of ticks does not wrap, and a call ends in the second that it has read. -/
def SameSecond (s : State) : Action → Prop
  | .interrupt => s.timer.int_st = true → s.xTickCount.toNat + 1 < 2 ^ 32
  | .finish => ∀ tv_sec ∈ s.tv_sec, seconds portTICK_PERIOD_MS s.xTickCount = tv_sec
  | _ => True

end Clock

end Hcrtos.Native.PortTick
