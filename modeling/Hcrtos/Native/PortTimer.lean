import Mathlib.Algebra.Ring.Nat
import Mathlib.Data.List.Basic
import Mathlib.Algebra.Ring.Int.Defs
import Hcrtos.ForStd.Lts

/-!
# The system clock

`port_timer.c`: a free-running counter of 32 bits, its overflow flag, and the high word that the
handler of the overflow counts. A reading loads the low word from the counter, then the high word
from memory. The counter counts between any two steps of readings and handler, any number of
tasks may read, and an overflow may stay pending.
-/

namespace Hcrtos.Native.PortTimer

/-- `tick2usec`, in 64 bits. -/
def tick2usec (tick : Nat) : Nat := tick * 32 % 2 ^ 64 / 27

/-- The two functions that read the clock. -/
inductive Get where
  /-- `vPortPlatformTimeGet`. -/
  | platformTime
  /-- `uxPortTimerHrTickGet`. -/
  | hrTick

/-- `vPortPlatformTimeGet`: the seconds and the microseconds. -/
def vPortPlatformTimeGet (gTickHi ticklo : UInt32) : Nat × Nat :=
  let tmp_usec := tick2usec (gTickHi.toNat * 2 ^ 32 + ticklo.toNat)
  (tmp_usec / 1000000, tmp_usec % 1000000)

/-- `uxPortTimerHrTickGet`. -/
def uxPortTimerHrTickGet (gTickHi ticklo : UInt32) : Nat :=
  tick2usec (gTickHi.toNat * 2 ^ 32 + ticklo.toNat)

/-- The time that a function returns, in microseconds. -/
def Get.usec : Get → UInt32 → UInt32 → Nat
  | .platformTime, gTickHi, ticklo =>
    let (sec, usec) := vPortPlatformTimeGet gTickHi ticklo
    sec * 1000000 + usec
  | .hrTick, gTickHi, ticklo => uxPortTimerHrTickGet gTickHi ticklo

/-- Where `PortSysClkTimerIntHandler` is. -/
inductive Handler where
  | idle
  /-- Before `gHrTmr->cnt.val = 0`. -/
  | resetCnt
  /-- Before `gTickHi++`. -/
  | countHi
  /-- Before `gHrTmr->ctrl.overflow = 1`, which clears the flag. -/
  | clear
  deriving DecidableEq

/-- A reading that has loaded the low word. As history, the largest result of the readings that
    were complete by then. -/
structure Reading where
  get : Get
  ticklo : UInt32
  floor : Nat

/-- The timer, the handler and the readings under way. As history, for each complete reading the
    largest result before it and its own. -/
structure State where
  cnt : UInt32
  overflow : Bool
  gTickHi : UInt32
  handler : Handler
  readings : List Reading
  log : List (Nat × Nat)

/-- After the clock was set. -/
def init (gTickHi cnt : UInt32) : State := ⟨cnt, false, gTickHi, .idle, [], []⟩

/-- The largest result so far. -/
def State.latest (s : State) : Nat := (s.log.map Prod.snd).foldl max 0

/-- A step of the timer, of the handler or of a reading. -/
inductive Action where
  | tick
  | handler
  /-- A function is called and loads the low word. -/
  | load (get : Get)
  /-- The `i`-th reading under way loads the high word and returns. -/
  | finish (i : Nat)

/-- The next step of `PortSysClkTimerIntHandler`. -/
def PortSysClkTimerIntHandler (s : State) : State :=
  match s.handler with
  | .idle => if s.overflow then { s with handler := .resetCnt } else s
  | .resetCnt => { s with cnt := 0, handler := .countHi }
  | .countHi => { s with gTickHi := s.gTickHi + 1, handler := .clear }
  | .clear => { s with overflow := false, handler := .idle }

/-- The step function. -/
def step (s : State) : Action → Option State
  | .tick => some { s with cnt := s.cnt + 1, overflow := s.overflow || s.cnt + 1 = 0 }
  | .handler => some (PortSysClkTimerIntHandler s)
  | .load get => some { s with readings := s.readings ++ [⟨get, s.cnt, s.latest⟩] }
  | .finish i =>
    match s.readings[i]? with
    | none => none
    | some r =>
      some { s with
        readings := s.readings.eraseIdx i
        log := s.log ++ [(r.floor, r.get.usec s.gTickHi r.ticklo)] }

/-- No reading was smaller than one that was complete when it began. -/
def Monotone (s : State) : Prop := ∀ e ∈ s.log, e.1 ≤ e.2

instance (s : State) : Decidable (Monotone s) := inferInstanceAs (Decidable (∀ e ∈ _, _))

/-- No reading begins while an overflow is pending, and the handler does not count while one is
    under way. The product of `tick2usec` has 64 bits, and the high word has 32. -/
def Settled (s : State) : Action → Prop
  | .tick => True
  | .handler => s.handler = .countHi → s.readings = [] ∧ s.gTickHi.toNat + 1 < 2 ^ 32
  | .load _ => s.overflow = false
  | .finish _ => s.gTickHi.toNat < 2 ^ 27

instance (s : State) : (a : Action) → Decidable (Settled s a)
  | .tick => inferInstanceAs (Decidable True)
  | .handler => inferInstanceAs (Decidable (_ → _))
  | .load _ => inferInstanceAs (Decidable (_ = _))
  | .finish _ => inferInstanceAs (Decidable (_ < _))

end Hcrtos.Native.PortTimer

/-! ## Setting the system clock

`port_timer.c`, `vPortPlatformTimeSet`: the timer and its interrupt are disabled, both words of
the time are written, the timer and its interrupt are enabled again, and a pending overflow is
cleared. The handler of the overflow runs as a whole between two of these steps, whenever the
interrupt is enabled. The time that is set is that of the counter value written, so the counter
does not count.
-/

namespace Hcrtos.Native.PortTimeSet

open PortTimer (tick2usec vPortPlatformTimeGet)

/-- `usec2tick`, in 64 bits. -/
def usec2tick (usec : Nat) : Nat := usec * 27 % 2 ^ 64 / 32

/-- `(uint64_t)sec * 1000000 + (uint64_t)usec`. -/
def toUsec (sec usec : Int) : Nat := ((sec * 1000000 + usec) % 2 ^ 64).toNat

/-- `tmp_tick`, and its two words. -/
def tmp_tick (sec usec : Int) : Nat := usec2tick (toUsec sec usec)
def tickhi (sec usec : Int) : UInt32 := UInt32.ofNat (tmp_tick sec usec / 2 ^ 32)
def ticklo (sec usec : Int) : UInt32 := UInt32.ofNat (tmp_tick sec usec % 2 ^ 32)

/-- Where `vPortPlatformTimeSet` is: before the store of that name. -/
inductive Pc where
  | disableTimer
  | disableInt
  | setHi
  | setCnt
  | enableTimer
  | enableInt
  | clearOverflow
  | done
  deriving DecidableEq

/-- The timer and the call. -/
structure State where
  cnt : UInt32
  overflow : Bool
  en : Bool
  int_en : Bool
  gTickHi : UInt32
  pc : Pc

/-- The call begins on any timer. -/
def start (cnt : UInt32) (overflow en int_en : Bool) (gTickHi : UInt32) : State :=
  ⟨cnt, overflow, en, int_en, gTickHi, .disableTimer⟩

/-- A step of the call, or the interrupt. -/
inductive Action where
  | set
  | interrupt

def PortSysClkTimerIntHandler (s : State) : State :=
  if s.overflow then { s with cnt := 0, gTickHi := s.gTickHi + 1, overflow := false } else s

section Set

variable (sec usec : Int)

/-- The next step of `vPortPlatformTimeSet`. -/
def vPortPlatformTimeSet (s : State) : Option State :=
  match s.pc with
  | .disableTimer => some { s with en := false, pc := .disableInt }
  | .disableInt => some { s with int_en := false, pc := .setHi }
  | .setHi => some { s with gTickHi := tickhi sec usec, pc := .setCnt }
  | .setCnt => some { s with cnt := ticklo sec usec, pc := .enableTimer }
  | .enableTimer => some { s with en := true, pc := .enableInt }
  | .enableInt => some { s with int_en := true, pc := .clearOverflow }
  | .clearOverflow => some { s with overflow := false, pc := .done }
  | .done => none

/-- The step function. -/
def step (s : State) : Action → Option State
  | .set => vPortPlatformTimeSet sec usec s
  | .interrupt => if s.int_en then some (PortSysClkTimerIntHandler s) else none

/-- The time that `vPortPlatformTimeGet` computes, in microseconds. -/
def State.time (s : State) : Nat :=
  let (sec, usec) := vPortPlatformTimeGet s.gTickHi s.cnt
  sec * 1000000 + usec

/-- The counter is at the value set, and its time is the one asked for, or less by at most two
    microseconds. -/
def TakesEffect (s : State) : Prop :=
  s.cnt = ticklo sec usec ∧ (s.time : Int) ≤ sec * 1000000 + usec ∧
    sec * 1000000 + usec ≤ s.time + 2

instance (s : State) : Decidable (TakesEffect sec usec s) := inferInstanceAs (Decidable (_ ∧ _))

end Set

/-- No interrupt finds an overflow pending when it is enabled again. -/
def ClearsFirst (s : State) : Action → Prop
  | .set => True
  | .interrupt => s.pc = .clearOverflow → s.overflow = false

instance (s : State) : (a : Action) → Decidable (ClearsFirst s a)
  | .set => inferInstanceAs (Decidable True)
  | .interrupt => inferInstanceAs (Decidable (_ → _))

end Hcrtos.Native.PortTimeSet
