import Mathlib.Algebra.Ring.Nat
import Mathlib.Logic.Function.Basic
import Hcrtos.ForStd.Lts

/-!
# The PWM

`hc-pwm.c`: six channels with an enable bit, a polarity and two counters each, and one clock
divider for all of them. `hc_pwm_start` is a routine of its own on each SoC. The fields of the
registers have the widths of `pwm_reg_struct.h`.
-/

namespace Hcrtos.Native.Pwm

/-- The fields of one channel. -/
structure Channel where
  channel_en : Bool
  polarity : Bool
  low_level_counter : BitVec 16
  high_level_counter : BitVec 16

/-- `pwm_reg_t`. -/
structure PwmReg where
  pwm_clksel : BitVec 14
  channel : Fin 6 → Channel

/-- `struct pwm_info_s`. -/
structure PwmInfo where
  period_ns : UInt32
  duty_ns : UInt32
  polarity : Bool

/-- A write to fields of one channel. -/
def PwmReg.modify (reg : PwmReg) (id : Fin 6) (f : Channel → Channel) : PwmReg :=
  { reg with channel := Function.update reg.channel id (f (reg.channel id)) }

/-- The loop `while (1) { if ((div*37*65535) > period_ns) break; div++; }` from `div` on; `none`
    when `fuel` rounds do not end it. -/
def findDiv (period_ns : Nat) : Nat → Nat → Option Nat
  | 0, _ => none
  | fuel + 1, div =>
    if div * 37 * 65535 % 2 ^ 32 > period_ns then some div
    else findDiv period_ns fuel ((div + 1) % 2 ^ 32)

/-- The divider that the loop ends with. After 2^32 rounds it repeats itself. -/
def divider (info : PwmInfo) : Option Nat := findDiv info.period_ns.toNat (2 ^ 32) 1

/-- `if (duty_ns > period_ns) duty_ns = period_ns;`. -/
def PwmInfo.duty (info : PwmInfo) : Nat :=
  if info.duty_ns > info.period_ns then info.period_ns.toNat else info.duty_ns.toNat

/-- The counters that a start writes. -/
def PwmInfo.h_val (info : PwmInfo) (div : Nat) : Nat := info.duty / div / 37

def PwmInfo.l_val (info : PwmInfo) (div : Nat) : Nat :=
  (info.period_ns.toNat - info.duty) / div / 37

/-- `hc_pwm_start` of the HC16XX; `none` when its loop does not end. -/
def HC16XX.hc_pwm_start (reg : PwmReg) (id : Fin 6) (info : PwmInfo) : Option PwmReg :=
  if info.period_ns < 37 then some reg
  else
    (divider info).map fun div =>
      let reg := reg.modify id fun c => { c with channel_en := false }
      let reg := { reg with pwm_clksel := .ofNat 14 div }
      let reg := reg.modify id fun c => { c with
        polarity := info.polarity
        low_level_counter := .ofNat 16 (info.l_val div)
        high_level_counter := .ofNat 16 (info.h_val div) }
      reg.modify id fun c => { c with channel_en := true }

/-- `hc_pwm_start` of the HC15XX. -/
def HC15XX.hc_pwm_start (reg : PwmReg) (id : Fin 6) (info : PwmInfo) : Option PwmReg :=
  if info.period_ns < 37 then some reg
  else
    (divider info).map fun div =>
      let reg := reg.modify id fun c => { c with channel_en := false }
      let reg := { reg with pwm_clksel := .ofNat 14 div }
      let reg := reg.modify id fun c => { c with
        polarity := info.polarity
        low_level_counter := .ofNat 16 (info.l_val div)
        high_level_counter := .ofNat 16 (info.h_val div) }
      -- reg->divder_ctrl[0].channel_en = 0x01;
      let reg := reg.modify 0 fun c => { c with channel_en := true }
      reg.modify id fun c => { c with channel_en := true }

/-- `hc_pwm_stop` of both. -/
def hc_pwm_stop (reg : PwmReg) (id : Fin 6) : PwmReg :=
  reg.modify id fun c => { c with channel_en := false }

inductive Soc where
  | HC15XX
  | HC16XX
  deriving DecidableEq

def Soc.hc_pwm_start : Soc → PwmReg → Fin 6 → PwmInfo → Option PwmReg
  | .HC15XX => HC15XX.hc_pwm_start
  | .HC16XX => HC16XX.hc_pwm_start

/-- A call for channel `id`. -/
inductive Action where
  | start (id : Fin 6) (info : PwmInfo)
  | stop (id : Fin 6)

def Action.id : Action → Fin 6
  | .start id _ => id
  | .stop id => id

/-- The step function. -/
def step (soc : Soc) (reg : PwmReg) : Action → Option PwmReg
  | .start id info => soc.hc_pwm_start reg id info
  | .stop id => some (hc_pwm_stop reg id)

/-- What a channel puts out, with the times in ns. -/
structure Output where
  enabled : Bool
  polarity : Bool
  period : Nat
  high : Nat
  deriving DecidableEq

/-- The output of a channel: its counters run at a clock of 37 ns times the divider. -/
def PwmReg.output (reg : PwmReg) (id : Fin 6) : Output :=
  let c := reg.channel id
  { enabled := c.channel_en
    polarity := c.polarity
    period := (c.low_level_counter.toNat + c.high_level_counter.toNat) * reg.pwm_clksel.toNat * 37
    high := c.high_level_counter.toNat * reg.pwm_clksel.toNat * 37 }

/-- The call leaves the output of all other channels as it was. -/
def Independent (soc : Soc) (reg : PwmReg) (a : Action) : Prop :=
  ∀ reg', step soc reg a = some reg' → ∀ id, id ≠ a.id → reg'.output id = reg.output id

/-- The channel has no counter that a divider would scale. -/
def Channel.Unset (c : Channel) : Prop := c.low_level_counter = 0 ∧ c.high_level_counter = 0

instance (c : Channel) : Decidable c.Unset := inferInstanceAs (Decidable (_ ∧ _))

/-- A start needs the divider that is in force already, or finds the other channels unset. On the
    HC15XX, moreover, channel 0 is the one to start, or enabled already. -/
def Undisturbing (soc : Soc) (reg : PwmReg) : Action → Prop
  | .start id info =>
    37 ≤ info.period_ns → ∀ div, divider info = some div →
      (BitVec.ofNat 14 div = reg.pwm_clksel ∨ ∀ other, other ≠ id → (reg.channel other).Unset) ∧
        (soc = .HC15XX → id = 0 ∨ (reg.channel 0).channel_en = true)
  | .stop _ => True

end Hcrtos.Native.Pwm
