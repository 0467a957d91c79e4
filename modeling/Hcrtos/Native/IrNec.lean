import Mathlib.Data.BitVec

/-!
# The NEC infrared decoder

`drivers/input/rc/ir-nec-decoder.c`, with `ir_nec_bytes_to_scancode` of `rc-core.h` and the margins
of `rc-core-priv.h`. The decoder is given one pulse or space after the other, with its duration in
microseconds, and calls `rc_keydown` and `rc_repeat`. The texts of `dev_dbg` are left out.
-/

namespace Hcrtos.Native.Rc

def EINVAL : Int := 22

/-- `enum rc_proto`. -/
inductive RcProto where
  | UNKNOWN | OTHER | RC5 | RC5X_20 | RC5_SZ | JVC | SONY12 | SONY15 | SONY20 | NEC | NECX | NEC32
  | SANYO | MCIR2_KBD | MCIR2_MSE | RC6_0 | RC6_6A_20 | RC6_6A_24 | RC6_6A_32 | RC6_MCE | SHARP
  | XMP | CEC | IMON | RCMM12 | RCMM24 | RCMM32 | XBOX_DVD
  deriving DecidableEq

/-- `struct ir_raw_event`. The duration of a report on the carrier is its frequency. -/
structure RawEvent where
  duration : BitVec 32
  pulse : Bool
  reset : Bool
  timeout : Bool
  carrier_report : Bool

namespace RawEvent

/-- `(struct ir_raw_event) {}`. -/
def zero : RawEvent := ⟨0, false, false, false, false⟩

def is_timing_event (ev : RawEvent) : Bool := !ev.carrier_report && !ev.reset

end RawEvent

def geq_margin (d1 d2 margin : BitVec 32) : Bool := decide (d1 > d2 - margin)

def eq_margin (d1 d2 margin : BitVec 32) : Bool :=
  decide (d1 > d2 - margin) && decide (d1 < d2 + margin)

/-- `bitrev8`. -/
def bitrev8 (x : BitVec 8) : BitVec 8 := x.reverse

/-- `ir_nec_bytes_to_scancode`. -/
def ir_nec_bytes_to_scancode (address not_address command not_command : BitVec 8) :
    RcProto × BitVec 32 :=
  if command ^^^ not_command ≠ 0xff then
    (.NEC32, not_address.setWidth 32 <<< 24 ||| address.setWidth 32 <<< 16 |||
      not_command.setWidth 32 <<< 8 ||| command.setWidth 32)
  else if address ^^^ not_address ≠ 0xff then
    (.NECX, address.setWidth 32 <<< 16 ||| not_address.setWidth 32 <<< 8 ||| command.setWidth 32)
  else (.NEC, address.setWidth 32 <<< 8 ||| command.setWidth 32)

namespace Nec

def NBITS : Nat := 32
def UNIT : BitVec 32 := 563
def HEADER_PULSE : BitVec 32 := 16 * UNIT
/-- `NECX_HEADER_PULSE`. -/
def X_HEADER_PULSE : BitVec 32 := 8 * UNIT
def HEADER_SPACE : BitVec 32 := 8 * UNIT
def REPEAT_SPACE : BitVec 32 := 4 * UNIT
def BIT_PULSE : BitVec 32 := 1 * UNIT
def BIT_0_SPACE : BitVec 32 := 1 * UNIT
def BIT_1_SPACE : BitVec 32 := 3 * UNIT
def TRAILER_PULSE : BitVec 32 := 1 * UNIT
def TRAILER_SPACE : BitVec 32 := 10 * UNIT
/-- `NECX_REPEAT_BITS`. -/
def X_REPEAT_BITS : Nat := 1

/-- `enum nec_state`. -/
inductive State where
  | INACTIVE | HEADER_SPACE | BIT_PULSE | BIT_SPACE | TRAILER_PULSE | TRAILER_SPACE

/-- `struct nec_dec`. -/
structure Dec where
  state : State
  count : Nat
  bits : BitVec 32
  is_nec_x : Bool
  necx_repeat : Bool

/-- The decoder of a zeroed `struct ir_raw_event_ctrl`. -/
def init : Dec := ⟨.INACTIVE, 0, 0, false, false⟩

/-- What the decoder calls. -/
inductive Call where
  | rc_keydown (protocol : RcProto) (scancode : BitVec 32) (toggle : BitVec 8)
  | rc_repeat

/-- The decoder gives up, with its state as far as the step has changed it. -/
def fail (data : Dec) : Dec × Option Call × Int := ({ data with state := .INACTIVE }, none, -EINVAL)

/-- The decoder goes on. -/
def next (data : Dec) (state : State) : Dec × Option Call × Int :=
  ({ data with state := state }, none, 0)

/-- The decoder has taken a message. -/
def done (data : Dec) (call : Call) : Dec × Option Call × Int :=
  ({ data with state := .INACTIVE }, some call, 0)

/-- The scancode of `bits`. -/
def scancode (bits : BitVec 32) : RcProto × BitVec 32 :=
  let address := bitrev8 ((bits >>> 24).setWidth 8)
  let not_address := bitrev8 ((bits >>> 16).setWidth 8)
  let command := bitrev8 ((bits >>> 8).setWidth 8)
  let not_command := bitrev8 ((bits >>> 0).setWidth 8)
  ir_nec_bytes_to_scancode address not_address command not_command

/-- `ir_nec_decode`, with the call it makes and the value it returns. -/
def ir_nec_decode (data : Dec) (ev : RawEvent) : Dec × Option Call × Int :=
  if ev.is_timing_event = false then
    (if ev.reset then { data with state := .INACTIVE } else data, none, 0)
  else
    match data.state with
    | .INACTIVE =>
      if ev.pulse = false then fail data
      else if eq_margin ev.duration HEADER_PULSE (UNIT * 2) then
        next { data with is_nec_x := false, necx_repeat := false, count := 0 } .HEADER_SPACE
      else if eq_margin ev.duration X_HEADER_PULSE (UNIT / 2) then
        next { data with is_nec_x := true, count := 0 } .HEADER_SPACE
      else fail data
    | .HEADER_SPACE =>
      if ev.pulse then fail data
      else if eq_margin ev.duration HEADER_SPACE UNIT then next data .BIT_PULSE
      else if eq_margin ev.duration REPEAT_SPACE (UNIT / 2) then next data .TRAILER_PULSE
      else fail data
    | .BIT_PULSE =>
      if ev.pulse = false then fail data
      else if eq_margin ev.duration BIT_PULSE (UNIT / 2) = false then fail data
      else next data .BIT_SPACE
    | .BIT_SPACE =>
      if ev.pulse then fail data
      else if data.necx_repeat ∧ data.count = X_REPEAT_BITS ∧
          geq_margin ev.duration TRAILER_SPACE (UNIT / 2) then done data .rc_repeat
      else
        let necx_repeat := if data.count > X_REPEAT_BITS then false else data.necx_repeat
        let bits := data.bits <<< 1
        let state := if data.count + 1 = NBITS then State.TRAILER_PULSE else .BIT_PULSE
        if eq_margin ev.duration BIT_1_SPACE (UNIT / 2) then
          next { data with necx_repeat, bits := bits ||| 1, count := data.count + 1 } state
        else if eq_margin ev.duration BIT_0_SPACE (UNIT / 2) then
          next { data with necx_repeat, bits, count := data.count + 1 } state
        else fail { data with necx_repeat, bits }
    | .TRAILER_PULSE =>
      if ev.pulse = false then fail data
      else if eq_margin ev.duration TRAILER_PULSE (UNIT / 2) = false then fail data
      else next data .TRAILER_SPACE
    | .TRAILER_SPACE =>
      if ev.pulse then fail data
      else if geq_margin ev.duration TRAILER_SPACE (UNIT / 2) = false then fail data
      else if data.count = NBITS then
        done { data with necx_repeat := if data.is_nec_x then true else data.necx_repeat }
          (.rc_keydown (scancode data.bits).1 (scancode data.bits).2 0)
      else done data .rc_repeat

/-- `ir_nec_scancode_to_raw`. -/
def ir_nec_scancode_to_raw (protocol : RcProto) (scancode : BitVec 32) : BitVec 32 :=
  let data := scancode &&& 0xff
  if protocol = .NEC32 then
    let addr_inv := scancode >>> 24 &&& 0xff
    let addr := scancode >>> 16 &&& 0xff
    let data_inv := scancode >>> 8 &&& 0xff
    data_inv <<< 24 ||| data <<< 16 ||| addr_inv <<< 8 ||| addr
  else if protocol = .NECX then
    let addr := scancode >>> 16 &&& 0xff
    let addr_inv := scancode >>> 8 &&& 0xff
    let data_inv := data ^^^ 0xff
    data_inv <<< 24 ||| data <<< 16 ||| addr_inv <<< 8 ||| addr
  else
    let addr := scancode >>> 8 &&& 0xff
    let addr_inv := addr ^^^ 0xff
    let data_inv := data ^^^ 0xff
    data_inv <<< 24 ||| data <<< 16 ||| addr_inv <<< 8 ||| addr

end Nec

end Hcrtos.Native.Rc
