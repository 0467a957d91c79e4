import Mathlib.Data.List.Basic
import Hcrtos.ForStd.Loop

/-!
# Transmitting on a UART

The three loops of `uart.c` behind `sci_write`: `sci_16550uart_write_bytes` and
`sci_16550uart_write_bytes_from_isr` fill the FIFO of the controller and wait until it is empty,
and `sci_16550uart_gpio_tx_write_bytes` sends the bits over a pin. A wait for the controller ends
when the FIFO has run empty, however often it is polled. `bytes` is the value of an `int32_t`, and
an access outside of the buffer gives `none`.
-/

namespace Hcrtos.Native.UartTransmit

open Loop

def STDOUT_FILENO : Int := 1
def STDERR_FILENO : Int := 2
def FIFO_MAX : Nat := 16

/-- `ins->fd == STDOUT_FILENO || ins->fd == STDERR_FILENO`. -/
def console (fd : Int) : Bool := fd = STDOUT_FILENO || fd = STDERR_FILENO

/-- The variables of the loops, the bytes written to `urbr_utbr` since the last wait, and those of
    the earlier bursts. -/
structure Sending where
  sent : Nat
  add_cr : Bool
  fifo : Nat
  burst : List UInt8
  bursts : List (List UInt8)

section

variable (fd : Int) (buf : List UInt8) (bytes : Int)

/-- `dev->reg->urbr_utbr.val = ch` and the rest of the body of the inner loop. -/
def sendChar (ch : UInt8) (s : Sending) : Option Sending ⊕ Sending :=
  let s := { s with
    burst := s.burst ++ [ch]
    fifo := s.fifo + 1
    sent := s.sent + 1
    add_cr := true }
  if s.fifo < FIFO_MAX ∧ (s.sent : Int) < bytes then .inr s else .inl (some s)

/-- The body of the inner loop. -/
def fillFifo (s : Sending) : Option Sending ⊕ Sending :=
  match buf[s.sent]? with
  | none => .inl none
  | some ch =>
    if console fd ∧ ch = 10 ∧ s.add_cr then
      let s := { s with burst := s.burst ++ [13], fifo := s.fifo + 1 }
      if s.fifo = FIFO_MAX then .inl (some { s with add_cr := false })
      else sendChar bytes ch s
    else sendChar bytes ch s

/-- The body of the outer loop: the FIFO is filled, and the wait for it ends. -/
def sendBurst (s : Sending) : Option (List (List UInt8)) ⊕ Sending :=
  match (loop (fillFifo fd buf bytes) (FIFO_MAX + 1) { s with fifo := 0, burst := [] }).join with
  | none => .inl none
  | some s =>
    let s := { s with bursts := s.bursts ++ [s.burst] }
    if (s.sent : Int) < bytes then .inr s else .inl (some s.bursts)

end

/-- `sci_16550uart_write_bytes` with a non-NULL buffer: the bursts between its waits. -/
def sci_16550uart_write_bytes (fuel : Nat) (fd : Int) (buf : List UInt8) (bytes : Int) :
    Option (List (List UInt8)) :=
  if bytes = 0 then some []
  else (loop (sendBurst fd buf bytes) fuel ⟨0, true, 0, [], []⟩).join

/-- `sci_16550uart_write_bytes_from_isr`; nothing is written before its first wait. -/
def sci_16550uart_write_bytes_from_isr (fuel : Nat) (fd : Int) (buf : List UInt8) (bytes : Int) :
    Option (List (List UInt8)) :=
  if bytes = 0 then some []
  else (loop (sendBurst fd buf bytes) fuel ⟨0, true, 0, [], [[]]⟩).join

/-! ### The bit-banged path -/

/-- The data bits of a byte: the loop over `cnt` with `val >>= 1`. -/
def dataBits : Nat → UInt8 → List Bool
  | 0, _ => []
  | cnt + 1, val => decide (val &&& 1 ≠ 0) :: dataBits cnt (val >>> 1)

/-- `sci_16550uart_gpio_tx_send_byte`: the levels of the pin, each for one `TX_SAMPLE_TICK`. -/
def sci_16550uart_gpio_tx_send_byte (val : UInt8) : List Bool :=
  false :: dataBits 8 val ++ [true]

/-- The body of the loop of `sci_16550uart_gpio_tx_write_bytes` at `buf` with the count `cnt` and
    the levels so far. -/
def gpioSend (fd : Int) (bytes : Int) :
    List UInt8 × Nat × List Bool → Option (List Bool) ⊕ (List UInt8 × Nat × List Bool)
  | ([], _, _) => .inl none
  | (ch :: buf, cnt, levels) =>
    let levels :=
      if console fd ∧ ch = 10 then levels ++ sci_16550uart_gpio_tx_send_byte 13 else levels
    let levels := levels ++ sci_16550uart_gpio_tx_send_byte ch
    if ((cnt + 1 : Nat) : Int) < bytes then .inr (buf, cnt + 1, levels) else .inl (some levels)

/-- `sci_16550uart_gpio_tx_write_bytes` with a non-NULL buffer: the levels of the pin. -/
def sci_16550uart_gpio_tx_write_bytes (fuel : Nat) (fd : Int) (buf : List UInt8) (bytes : Int) :
    Option (List Bool) :=
  if bytes = 0 then some []
  else (loop (gpioSend fd bytes) fuel (buf, 0, [])).join

/-! ### What arrives -/

/-- The byte sequence that a write asks for: on a console a CR goes before each LF. -/
def expand (fd : Int) (buf : List UInt8) : List UInt8 :=
  if console fd then buf.flatMap fun b => if b = 10 then [13, 10] else [b] else buf

/-- The byte of the data bits of a frame, lowest bit first. -/
def byteOf (bits : List Bool) : UInt8 :=
  bits.foldr (fun bit byte => byte <<< 1 ||| if bit then 1 else 0) 0

/-- A receiver of frames with one start bit, eight data bits and one stop bit on a line that is
    high between frames; `none` for a framing error. -/
def receive : List Bool → Option (List UInt8)
  | [] => some []
  | true :: levels => receive levels
  | false :: b₀ :: b₁ :: b₂ :: b₃ :: b₄ :: b₅ :: b₆ :: b₇ :: true :: levels =>
    (receive levels).map (byteOf [b₀, b₁, b₂, b₃, b₄, b₅, b₆, b₇] :: ·)
  | false :: _ => none

end Hcrtos.Native.UartTransmit
