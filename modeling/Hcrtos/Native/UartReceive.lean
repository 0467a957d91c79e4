import Mathlib.Data.List.Basic
import Mathlib.Logic.Function.Basic
import Hcrtos.ForStd.Lts
import Hcrtos.ForStd.Ring

/-!
# Receiving on a UART

`uart.c`: `sci_isr` moves received bytes from the FIFO of the controller into the ring `rx_buf`,
and `sci_read` takes them out. The interrupt handler goes one byte at a time, so that bytes
arrive while it runs; the reader goes one access of the ring at a time, so that the handler runs
between any two of them. Tasks stand still while the handler runs. The port has one reader, which
therefore finds `rlock` free.
-/

namespace Hcrtos.Native.UartReceive

def CONFIG_UART_RX_BUF_SIZE : Nat := 1024
def IIR_PRIOR : UInt8 := 0x06

/-- Where `sci_isr` is. -/
inductive Isr where
  | idle
  /-- Before `istatus = dev->reg->uiir.val & 0xf`. -/
  | status
  /-- In the loop of the priority interrupt, which runs while data is ready. -/
  | prior
  /-- In the loop of the character timeout. -/
  | timeout
  /-- In the loop of the received data, which leaves one byte in the FIFO. -/
  | available
  deriving DecidableEq

/-- Where `sci_16550uart_read` is; `loop` is the head of the loop of `sci_read` around it. -/
inductive Stage where
  | loop
  /-- Before `received = !(dev->rx_wt == dev->rx_rd)`. -/
  | check (cnt : Nat)
  /-- In `msleep(1)`. -/
  | asleep (cnt : Nat)
  /-- Before `*p_ch = dev->rx_buf[dev->rx_rd++]`. -/
  | fetch
  /-- Before `dev->rx_rd %= CONFIG_UART_RX_BUF_SIZE`. -/
  | wrap
  deriving DecidableEq

/-- A call of `sci_read` with `buflen = buffer.length`. -/
structure Call where
  buffer : List UInt8
  index : Nat
  stage : Stage
  deriving DecidableEq

/-- The ring, the FIFO of the controller, the handler and the reader. As history, the bytes that
    entered the FIFO, those that the returned calls of `sci_read` reported, and how many went into
    the ring and out of it. -/
structure State where
  rx_buf : Nat → UInt8
  rx_wt : Nat
  rx_rd : Nat
  fifo : List UInt8
  isr : Isr
  call : Option Call
  received : List UInt8
  returned : List UInt8
  stored : Nat
  fetched : Nat

/-- An open port. -/
def init : State := ⟨fun _ => 0, 0, 0, [], .idle, none, [], [], 0, 0⟩

/-- `dev->rx_buf[dev->rx_wt++] = dev->reg->urbr_utbr.val; dev->rx_wt %= ...`. -/
def storeByte (s : State) (byte : UInt8) (fifo : List UInt8) : State :=
  { s with
    rx_buf := Function.update s.rx_buf s.rx_wt byte
    rx_wt := (s.rx_wt + 1) % CONFIG_UART_RX_BUF_SIZE
    fifo := fifo
    stored := s.stored + 1 }

/-- The loop of `sci_isr` that a status leads to. -/
def Isr.ofStatus (istatus : UInt8) : Isr :=
  if istatus &&& 1 ≠ 0 then .idle
  else if istatus = IIR_PRIOR then .prior
  else if istatus = 0x0c then .timeout
  else if istatus = 0x04 then .available
  else .status

/-- The next step of `sci_isr`; `uiir` and `dr` are what the registers hold. Data that is ready is
    in the FIFO. -/
def sci_isr (s : State) (uiir : UInt8) (dr : Bool) : Option State :=
  match s.isr with
  | .idle => none
  | .status => some { s with isr := .ofStatus (uiir &&& 0xf) }
  | .prior =>
    match dr, s.fifo with
    | true, byte :: fifo => some (storeByte s byte fifo)
    | true, [] => none
    | false, _ => some { s with isr := .status }
  | .timeout =>
    match s.fifo with
    | byte :: fifo => some (storeByte s byte fifo)
    | [] => some { s with isr := .status }
  | .available =>
    match s.fifo with
    | byte :: next :: fifo => some (storeByte s byte (next :: fifo))
    | _ => some { s with isr := .status }

/-- `sci_read` returns `index`. -/
def ret (s : State) (c : Call) (index : Nat) : State :=
  { s with call := none, returned := s.returned ++ c.buffer.take index }

/-- The next step of the reader. -/
def sci_read (s : State) (c : Call) : State :=
  match c.stage with
  | .loop =>
    if c.index < c.buffer.length then { s with call := some { c with stage := .check 0 } }
    else ret s c c.index
  | .check cnt =>
    if s.rx_wt = s.rx_rd then { s with call := some { c with stage := .asleep cnt } }
    else { s with call := some { c with stage := .fetch } }
  | .asleep cnt =>
    if cnt > 100 then
      -- sci_16550uart_read returns false
      if c.buffer.length = 1 then
        { s with call := some { c with index := c.index + 1, stage := .loop } }
      else ret s c c.index
    else { s with call := some { c with stage := .check (cnt + 1) } }
  | .fetch =>
    let buffer := c.buffer.set c.index (s.rx_buf s.rx_rd)
    { s with
      rx_rd := s.rx_rd + 1
      fetched := s.fetched + 1
      call := some { c with buffer := buffer, stage := .wrap } }
  | .wrap =>
    { s with
      rx_rd := s.rx_rd % CONFIG_UART_RX_BUF_SIZE
      call := some { c with index := c.index + 1, stage := .loop } }

/-- A step of the controller, of the handler or of the reader. -/
inductive Action where
  /-- A byte enters the FIFO. -/
  | receive (byte : UInt8)
  /-- The interrupt is taken. -/
  | interrupt
  | isr (uiir : UInt8) (dr : Bool)
  /-- `sci_read` is called. -/
  | read (buffer : List UInt8)
  | task
  deriving DecidableEq

/-- The step function. -/
def step (s : State) : Action → Option State
  | .receive byte => some { s with fifo := s.fifo ++ [byte], received := s.received ++ [byte] }
  | .interrupt => if s.isr = .idle then some { s with isr := .status } else none
  | .isr uiir dr => sci_isr s uiir dr
  | .read buffer =>
    if s.isr = .idle ∧ s.call = none then some { s with call := some ⟨buffer, 0, .loop⟩ }
    else none
  | .task =>
    match s.isr, s.call with
    | .idle, some c => some (sci_read s c)
    | _, _ => none

/-- The number of bytes in the ring that were not read yet. -/
def State.unread (s : State) : Nat := s.stored - s.fetched

/-- What the call has obtained so far. -/
def Call.obtained (c : Call) : List UInt8 :=
  c.buffer.take (if c.stage = .wrap then c.index + 1 else c.index)

/-- The bytes that the reader obtained. -/
def State.obtained (s : State) : List UInt8 := s.returned ++ s.call.elim [] Call.obtained

/-- The bytes in the ring and in the FIFO. -/
def State.waiting (s : State) : List UInt8 :=
  Ring.contents s.rx_buf CONFIG_UART_RX_BUF_SIZE s.rx_rd s.unread ++ s.fifo

/-- The reader obtained the received bytes in their order, and the others wait for it. -/
def Exact (s : State) : Prop := s.obtained ++ s.waiting = s.received

instance (s : State) : Decidable (Exact s) := inferInstanceAs (Decidable (_ = _))

/-- The ring has not overflowed. -/
def Fits (s : State) : Prop := s.unread < CONFIG_UART_RX_BUF_SIZE

instance (s : State) : Decidable (Fits s) := inferInstanceAs (Decidable (_ < _))

/-- No `sci_read` of one byte gives up waiting: its check finds a byte when `cnt` is 101. -/
def NoGiveUp (s : State) : Action → Prop
  | .task => ∀ c ∈ s.call, ∀ cnt > 100, s.isr = .idle → c.stage = .asleep cnt → c.buffer.length ≠ 1
  | _ => True

end Hcrtos.Native.UartReceive
