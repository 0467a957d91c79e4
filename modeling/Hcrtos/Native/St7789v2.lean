import Hcrtos.ForStd.Bits
import Hcrtos.ForStd.Lts

/-!
# Commands to the LCD panel

`drivers/lcd/display/st7789v2.c` with the parts of `pinmux.c`, `gpio.c` and `lcd_main.c` that it
uses: the panel takes a word from the data lines when WR rises while CS is low. The interrupt
handler of the vertical sync runs between two accesses of the task to the registers. The pads are
those of the table at the head of the source, which `lcd_write_data` has built in. Directions are
left out: `st7789v2_display_init` sets them before it installs the handler, and no one clears them.
-/

namespace Hcrtos.Native.St7789v2

open Bits

def PINPAD_MAX : Nat := 128
def PINPAD_T00 : Nat := 96
def PINPAD_T05 : Nat := 101

def lcd_cs_num : Nat := 10
def lcd_rs_num : Nat := 97
def lcd_wr_num : Nat := 7
def lcd_rd_num : Nat := 96
def lcd_reset_num : Nat := 1
def lcd_d_num : List Nat := [2, 3, 4, 5, 6, 105, 106, 107, 108, 109, 110, 98, 99, 100, 101, 102]

/-- The pads between the processor and the panel. -/
def busPads : List Nat := [lcd_cs_num, lcd_rs_num, lcd_wr_num, lcd_rd_num] ++ lcd_d_num

/-- A command with its parameters. -/
structure Frame where
  command : BitVec 8
  params : List (BitVec 16)
  deriving DecidableEq

/-- A word on the bus: RS is low for a command. -/
structure Word where
  rs : Bool
  data : BitVec 16
  deriving DecidableEq

def Frame.words (f : Frame) : List Word :=
  ⟨false, f.command.setWidth 16⟩ :: f.params.map (⟨true, ·⟩)

/-- How a word is changed before it is written back. -/
inductive Change where
  | set (bit : Nat)
  | clear (bit : Nat)
  | data (mask bits : BitVec 32)
  deriving DecidableEq

def Change.modify (word : BitVec 32) : Change → BitVec 32
  | .set bit => setBit word bit
  | .clear bit => clearBit word bit
  | .data mask bits => word &&& mask ||| bits

/-- The accesses to the registers. -/
inductive Access where
  /-- `pinmux_select_setting` writes the function of a pad. -/
  | mux (padctl : Nat) (muset : BitVec 8)
  /-- `gpio_configure` writes the function of a pad. -/
  | gpioMux (padctl : Nat) (muset : BitVec 8)
  /-- The output values of a bank are read. -/
  | read (bank : Nat)
  /-- The value that was read is written back. -/
  | write (bank : Nat) (c : Change)
  /-- The same, and WR goes high. A command comes with its frame. -/
  | strobe (frame : Option Frame)
  deriving DecidableEq

/-- The configuration of the kernel, and the settings from the device tree. -/
structure Config where
  hc16xx : Bool
  control_state : Option (List (Nat × BitVec 8))
  rgb_state : Option (List (Nat × BitVec 8))

section Programs

variable (cfg : Config)

/-- The value that `pinmux_configure` writes. -/
def muset (padctl : Nat) (m : BitVec 8) : BitVec 8 :=
  if cfg.hc16xx ∧ padctl ≥ PINPAD_T00 ∧ padctl ≤ PINPAD_T05 ∧ m = 0 then m ||| 0x7 <<< 3 else m

def pinmux_select_setting (setting : List (Nat × BitVec 8)) : List Access :=
  setting.flatMap fun (pin, func) =>
    if pin < PINPAD_MAX then [.mux pin (muset cfg pin func)] else []

def lcd_pinmux_rgb (pinmux_rgb : Bool) : List Access :=
  if pinmux_rgb then
    match cfg.rgb_state with
    | some setting => pinmux_select_setting cfg setting
    | none => []
  else
    match cfg.control_state with
    | some setting => pinmux_select_setting cfg setting
    | none => []

/-- `gpio_configure` for an output. -/
def gpio_configure (padctl : Nat) : List Access :=
  if padctl ≥ PINPAD_MAX then [] else [.gpioMux padctl (muset cfg padctl 0)]

def lcd_configure_gpio_output : List Access :=
  (busPads ++ [lcd_reset_num]).flatMap (gpio_configure cfg)

/-- `lcd_gpio_set_output` for a pad that is not one of the LVDS interface. -/
def lcd_gpio_set_output (padctl : Nat) (value : Bool) : List Access :=
  [.read (padctl / 32),
    .write (padctl / 32) (if value then .set (padctl % 32) else .clear (padctl % 32))]

/-- `gpio_set_wr(1)`. -/
def gpio_set_wr_high (frame : Option Frame) : List Access := [.read 0, .strobe frame]

def lcd_write_data (cmd : BitVec 16) : List Access :=
  let cmd := cmd.setWidth 32
  [.read 0, .write 0 (.data 0xffffff83 ((cmd &&& 0x1f) <<< 2)),
    .read 3, .write 3 (.data 0xffff8183 ((cmd &&& 0x7e0) <<< 4 ||| cmd >>> 9 &&& 0x7c))]

def lcd_gpio_spi_config_write (RS : Bool) (cmd : BitVec 16) (frame : Option Frame) : List Access :=
  lcd_gpio_set_output lcd_rs_num RS ++ lcd_gpio_set_output lcd_cs_num false ++ lcd_write_data cmd ++
    lcd_gpio_set_output lcd_wr_num false ++ gpio_set_wr_high frame ++
    (lcd_gpio_set_output lcd_cs_num true ++ lcd_gpio_set_output lcd_rs_num true)

/-- `st7789v2_write_command` for the command of a frame. -/
def st7789v2_write_command (f : Frame) : List Access :=
  lcd_gpio_spi_config_write false (f.command.setWidth 16) (some f)

def st7789v2_write_data (data : BitVec 16) : List Access :=
  lcd_gpio_spi_config_write true data none

/-- The calls that write a command and its parameters. -/
def Frame.accesses (f : Frame) : List Access :=
  st7789v2_write_command f ++ f.params.flatMap st7789v2_write_data

def COLUMN_COUNT : Nat := 320
def ROW_COUNT : Nat := 240

def st7789v2_restart_frame : List Frame :=
  [⟨0x2a, [0, 0, .ofNat 16 ((COLUMN_COUNT - 1) >>> 8), .ofNat 16 ((COLUMN_COUNT - 1) &&& 255)]⟩,
    ⟨0x2b, [0, 0, .ofNat 16 ((ROW_COUNT - 1) >>> 8), .ofNat 16 ((ROW_COUNT - 1) &&& 255)]⟩,
    ⟨0x2c, []⟩]

/-- Frames between a switch of the pins to GPIO mode and one to the RGB interface. -/
def session (frames : List Frame) : List Access :=
  lcd_pinmux_rgb cfg false ++ lcd_configure_gpio_output cfg ++ frames.flatMap Frame.accesses ++
    lcd_pinmux_rgb cfg true

/-- The interrupt handler. -/
def vsync_irq : List Access := session cfg st7789v2_restart_frame

def sf2000_lcd_panel_brightness_probe (brightness cabc : BitVec 8) : List Access :=
  session cfg [⟨0x53, [0x2c]⟩, ⟨0x51, [brightness.setWidth 16]⟩, ⟨0x55, [cabc.setWidth 16]⟩]

/-- The parameter of `MADCTL`: the cases are `LCD_ROTATE_0`, `LCD_ROTATE_180`, `LCD_H_MIRROR` and
    `LCD_V_MIRROR`. -/
def rotateData (dir : Int) : BitVec 16 :=
  if dir = 0 then 0x80 + 0x10
  else if dir = 2 then 0xc0 + 0x10
  else if dir = 1 then 0x00 + 0x10
  else if dir = 3 then 0x40 + 0x10
  else 0x0 + 0x10

def st7789v2_rorate (dir : Int) : List Access := Frame.accesses ⟨0x36, [rotateData dir]⟩

end Programs

/-- The registers. `log` holds the words that the panel has taken, `sent` the frames whose commands
    have been strobed. -/
structure Hw where
  mux : Nat → BitVec 8
  out : Nat → BitVec 32
  log : List Word
  sent : List Frame

def Hw.line (h : Hw) (padctl : Nat) : Bool := (h.out (padctl / 32)).getLsbD (padctl % 32)

/-- The low bits select the function of a pad; the others are its driver strength. -/
def isGpio (muset : BitVec 8) : Bool := muset &&& 0x7 == 0

def Hw.InGpioMode (h : Hw) : Prop := ∀ pad ∈ busPads, isGpio (h.mux pad)

instance (h : Hw) : Decidable h.InGpioMode := by
  unfold Hw.InGpioMode
  infer_instance

/-- The word on the bus. -/
def Hw.word (h : Hw) : Word where
  rs := h.line lcd_rs_num
  data := (BitVec.ofBoolListLE (lcd_d_num.map h.line)).setWidth 16

/-- The output values of a bank are written. The panel takes the word when WR rises. -/
def Hw.store (h : Hw) (bank : Nat) (x : BitVec 32) : Hw :=
  let h' := { h with out := Function.update h.out bank x }
  if ¬ h.line lcd_wr_num ∧ h'.line lcd_wr_num ∧ ¬ h'.line lcd_cs_num ∧ h'.InGpioMode then
    { h' with log := h'.log ++ [h'.word] }
  else h'

/-- An access, with the value that was read last. -/
def exec (s : Hw × BitVec 32) : Access → Hw × BitVec 32
  | .mux padctl m | .gpioMux padctl m =>
    ({ s.1 with mux := Function.update s.1.mux padctl m }, s.2)
  | .read bank => (s.1, s.1.out bank)
  | .write bank c => (s.1.store bank (c.modify s.2), s.2)
  | .strobe frame =>
    ({ s.1.store 0 ((Change.set lcd_wr_num).modify s.2) with
      sent := s.1.sent ++ frame.toList }, s.2)

/-- The registers, the value that the task has read and the accesses that it still makes. -/
structure State where
  hw : Hw
  value : BitVec 32
  todo : List Access

inductive Call where
  | sf2000_lcd_panel_brightness_probe (brightness cabc : BitVec 8)
  | st7789v2_rorate (dir : Int)

def Call.accesses (cfg : Config) : Call → List Access
  | .sf2000_lcd_panel_brightness_probe brightness cabc =>
    St7789v2.sf2000_lcd_panel_brightness_probe cfg brightness cabc
  | .st7789v2_rorate dir => St7789v2.st7789v2_rorate dir

inductive Action where
  /-- The task makes a call. -/
  | call (c : Call)
  /-- The task makes its next access. -/
  | access
  /-- The interrupt handler runs to completion. -/
  | vsync

/-- The step function. -/
def step (cfg : Config) (s : State) : Action → Option State
  | .call c => if s.todo = [] then some { s with todo := c.accesses cfg } else none
  | .access =>
    match s.todo with
    | [] => none
    | a :: todo =>
      let (hw, value) := exec (s.hw, s.value) a
      some { hw, value, todo }
  | .vsync => some { s with hw := ((vsync_irq cfg).foldl exec (s.hw, 0)).1 }

/-- No call is running and no command has been sent. -/
def start (mux : Nat → BitVec 8) (out : Nat → BitVec 32) : State := ⟨⟨mux, out, [], []⟩, 0, []⟩

end Hcrtos.Native.St7789v2
