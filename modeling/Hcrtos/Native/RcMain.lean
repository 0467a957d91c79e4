import Mathlib.Data.Nat.Size
import Hcrtos.ForStd.SortedTable
import Hcrtos.Native.IrNec

/-!
# Remote control devices

`drivers/input/rc/rc-main.c`: the table from scancodes to key codes, which grows and shrinks with
the number of its entries, and the key that is held down, which a timer releases. Scancodes and key
codes are natural numbers. What `kmalloc` answers, and the time, are arguments.
-/

namespace Hcrtos.Native.Rc

open SortedTable

def ENOMEM : Int := 12

def KEY_RESERVED : Nat := 0
def KEY_UNKNOWN : Nat := 240
def KEY_MAX : Nat := 0x2ff

def IR_TAB_MIN_SIZE : Nat := 256
def IR_TAB_MAX_SIZE : Nat := 8192

/-- `sizeof(struct rc_map_table)`. -/
def ENTRY_SIZE : Nat := 16

/-- `-1U`, for no index. -/
def NO_INDEX : Nat := 2 ^ 32 - 1

def U32_MAX : Nat := 2 ^ 32 - 1

/-- `struct rc_map_table`. -/
structure RcMapTable where
  scancode : Nat
  keycode : Nat
  deriving DecidableEq

/-- `struct rc_map`; `scan` is as long as `len`. -/
structure RcMap where
  scan : List RcMapTable
  size : Nat
  alloc : Nat
  deriving DecidableEq

namespace RcMap

def len (m : RcMap) : Nat := m.scan.length

/-! ### The table -/

/-- `roundup_pow_of_two`. -/
def roundup_pow_of_two (n : Nat) : Nat := 2 ^ Nat.size (n - 1)

/-- `ir_create_table`, if its allocations succeed. -/
def ir_create_table (size : Nat) : RcMap :=
  let alloc := roundup_pow_of_two (size * ENTRY_SIZE)
  { scan := [], size := alloc / ENTRY_SIZE, alloc }

/-- `ir_resize_table`. -/
def ir_resize_table (m : RcMap) (ok : Bool) : RcMap × Int :=
  let oldalloc := m.alloc
  if m.size = m.len ∧ m.alloc ≥ IR_TAB_MAX_SIZE then (m, -ENOMEM)
  else
    let newalloc := if m.size = m.len then oldalloc * 2 else oldalloc
    let newalloc :=
      if m.len * 3 < m.size ∧ oldalloc > IR_TAB_MIN_SIZE then newalloc / 2 else newalloc
    if newalloc = oldalloc then (m, 0)
    else if ok = false then (m, -ENOMEM)
    else ({ m with alloc := newalloc, size := newalloc / ENTRY_SIZE }, 0)

/-- `ir_update_mapping`, which does not look at what becomes of the resizing. -/
def ir_update_mapping (m : RcMap) (index new_keycode : Nat) (ok : Bool) : RcMap × Nat :=
  let old := m.scan.getD index ⟨0, KEY_RESERVED⟩
  let m : RcMap :=
    if new_keycode = KEY_RESERVED ∨ new_keycode = KEY_UNKNOWN then
      { m with scan := m.scan.eraseIdx index }
    else { m with scan := m.scan.set index { old with keycode := new_keycode } }
  let m := if old.keycode ≠ KEY_RESERVED then (m.ir_resize_table ok).1 else m
  (m, old.keycode)

/-- The loop of `ir_establish_scancode`: the index of the scancode or of its place. -/
def seek (scancode : Nat) : List RcMapTable → Nat → Nat × Bool
  | [], i => (i, false)
  | e :: es, i =>
    if e.scancode = scancode then (i, true)
    else if e.scancode ≥ scancode then (i, false)
    else seek scancode es (i + 1)

/-- The part of `ir_establish_scancode` that makes room for a scancode. A resizing that fails has
    changed nothing. -/
def make_room (m : RcMap) (resize ok : Bool) : Option RcMap :=
  if m.size = m.len then
    if resize = false ∨ (m.ir_resize_table ok).2 ≠ 0 then none
    else some (m.ir_resize_table ok).1
  else some m

/-- `ir_establish_scancode`. -/
def ir_establish_scancode (m : RcMap) (scancode_mask scancode : Nat) (resize ok : Bool) :
    RcMap × Nat :=
  let scancode := if scancode_mask ≠ 0 then scancode &&& scancode_mask else scancode
  let r := seek scancode m.scan 0
  if r.2 then (m, r.1)
  else
    match m.make_room resize ok with
    | none => (m, NO_INDEX)
    | some m =>
      ({ m with scan := m.scan.take r.1 ++ ⟨scancode, KEY_RESERVED⟩ :: m.scan.drop r.1 }, r.1)

/-- `ir_lookup_by_scancode`. -/
def ir_lookup_by_scancode (m : RcMap) (scancode : Nat) : Nat :=
  match bsearch RcMapTable.scancode m.scan scancode with
  | none => NO_INDEX
  | some i => i

/-- `rc_g_keycode_from_table`. -/
def rc_g_keycode_from_table (m : RcMap) (scancode : Nat) : Nat :=
  let index := m.ir_lookup_by_scancode scancode
  if index < m.len then (m.scan.getD index ⟨0, KEY_RESERVED⟩).keycode else KEY_RESERVED

/-! ### Requests -/

/-- `struct input_keymap_entry`. -/
structure Entry where
  by_index : Bool
  len : Nat
  index : Nat
  keycode : Nat
  scancode : List (BitVec 8)
  deriving DecidableEq

/-- Some bytes as a number, the lowest one first. -/
def littleEndian : List (BitVec 8) → Nat
  | [] => 0
  | b :: bs => b.toNat + 256 * littleEndian bs

/-- `scancode_to_u64`. -/
def scancode_to_u64 (ke : Entry) : Except Int Nat :=
  if ke.len = 1 ∨ ke.len = 2 ∨ ke.len = 4 ∨ ke.len = 8 then
    .ok (littleEndian (ke.scancode.take ke.len))
  else .error (-EINVAL)

/-- `ir_setkeycode`, with what `kmalloc` answers when the table is resized for a new scancode, and
    after the update. -/
def ir_setkeycode (m : RcMap) (scancode_mask : Nat) (ke : Entry) (ok ok' : Bool) :
    RcMap × Except Int Nat :=
  if ke.by_index then
    if ke.index ≥ m.len then (m, .error (-EINVAL))
    else
      let r := m.ir_update_mapping ke.index ke.keycode ok'
      (r.1, .ok r.2)
  else
    match scancode_to_u64 ke with
    | .error e => (m, .error e)
    | .ok scancode =>
      let (m, index) := m.ir_establish_scancode scancode_mask scancode true ok
      if index ≥ m.len then (m, .error (-ENOMEM))
      else
        let r := m.ir_update_mapping index ke.keycode ok'
        (r.1, .ok r.2)

/-- `input_set_keycode`, behind the check of `evdev_handle_set_keycode_v2`. -/
def input_set_keycode (m : RcMap) (scancode_mask : Nat) (ke : Entry) (ok ok' : Bool) :
    RcMap × Except Int Nat :=
  if ke.len > 32 then (m, .error (-EINVAL))
  else if ke.keycode > KEY_MAX then (m, .error (-EINVAL))
  else m.ir_setkeycode scancode_mask ke ok ok'

/-- The loop of `ir_setkeytable`, with the answers of `kmalloc`. -/
def setkeytableLoop (scancode_mask : Nat) (ok : Nat → Bool) :
    List RcMapTable → Nat → RcMap → RcMap × Int
  | [], _, m => (m, 0)
  | e :: es, i, m =>
    let r := m.ir_establish_scancode scancode_mask e.scancode false true
    if r.2 ≥ r.1.len then (r.1, -ENOMEM)
    else
      setkeytableLoop scancode_mask ok es (i + 1) (r.1.ir_update_mapping r.2 e.keycode (ok i)).1

/-- `ir_setkeytable`: the new table, or an error when the table has been freed. -/
def ir_setkeytable (scancode_mask : Nat) (create : Bool) (ok : Nat → Bool)
    (from_scan : List RcMapTable) : Except Int RcMap :=
  if create = false then .error (-ENOMEM)
  else
    let r := setkeytableLoop scancode_mask ok from_scan 0 (ir_create_table from_scan.length)
    if r.2 = 0 then .ok r.1 else .error r.2

end RcMap

/-! ### Keys -/

/-- The `repeat_period` of a protocol, in milliseconds. -/
def repeat_period : RcProto → Nat
  | .UNKNOWN | .OTHER | .JVC | .SANYO | .SHARP | .XMP => 125
  | .RC5 | .RC5X_20 | .RC5_SZ | .RC6_0 | .RC6_6A_20 | .RC6_6A_24 | .RC6_6A_32 | .RC6_MCE | .IMON
  | .RCMM12 | .RCMM24 | .RCMM32 => 114
  | .SONY12 | .SONY15 | .SONY20 | .MCIR2_KBD | .MCIR2_MSE => 100
  | .NEC | .NECX | .NEC32 => 110
  | .CEC => 0
  | .XBOX_DVD => 64

/-- `configTICK_RATE_HZ`. -/
def HZ : Nat := 1000

def usecs_to_jiffies (u : Nat) : Nat := (u + 1000000 / HZ - 1) / (1000000 / HZ)

def msecs_to_jiffies (m : Nat) : Nat := (m + 1000 / HZ - 1) / (1000 / HZ)

/-- `time_after_eq`: the difference of two times is taken as a signed number. -/
def time_after_eq (a b : BitVec 32) : Bool := decide (0 ≤ (a - b).toInt)

/-- What is reported to the input device. -/
inductive InputEvent where
  /-- `EV_MSC` with `MSC_SCAN`. -/
  | scan (scancode : Nat)
  /-- `EV_KEY`. -/
  | key (code : Nat) (value : Bool)
  /-- `EV_SYN` with `SYN_REPORT`. -/
  | sync

/-- What the core has in `struct rc_dev`, with the time that `timer_keyup` is set to, and what has
    been reported. -/
structure RcDev where
  rc_map : RcMap
  scancode_mask : Nat
  timeout : Nat
  keypressed : Bool
  last_protocol : RcProto
  last_scancode : Nat
  last_toggle : BitVec 8
  last_keycode : Nat
  keyup_jiffies : BitVec 32
  timer_keyup : Option (BitVec 32)
  reported : List InputEvent

namespace RcDev

/-- `input_event`. -/
def input_event (dev : RcDev) (ev : InputEvent) : RcDev :=
  { dev with reported := dev.reported ++ [ev] }

/-- `ir_do_keyup`. -/
def ir_do_keyup (dev : RcDev) (sync : Bool) : RcDev :=
  if dev.keypressed = false then dev
  else
    let dev := dev.input_event (.key dev.last_keycode false)
    let dev := if sync then dev.input_event .sync else dev
    { dev with keypressed := false }

def rc_keyup (dev : RcDev) : RcDev := dev.ir_do_keyup true

/-- `ir_timer_keyup`. -/
def ir_timer_keyup (dev : RcDev) (jiffies : BitVec 32) : RcDev :=
  if time_after_eq jiffies dev.keyup_jiffies then dev.ir_do_keyup true else dev

/-- `keyup_jiffies` is set, and the timer with it. -/
def mod_keyup (dev : RcDev) (jiffies : BitVec 32) (protocol : RcProto) : RcDev :=
  let timeout := usecs_to_jiffies dev.timeout + msecs_to_jiffies (repeat_period protocol)
  let keyup_jiffies := jiffies + BitVec.ofNat 32 timeout
  { dev with keyup_jiffies, timer_keyup := some keyup_jiffies }

/-- `rc_repeat`. -/
def rc_repeat (dev : RcDev) (jiffies : BitVec 32) : RcDev :=
  let dev :=
    if dev.last_scancode ≤ U32_MAX then
      (dev.input_event (.scan dev.last_scancode)).input_event .sync
    else dev
  if dev.keypressed then dev.mod_keyup jiffies dev.last_protocol else dev

/-- The message is not one of the key that is held down. -/
def new_event (dev : RcDev) (protocol : RcProto) (scancode : Nat) (toggle : BitVec 8) : Bool :=
  !dev.keypressed || decide (dev.last_protocol ≠ protocol) ||
    decide (dev.last_scancode ≠ scancode) || decide (dev.last_toggle ≠ toggle)

/-- `ir_do_keydown`. -/
def ir_do_keydown (dev : RcDev) (protocol : RcProto) (scancode keycode : Nat)
    (toggle : BitVec 8) : RcDev :=
  let new := dev.new_event protocol scancode toggle
  let dev := if new ∧ dev.keypressed then dev.ir_do_keyup false else dev
  let dev := if scancode ≤ U32_MAX then dev.input_event (.scan scancode) else dev
  let dev : RcDev :=
    { dev with
      last_protocol := protocol
      last_scancode := scancode
      last_toggle := toggle
      last_keycode := keycode }
  let dev : RcDev :=
    if new ∧ keycode ≠ KEY_RESERVED then
      { dev with keypressed := true }.input_event (.key keycode true)
    else dev
  dev.input_event .sync

/-- The part of `rc_keydown` behind the lookup of the key code, under the lock. -/
def rc_keydown (dev : RcDev) (jiffies : BitVec 32) (protocol : RcProto)
    (scancode keycode : Nat) (toggle : BitVec 8) : RcDev :=
  let dev := dev.ir_do_keydown protocol scancode keycode toggle
  if dev.keypressed then dev.mod_keyup jiffies protocol else dev

/-! ### The system -/

/-- A message on its way into `rc_keydown`, with the key code that was found for it. -/
structure Message where
  protocol : RcProto
  scancode : Nat
  keycode : Nat
  toggle : BitVec 8

/-- The device with the time, the message that the thread of the decoders has looked up, and the
    number of timer callbacks that have been started and have not taken the lock. -/
structure Sys where
  dev : RcDev
  now : Nat
  message : Option Message
  callbacks : Nat

/-- What can happen. -/
inductive Label where
  /-- The start of `rc_keydown`. -/
  | lookup (protocol : RcProto) (scancode : Nat) (toggle : BitVec 8)
  | keydown
  | rep
  | keyup
  | setkeycode (ke : RcMap.Entry) (ok ok' : Bool)
  | tick
  /-- The timer starts its callback. -/
  | expire
  | callback
  deriving DecidableEq

namespace Sys

def jiffies (s : Sys) : BitVec 32 := BitVec.ofNat 32 s.now

/-- A step of the system. -/
def step (s : Sys) : Label → Option Sys
  | .lookup protocol scancode toggle =>
    if s.message.isSome then none
    else
      let keycode := s.dev.rc_map.rc_g_keycode_from_table scancode
      some { s with message := some ⟨protocol, scancode, keycode, toggle⟩ }
  | .keydown =>
    match s.message with
    | some m =>
      some { s with
        dev := s.dev.rc_keydown s.jiffies m.protocol m.scancode m.keycode m.toggle
        message := none }
    | none => none
  | .rep => some { s with dev := s.dev.rc_repeat s.jiffies }
  | .keyup => some { s with dev := s.dev.rc_keyup }
  | .setkeycode ke ok ok' =>
    let r := s.dev.rc_map.input_set_keycode s.dev.scancode_mask ke ok ok'
    some { s with dev := { s.dev with rc_map := r.1 } }
  | .tick => some { s with now := s.now + 1 }
  | .expire =>
    match s.dev.timer_keyup with
    | some expires =>
      if time_after_eq s.jiffies expires then
        some { s with dev := { s.dev with timer_keyup := none }, callbacks := s.callbacks + 1 }
      else none
    | none => none
  | .callback =>
    if s.callbacks = 0 then none
    else some { s with dev := s.dev.ir_timer_keyup s.jiffies, callbacks := s.callbacks - 1 }

end Sys

/-- A device that has been registered with a table. -/
def init (rc_map : RcMap) (scancode_mask timeout : Nat) : RcDev :=
  { rc_map
    scancode_mask
    timeout
    keypressed := false
    last_protocol := .UNKNOWN
    last_scancode := 0
    last_toggle := 0
    last_keycode := 0
    keyup_jiffies := 0
    timer_keyup := none
    reported := [] }

end RcDev

end Hcrtos.Native.Rc
