import Hcrtos.ForStd.CString
import Hcrtos.ForStd.Lts

/-!
# Numbers of input devices

`drivers/input/input.c`: each of the three kinds of devices has a bitmap of free numbers. A device
gets the lowest free one, and its path is made of the number.
-/

namespace Hcrtos.Native.Input

open CString

/-- The kinds of devices, which have their own functions to register and unregister. -/
inductive Kind where
  /-- `input_register_device` and `input_unregister_device`. -/
  | event
  /-- `input_register_mouse_device` and `input_unregister_mouse_device`. -/
  | mouse
  /-- `input_register_kbd_device` and `input_unregister_kbd_device`. -/
  | kbd
  deriving DecidableEq

/-- The address of a `struct input_dev`. -/
abbrev Addr := Nat

/-- A registered device, with the number in its `id`. -/
structure InputDev where
  addr : Addr
  kind : Kind
  id : Int
  deriving DecidableEq

/-- The format strings of the paths, up to their `%d`. -/
def Kind.format : Kind → CStr
  -- "/dev/input/event"
  | .event => [47, 100, 101, 118, 47, 105, 110, 112, 117, 116, 47, 101, 118, 101, 110, 116]
  -- "/dev/input/mouse"
  | .mouse => [47, 100, 101, 118, 47, 105, 110, 112, 117, 116, 47, 109, 111, 117, 115, 101]
  -- "/dev/input/kbd"
  | .kbd => [47, 100, 101, 118, 47, 105, 110, 112, 117, 116, 47, 107, 98, 100]

/-- The path that the device is registered under. -/
def InputDev.path (d : InputDev) : CStr := d.kind.format ++ formatInt d.id

/-- The bitmaps of free numbers, and the registered devices. -/
structure State where
  id_bitmap : Kind → BitVec 32
  devs : List InputDev

def init : State := ⟨fun _ => 0xffffffff, []⟩

/-- `ffs`: one more than the lowest bit that is set, or zero. -/
def ffs (x : BitVec 32) : Nat :=
  match (List.range 32).find? fun i => x.getLsbD i with
  | none => 0
  | some i => i + 1

/-- `BIT(id)`. The shift takes the low five bits of its count. -/
def BIT (id : Int) : BitVec 32 := BitVec.twoPow 32 (id % 32).toNat

/-- `input_register_device` and the two functions like it. -/
def input_register_device (s : State) (kind : Kind) (dev : Addr) : State :=
  let id : Int := ffs (s.id_bitmap kind) - 1
  { id_bitmap := Function.update s.id_bitmap kind (s.id_bitmap kind &&& ~~~BIT id)
    devs := ⟨dev, kind, id⟩ :: s.devs }

/-- The bitmap after a number is given back. -/
def freeId : Kind → BitVec 32 → Int → BitVec 32
  | .event, id_bitmap, id => id_bitmap ||| ~~~BIT id
  | .mouse, mouse_id_bitmap, id => mouse_id_bitmap ||| BIT id
  | .kbd, kbd_id_bitmap, id => kbd_id_bitmap ||| BIT id

/-- `input_unregister_device` and the two functions like it. -/
def input_unregister_device (s : State) (d : InputDev) : State :=
  { id_bitmap := Function.update s.id_bitmap d.kind (freeId d.kind (s.id_bitmap d.kind) d.id)
    devs := s.devs.erase d }

inductive Action where
  | register (kind : Kind) (dev : Addr)
  | unregister (dev : Addr)

/-- The step function. A driver registers a device that is not registered, and unregisters one
    that is, with the function for its kind. -/
def step (s : State) : Action → Option State
  | .register kind dev =>
    if s.devs.all fun d => d.addr ≠ dev then some (input_register_device s kind dev) else none
  | .unregister dev => (s.devs.find? fun d => d.addr = dev).map (input_unregister_device s)

end Hcrtos.Native.Input
