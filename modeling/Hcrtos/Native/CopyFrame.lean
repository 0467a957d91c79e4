import Mathlib.Algebra.Ring.Int.Defs
import Mathlib.Data.List.Basic
import Hcrtos.ForStd.Memory

/-!
# Conversion of PCM samples

`sound/copyframe_16bit.c`. A buffer is an array of the samples as they are loaded, low byte
first, and `in` and `out` are indices. A routine is the list of the output samples it writes,
in order, each with its slot. The value of an expression of type `int` is an integer.
-/

namespace Hcrtos.Native.CopyFrame

open Memory

/-! ### The macros -/

/-- `(int16_t)`. -/
def int16 (v : Int) : Int := (v + 2 ^ 15) % 2 ^ 16 - 2 ^ 15

/-- `(int32_t)`. -/
def int32 (v : Int) : Int := (v + 2 ^ 31) % 2 ^ 32 - 2 ^ 31

/-- An expression of type `uint32_t`. -/
def uint32 (v : Int) : Int := v % 2 ^ 32

/-- `_READ(pin, idx, 16, shift)`, where `pin` is a pointer to a sample. -/
def _READ {w : Nat} (pin : BitVec w) (idx shift : Nat) : Nat :=
  (pin.toNat >>> (8 * idx) % 2 ^ 8) <<< shift

/-- `_READ(pin, idx, 16, shift)`, where `pin` is a sample: it is used as an address. -/
def _READ_AT (m : Mem) (pin : BitVec 32) (idx shift : Nat) : Nat :=
  (m ((pin.toNat + idx) % 2 ^ 32)).toNat <<< shift

def S16BETOS16 (pin : BitVec 16) : Int := (_READ pin 0 8 ||| _READ pin 1 0 : Nat)

def U16BETOS16 (pin : BitVec 16) : Int := S16BETOS16 pin - 0x8000

def S32BETOS16 (m : Mem) (pin : BitVec 32) : Int := (_READ_AT m pin 0 8 ||| _READ_AT m pin 1 0 : Nat)

def U32BETOS16 (m : Mem) (pin : BitVec 32) : Int := S32BETOS16 m pin - 0x8000

def S8TOS16 (x : BitVec 8) : Int := int16 x.toInt * 2 ^ 8

def U8TOS16 (x : BitVec 8) : Int := int16 (x.toNat - 0x80) * 2 ^ 8

def S16TOS16 (x : BitVec 16) : Int := int16 x.toInt

def U16TOS16 (x : BitVec 16) : Int := int16 (x.toNat - 0x8000)

def S24LTOS16 (x : BitVec 32) : Int := int16 (x.toInt >>> (16 : Nat))

def S24RTOS16 (x : BitVec 32) : Int := int16 (x.toInt >>> (8 : Nat))

def U24LTOS16 (x : BitVec 32) : Int := int16 (int32 (uint32 (x.toNat - 0x80000000)) >>> (16 : Nat))

def U24RTOS16 (x : BitVec 32) : Int := int16 (int32 (uint32 (x.toNat - 0x800000)) >>> (8 : Nat))

def S32TOS16 (x : BitVec 32) : Int := int16 (x.toInt >>> (16 : Nat))

def U32TOS16 (x : BitVec 32) : Int := int16 (int32 (uint32 (x.toNat - 0x80000000)) >>> (16 : Nat))

/-! ### The routines -/

/-- `snd_pcm_access_t`. -/
inductive Access where
  | SND_PCM_ACCESS_RW_INTERLEAVED
  | SND_PCM_ACCESS_RW_NONINTERLEAVED
  deriving DecidableEq

def AUDSINK_PCM_DUPLICATE_STEREO : Int := 0
def AUDSINK_PCM_DUPLICATE_LEFT : Int := 1
def AUDSINK_PCM_DUPLICATE_RIGHT : Int := 2
def AUDSINK_PCM_DUPLICATE_MONO : Int := 3

def SND_PCM_ALIGN_LEFT : Nat := 0

/-- Where the samples for the output channel `ch` are read: `in`, and `in2` unless it is
    NULL. -/
def source (pitch channels_in : Nat) (access : Access) (dup : Int) (ch : Nat) :
    Nat × Option Nat :=
  if access = .SND_PCM_ACCESS_RW_INTERLEAVED then
    if channels_in = 2 then
      if dup = AUDSINK_PCM_DUPLICATE_STEREO then (ch, none)
      else if dup = AUDSINK_PCM_DUPLICATE_LEFT then (0, none)
      else if dup = AUDSINK_PCM_DUPLICATE_RIGHT then (1, none)
      else (0, some 1)
    else (ch, none)
  else
    if channels_in = 2 then
      if dup = AUDSINK_PCM_DUPLICATE_STEREO then (ch * pitch, none)
      else if dup = AUDSINK_PCM_DUPLICATE_LEFT then (0, none)
      else if dup = AUDSINK_PCM_DUPLICATE_RIGHT then (pitch, none)
      else (0, some pitch)
    else (ch * pitch, none)

section

variable {α : Type*} (conv : α → Int) (src : Nat → α)

/-- The loop over the frames that converts one channel. -/
def copySingle (istep ostep : Nat) : Nat → Nat → Nat → List (Nat × Int)
  | 0, _, _ => []
  | frames + 1, inp, out =>
    (out, int16 (conv (src inp))) :: copySingle istep ostep frames (inp + istep) (out + ostep)

/-- The loop over the frames that mixes two channels. -/
def copyMixed (istep ostep : Nat) : Nat → Nat → Nat → Nat → List (Nat × Int)
  | 0, _, _, _ => []
  | frames + 1, inp, inp2, out =>
    let v := int16 ((conv (src inp) + conv (src inp2)) >>> (1 : Nat))
    (out, v) :: (out + 1, v) ::
      copyMixed istep ostep frames (inp + istep) (inp2 + istep) (out + ostep)

/-- The loop over the channels, with `n` of them left. -/
def copyChannels (frames pitch channels_in : Nat) (access : Access) (dup : Int)
    (istep ostep : Nat) : Nat → Nat → List (Nat × Int)
  | 0, _ => []
  | n + 1, ch =>
    match source pitch channels_in access dup ch with
    | (inp, some inp2) => copyMixed conv src istep ostep frames inp inp2 ch
    | (inp, none) =>
      copySingle conv src istep ostep frames inp ch ++
        copyChannels frames pitch channels_in access dup istep ostep n (ch + 1)

/-- The body that the routines share; they differ in the type of a sample and in the macro
    that converts it. -/
def audsink_copy (frames pitch channels_in : Nat) (access : Access) (dup : Int) :
    List (Nat × Int) :=
  let istep := if access = .SND_PCM_ACCESS_RW_INTERLEAVED then channels_in else 1
  let ostep := if channels_in = 1 then 2 else channels_in
  copyChannels conv src frames pitch channels_in access dup istep ostep channels_in 0 ++
    if channels_in = 1 then copySingle conv src 1 ostep frames 0 1 else []

end

def audsink_copy_s8 (src : Nat → BitVec 8) := audsink_copy S8TOS16 src

def audsink_copy_u8 (src : Nat → BitVec 8) := audsink_copy U8TOS16 src

def audsink_copy_s16 (src : Nat → BitVec 16) := audsink_copy S16TOS16 src

def audsink_copy_s16_be (src : Nat → BitVec 16) := audsink_copy S16BETOS16 src

def audsink_copy_u16 (src : Nat → BitVec 16) := audsink_copy U16TOS16 src

def audsink_copy_u16_be (src : Nat → BitVec 16) := audsink_copy U16BETOS16 src

def audsink_copy_s24 (align : Nat) (src : Nat → BitVec 32) :=
  audsink_copy (if align = SND_PCM_ALIGN_LEFT then S24LTOS16 else S24RTOS16) src

def audsink_copy_u24 (align : Nat) (src : Nat → BitVec 32) :=
  audsink_copy (if align = SND_PCM_ALIGN_LEFT then U24LTOS16 else U24RTOS16) src

def audsink_copy_s32 (src : Nat → BitVec 32) := audsink_copy S32TOS16 src

/-- The macro gets the samples, not where they are, and reads at the address they make. -/
def audsink_copy_s32_be (m : Mem) (src : Nat → BitVec 32) := audsink_copy (S32BETOS16 m) src

def audsink_copy_u32 (src : Nat → BitVec 32) := audsink_copy U32TOS16 src

def audsink_copy_u32_be (m : Mem) (src : Nat → BitVec 32) := audsink_copy (U32BETOS16 m) src

end Hcrtos.Native.CopyFrame
