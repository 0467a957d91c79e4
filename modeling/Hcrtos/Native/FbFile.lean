import Hcrtos.Native.Hcfb

/-!
# Frame buffer files

The read, write and seek operations of `fb.c`. The position of a file is a signed number of 64
bits, while sizes and the offsets computed from it have 32 bits.
-/

namespace Hcrtos.Native.Hcfb

open WordMemory

def ENODEV : Int := 19
def EINVAL : Int := 22
def EFBIG : Int := 27

/-- The length of the frame buffer as files see it. -/
def Info.total_size (s : Info) : UInt32 :=
  if s.screen_size = 0 then s.smem_len else s.screen_size

/-- The values of `whence`; any other one is refused. -/
inductive Whence where
  | SEEK_SET
  | SEEK_CUR
  | SEEK_END
  | other

/-- `off_t newpos` of `fb_seek`. -/
def Info.newpos (s : Info) (f_pos offset : Int64) : Whence → Option Int64
  | .SEEK_CUR => some (f_pos + offset)
  | .SEEK_SET => some offset
  | .SEEK_END => some (s.total_size.toUInt64.toInt64 + offset)
  | .other => none

/-- `fb_seek`: the position, and what is returned through an `int`. -/
def Info.fb_seek (s : Info) (f_pos offset : Int64) (whence : Whence) : Int64 × Int :=
  if s.screen_base = none then (f_pos, -ENODEV)
  else
    match s.newpos f_pos offset whence with
    | none => (f_pos, -EINVAL)
    | some newpos =>
      if 0 ≤ newpos then (newpos, newpos.toInt32.toInt) else (f_pos, -EINVAL)

/-- `start` and `size` of a transfer; `none` at the end of the frame buffer. -/
def Info.extent (s : Info) (f_pos : Int64) (len : UInt32) : Option (UInt32 × UInt32) :=
  let total_size := s.total_size
  let start := f_pos.toUInt64.toUInt32
  if total_size ≤ start then none
  else
    let stop := start + len
    let stop := if total_size ≤ stop then total_size else stop
    some (start, stop - start)

/-- `memcpy(buffer, screen_base + start, size)`, as the bytes that are read. -/
def Info.bytes (s : Info) (start size : Nat) : List UInt8 :=
  (List.range size).map fun i => s.memory (s.screen_base.getD 0 + UInt32.ofNat (start + i))

/-- `memcpy(screen_base + start, buffer, size)`. -/
def Info.overwrite (s : Info) (start size : Nat) (buffer : Nat → UInt8) : Mem :=
  patch s.memory (s.screen_base.getD 0 + UInt32.ofNat start) size buffer

/-- A read: the bytes, the position after it and the result. -/
structure ReadResult where
  bytes : List UInt8
  f_pos : Int64
  ret : Int

/-- `fb_read`. -/
def Info.fb_read (s : Info) (f_pos : Int64) (len : UInt32) : ReadResult :=
  match s.extent f_pos len with
  | none => ⟨[], f_pos, 0⟩
  | some (start, size) =>
    ⟨s.bytes start.toNat size.toNat, f_pos + size.toUInt64.toInt64, size.toInt32.toInt⟩

/-- A write: the memory and the position after it and the result. -/
structure WriteResult where
  memory : Mem
  f_pos : Int64
  ret : Int

/-- `fb_write` of the bytes at `buffer`. -/
def Info.fb_write (s : Info) (f_pos : Int64) (buffer : Nat → UInt8) (len : UInt32) : WriteResult :=
  if s.screen_base = none then ⟨s.memory, f_pos, -ENODEV⟩
  else
    match s.extent f_pos len with
    | none => ⟨s.memory, f_pos, -EFBIG⟩
    | some (start, size) =>
      ⟨s.overwrite start.toNat size.toNat buffer, f_pos + size.toUInt64.toInt64,
        size.toInt32.toInt⟩

end Hcrtos.Native.Hcfb
