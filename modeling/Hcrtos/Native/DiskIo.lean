import Mathlib.Data.Int.Basic

/-!
# Disk accesses of FatFs

`disk_read` and `disk_write` of `diskio.c`, over a block driver or over a descriptor. A descriptor
that is opened on a block driver belongs to the character device of `drivers/bch` in front of it,
whose sector buffer holds one sector. `off_t` and `blkcnt_t` have 64 bits, `size_t` and `ssize_t`
have 32. The data are left out: what counts is which sectors the block driver is asked for.
-/

namespace Hcrtos.Native.DiskIo

def EACCES : BitVec 32 := 13
def EINVAL : Int := 22
def EFBIG : BitVec 32 := 27

inductive DRESULT where
  | RES_OK
  | RES_ERROR
  | RES_WRPRT
  | RES_NOTRDY
  | RES_PARERR
  deriving DecidableEq

inductive Op where
  | read
  | write
  deriving DecidableEq

/-- A call of `i_bops->read` or `i_bops->write`. -/
structure Request where
  op : Op
  start_sector : Int
  nsectors : BitVec 32
  deriving DecidableEq

/-- What the block driver returns: the number of sectors, or an error. -/
abbrev Driver := Request → BitVec 32

/-- `struct bchlib_s`. `sector` is the one in the buffer. -/
structure Bchlib where
  sectsize : BitVec 32
  nsectors : BitVec 32
  sector : Int
  dirty : Bool
  readonly : Bool

/-- The position of the file, its character device, and the requests so far. -/
structure State where
  f_pos : Int
  bch : Bchlib
  requests : List Request

def State.request (drv : Driver) (s : State) (r : Request) : BitVec 32 × State :=
  (drv r, { s with requests := s.requests ++ [r] })

/-! ### The character device -/

def bchlib_flushsector (drv : Driver) (s : State) : BitVec 32 × State :=
  if s.bch.dirty then
    let (ret, s) := s.request drv ⟨.write, s.bch.sector, 1⟩
    (ret, { s with bch := { s.bch with dirty := false } })
  else (0, s)

/-- `bchlib_readsector`, whose return value nobody looks at. -/
def bchlib_readsector (drv : Driver) (s : State) (sector : Int) : State :=
  if s.bch.sector ≠ sector then
    let (_, s) := bchlib_flushsector drv s
    let (_, s) := s.request drv ⟨.read, sector, 1⟩
    { s with bch := { s.bch with sector := sector } }
  else s

/-- The caller's data go to the buffer, or come from there. -/
def State.copy (s : State) (op : Op) : State :=
  if op = .write then { s with bch := { s.bch with dirty := true } } else s

/-- The last part of `bchlib_read` and `bchlib_write`: the partial sector at the end. -/
def finalSector (op : Op) (drv : Driver) (s : State) (sector : Int) (len bytes : BitVec 32) :
    BitVec 32 × State :=
  if len > 0 then (bytes + len, (bchlib_readsector drv s sector).copy op) else (bytes, s)

/-- The part before: the full sectors, for which a write flushes the buffer. -/
def fullSectors (op : Op) (drv : Driver) (s : State) (sector : Int) (len bytes : BitVec 32) :
    BitVec 32 × State :=
  if len ≥ s.bch.sectsize then
    let nsectors := len / s.bch.sectsize
    let nsectors :=
      if sector + nsectors.toNat > s.bch.nsectors.toNat then
        .ofInt 32 (s.bch.nsectors.toNat - sector)
      else nsectors
    let (ret, s) := if op = .write then bchlib_flushsector drv s else (0, s)
    if ret.toInt < 0 then (ret, s)
    else
      let (ret, s) := s.request drv ⟨op, sector, nsectors⟩
      if ret.toInt < 0 then (ret, s)
      else
        let sector := sector + nsectors.toNat
        let nbytes := nsectors * s.bch.sectsize
        let bytes := bytes + nbytes
        if sector ≥ s.bch.nsectors.toNat then (bytes, s)
        else finalSector op drv s sector (len - nbytes) bytes
  else finalSector op drv s sector len bytes

/-- What is returned behind the last sector. -/
def Op.behind : Op → BitVec 32
  | .read => 0
  | .write => -EFBIG

/-- `bchlib_read` and `bchlib_write`. The offset is a `size_t`. -/
def bchlib_transfer (op : Op) (drv : Driver) (s : State) (offset len : BitVec 32) :
    BitVec 32 × State :=
  if len < 1 then (0, s)
  else
    let sector : Int := (offset / s.bch.sectsize).toNat
    let sectoffset : BitVec 16 := .ofInt 16 (offset.toNat - sector * s.bch.sectsize.toNat)
    if sector ≥ s.bch.nsectors.toNat then (op.behind, s)
    else if sectoffset > 0 then
      let s := bchlib_readsector drv s sector
      let nbytes :=
        if sectoffset.setWidth 32 + len > s.bch.sectsize then
          s.bch.sectsize - sectoffset.setWidth 32
        else len
      let s := s.copy op
      let sector := sector + 1
      if sector ≥ s.bch.nsectors.toNat then (nbytes, s)
      else fullSectors op drv s sector (len - nbytes) nbytes
    else fullSectors op drv s sector len 0

def bchlib_read := bchlib_transfer .read
def bchlib_write := bchlib_transfer .write

/-- `bch_seek` for `SEEK_SET`. The position is returned through an `int`. -/
def bch_seek (s : State) (offset : Int) : Int × State :=
  if offset ≥ 0 then
    let ret : BitVec 32 := .ofInt 32 offset
    (ret.toInt, { s with f_pos := offset })
  else (-EINVAL, s)

/-- The position is advanced by what was asked for. -/
def State.advance (s : State) (ret len : BitVec 32) : State :=
  if ret.toInt > 0 then { s with f_pos := s.f_pos + len.toNat } else s

def bch_read (drv : Driver) (s : State) (len : BitVec 32) : BitVec 32 × State :=
  let (ret, s) := bchlib_read drv s (.ofInt 32 s.f_pos) len
  (ret, s.advance ret len)

def bch_write (drv : Driver) (s : State) (len : BitVec 32) : BitVec 32 × State :=
  if s.bch.readonly then (-EACCES, s)
  else
    let (ret, s) := bchlib_write drv s (.ofInt 32 s.f_pos) len
    (ret, s.advance ret len)

/-! ### System calls -/

/-- `lseek` for `SEEK_SET`. -/
def lseek (s : State) (offset : Int) : Int × State :=
  let (ret, s) := bch_seek s offset
  let newpos := if ret < 0 then ret else s.f_pos
  if newpos < 0 then (-1, s) else (newpos, s)

/-- `read` and `write`. -/
def transfer (op : Op) (drv : Driver) (s : State) (nbytes : BitVec 32) : BitVec 32 × State :=
  let (ret, s) :=
    match op with
    | .read => bch_read drv s nbytes
    | .write => bch_write drv s nbytes
  if ret.toInt < 0 then (-1, s) else (ret, s)

/-! ### `diskio.c` -/

/-- `struct fat_blkdrv`. `fs_blkdriver` tells which operations the block driver has. -/
structure Blkdrv where
  fs_fd : Int
  fs_hwsectshift : Nat
  fs_blkdriver : Option (Op → Bool)

/-- `disk_read` and `disk_write` of a drive, which is `none` in a slot that is not in use. -/
def disk_transfer (op : Op) (drv : Driver) (blkdrv : Option Blkdrv) (s : State)
    (sector : BitVec 64) (count : BitVec 32) : DRESULT × State :=
  match blkdrv with
  | none => (.RES_NOTRDY, s)
  | some blkdrv =>
    if blkdrv.fs_fd > 0 then
      let fpos := (sector <<< blkdrv.fs_hwsectshift).toInt
      let (seekpos, s) := lseek s fpos
      if seekpos = -1 then (.RES_ERROR, s)
      else if seekpos ≠ fpos then (.RES_ERROR, s)
      else
        let (n, s) := transfer op drv s (count <<< blkdrv.fs_hwsectshift)
        if n.toInt < 0 then (.RES_ERROR, s)
        else if n ≠ count <<< blkdrv.fs_hwsectshift then (.RES_ERROR, s)
        else (.RES_OK, s)
    else
      match blkdrv.fs_blkdriver with
      | none => (.RES_PARERR, s)
      | some ops =>
        if ops op then
          let (n, s) := s.request drv ⟨op, sector.toInt, count⟩
          if n = count then (.RES_OK, s) else (.RES_PARERR, s)
        else (.RES_PARERR, s)

def disk_read := disk_transfer .read
def disk_write := disk_transfer .write

/-- The sector sizes that `fat_mount` and `mkfatfs` accept, and their shifts. -/
def hwsectshift (sectorsize : Nat) : Option Nat :=
  if sectorsize = 512 then some 9
  else if sectorsize = 1024 then some 10
  else if sectorsize = 2048 then some 11
  else if sectorsize = 4096 then some 12
  else none

/-- `bchlib_setup` for a card that is there and may be written. -/
def bchlib_setup (geo_nsectors geo_sectorsize : Nat) (readonly : Bool) : Bchlib :=
  ⟨.ofNat 32 geo_sectorsize, .ofNat 32 geo_nsectors, -1, false, readonly⟩

/-- The drive of `mkfatfs`, whose block driver `open` returned `fd` for, and the open file. -/
def mkfatfs (fd : Int) (geo_nsectors geo_sectorsize : Nat) : Option (Blkdrv × State) :=
  if fd < 0 then none
  else
    (hwsectshift geo_sectorsize).map fun shift =>
      (⟨fd, shift, none⟩, ⟨0, bchlib_setup geo_nsectors geo_sectorsize false, []⟩)

end Hcrtos.Native.DiskIo
