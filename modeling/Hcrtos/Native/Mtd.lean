import Mathlib.Algebra.Ring.Int.Defs
import Mathlib.Algebra.Ring.Nat

/-!
# Flash partitions

`third_party/nuttx/drivers/mtd/mtd_partition.c` and the loop of `mtd_device_register` in
`drivers/mtd/mtd-porting.c`: a partition passes each access on to the driver of the whole flash,
with the offset of the partition added. `off_t` has 64 bits with a sign, `size_t` has 32 without.
-/

namespace Hcrtos.Native.Mtd

def ENXIO : Int := 6
def ENOSYS : Int := 88

/-- The value of `off_t` that a sum or product wraps around to. -/
def off_t (x : Int) : Int := (x + 2 ^ 63) % 2 ^ 64 - 2 ^ 63

/-- What `mtd_device_register` reads from the `struct mtd_info` of a flash. An erase block is a
    multiple of a write block. -/
structure MtdInfo where
  /-- The type is `MTD_NORFLASH`. -/
  norflash : Bool
  size : Nat
  erasesize : Nat
  writesize : Nat
  oobavail : Nat
  read_oob : Bool
  write_oob : Bool
  block_isbad : Bool
  block_markbad : Bool
  erasesize_pos : 0 < erasesize
  erasesize_lt : erasesize < 2 ^ 32
  writesize_pos : 0 < writesize
  writesize_dvd : writesize ∣ erasesize

/-- The `writesize` of the master device, which is the `blocksize` of its geometry. -/
def MtdInfo.blocksize (mtd : MtdInfo) : Nat := if mtd.norflash then mtd.erasesize else mtd.writesize

/-- The `neraseblocks` of the geometry. -/
def MtdInfo.neraseblocks (mtd : MtdInfo) : Nat := mtd.size / mtd.erasesize % 2 ^ 32

/-- The number of blocks in an erase block. -/
def MtdInfo.blkpererase (mtd : MtdInfo) : Nat := mtd.erasesize / mtd.blocksize

/-- `struct mtd_partition_s`. -/
structure Partition where
  firstblock : Nat
  neraseblocks : Nat
  blocksize : Nat
  blkpererase : Nat
  deriving DecidableEq

/-- `mtd_partition`; `firstblock` and `nblocks` are not negative. -/
def mtd_partition (mtd : MtdInfo) (firstblock nblocks : Nat) : Option Partition :=
  let blkpererase := mtd.blkpererase
  let erasestart := (firstblock + blkpererase - 1) / blkpererase
  let eraseend := (firstblock + nblocks) / blkpererase
  if erasestart ≥ eraseend then none
  else
    let devblocks := blkpererase * mtd.neraseblocks % 2 ^ 32
    if eraseend > devblocks then none
    else
      some {
        firstblock := erasestart * blkpererase
        neraseblocks := eraseend - erasestart
        blocksize := mtd.blocksize
        -- the field has 16 bits
        blkpererase := blkpererase % 2 ^ 16 }

/-- The `reg` property of a partition in the device tree. -/
structure Description where
  start : UInt32
  size : UInt32

/-- The region of partition `i`. By default the first one is the entire flash. -/
def region (mtd : MtdInfo) (i : Nat) (d : Description) : Nat × Nat :=
  if i = 0 ∧ d.size = 0 then (0, mtd.size % 2 ^ 32) else (d.start.toNat, d.size.toNat)

/-- The partition `i` of the loop. -/
def register (mtd : MtdInfo) (i : Nat) (d : Description) : Option Partition :=
  let (start, size) := region mtd i d
  mtd_partition mtd (start / mtd.blocksize) (size / mtd.blocksize)

/-- The loop of `mtd_device_register` from partition `i` on, which ends at the first failure. -/
def registerFrom (mtd : MtdInfo) : Nat → List Description → List Partition
  | _, [] => []
  | i, d :: ds =>
    match register mtd i d with
    | none => []
    | some part => part :: registerFrom mtd (i + 1) ds

/-- The partitions that `mtd_device_register` creates. -/
def mtd_device_register (mtd : MtdInfo) (ds : List Description) : List Partition :=
  registerFrom mtd 0 ds

/-- The calls of the driver of the whole flash. -/
inductive DriverCall where
  | erase (startblock : Int) (nblocks : Nat)
  | bread (startblock : Int) (nblocks : Nat)
  | bwrite (startblock : Int) (nblocks : Nat)
  | read (offset : Int) (nbytes : Nat)
  | write (offset : Int) (nbytes : Nat)
  | write_oob (offset data_len oob_len : Int)
  | read_oob (offset data_len oob_len : Int)
  | block_markbad (block_no : Int)
  | block_isbad (block_no : Int)
  | memerase (start length : Nat)

section Methods

variable (mtd : MtdInfo) (priv : Partition)

def part_blockcheck (block : Int) : Bool :=
  let partsize := off_t (priv.neraseblocks * priv.blkpererase)
  block < partsize

def part_bytecheck (byoff : Int) : Bool :=
  let erasesize := off_t (priv.blocksize * priv.blkpererase)
  let readend := (off_t (byoff + erasesize - 1)).tdiv erasesize
  readend ≤ priv.neraseblocks

def part_erase (startblock : Int64) (nblocks : UInt32) : Except Int DriverCall :=
  if ¬ part_blockcheck priv
      (off_t ((startblock.toInt + nblocks.toNat - 1) * priv.blkpererase)) then
    .error (- ENXIO)
  else
    let eoffset := priv.firstblock / priv.blkpererase
    .ok (.erase (off_t (startblock.toInt + eoffset)) nblocks.toNat)

def part_bread (startblock : Int64) (nblocks : UInt32) : Except Int DriverCall :=
  if ¬ part_blockcheck priv (off_t (startblock.toInt + nblocks.toNat - 1)) then .error (- ENXIO)
  else .ok (.bread (off_t (startblock.toInt + priv.firstblock)) nblocks.toNat)

def part_bwrite (startblock : Int64) (nblocks : UInt32) : Except Int DriverCall :=
  if ¬ part_blockcheck priv (off_t (startblock.toInt + nblocks.toNat - 1)) then .error (- ENXIO)
  else .ok (.bwrite (off_t (startblock.toInt + priv.firstblock)) nblocks.toNat)

/-- The offset in the flash. -/
def newoffset (offset : Int64) : Int :=
  off_t (offset.toInt + priv.firstblock * priv.blocksize)

def part_read (offset : Int64) (nbytes : UInt32) : Except Int DriverCall :=
  if ¬ part_bytecheck priv (off_t (offset.toInt + nbytes.toNat - 1)) then .error (- ENXIO)
  else .ok (.read (newoffset priv offset) nbytes.toNat)

def part_write (offset : Int64) (nbytes : UInt32) : Except Int DriverCall :=
  if ¬ part_bytecheck priv (off_t (offset.toInt + nbytes.toNat - 1)) then .error (- ENXIO)
  else .ok (.write (newoffset priv offset) nbytes.toNat)

def part_write_oob (offset : Int64) (data_len oob_len : Int32) : Except Int DriverCall :=
  if mtd.write_oob then
    if ¬ part_bytecheck priv (off_t (offset.toInt + data_len.toInt - 1)) then .error (- ENXIO)
    else .ok (.write_oob (newoffset priv offset) data_len.toInt oob_len.toInt)
  else .error (-ENOSYS)

def part_read_oob (offset : Int64) (data_len oob_len : Int32) : Except Int DriverCall :=
  if mtd.read_oob then
    if ¬ part_bytecheck priv (off_t (offset.toInt + data_len.toInt - 1)) then .error (- ENXIO)
    else .ok (.read_oob (newoffset priv offset) data_len.toInt oob_len.toInt)
  else .error (-ENOSYS)

def part_block_markbad (block_no : Int64) : Except Int DriverCall :=
  if mtd.block_markbad then
    if ¬ part_blockcheck priv (off_t (block_no.toInt * priv.blkpererase)) then .error (- ENXIO)
    else
      .ok (.block_markbad (off_t
        (block_no.toInt + (priv.firstblock / priv.blkpererase : Nat))))
  else .error (-ENOSYS)

def part_block_isbad (block_no : Int64) : Except Int DriverCall :=
  if mtd.block_isbad then
    if ¬ part_blockcheck priv (off_t (block_no.toInt * priv.blkpererase)) then .error (- ENXIO)
    else
      .ok (.block_isbad (off_t
        (block_no.toInt + (priv.firstblock / priv.blkpererase : Nat))))
  else .error (-ENOSYS)

/-- `MTDIOC_BULKERASE` of `part_ioctl`. -/
def part_bulkerase : Except Int DriverCall :=
  .ok (.erase (priv.firstblock / priv.blkpererase : Nat) priv.neraseblocks)

/-- `MTDIOC_MEMERASE` of `part_ioctl`. The fields of the `struct mtd_eraseinfo_s` have 32 bits. -/
def part_memerase (start length : UInt32) : Except Int DriverCall :=
  .ok (.memerase ((priv.firstblock * priv.blocksize + start.toNat) % 2 ^ 32) length.toNat)

end Methods

/-- The accesses to a partition device. -/
inductive Access where
  | erase (startblock : Int64) (nblocks : UInt32)
  | bread (startblock : Int64) (nblocks : UInt32)
  | bwrite (startblock : Int64) (nblocks : UInt32)
  | read (offset : Int64) (nbytes : UInt32)
  | write (offset : Int64) (nbytes : UInt32)
  | write_oob (offset : Int64) (data_len oob_len : Int32)
  | read_oob (offset : Int64) (data_len oob_len : Int32)
  | block_markbad (block_no : Int64)
  | block_isbad (block_no : Int64)
  | bulkerase
  | memerase (start length : UInt32)

/-- The error of an access, or what it passes on. -/
def Access.perform (mtd : MtdInfo) (priv : Partition) : Access → Except Int DriverCall
  | .erase startblock nblocks => part_erase priv startblock nblocks
  | .bread startblock nblocks => part_bread priv startblock nblocks
  | .bwrite startblock nblocks => part_bwrite priv startblock nblocks
  | .read offset nbytes => part_read priv offset nbytes
  | .write offset nbytes => part_write priv offset nbytes
  | .write_oob offset data_len oob_len => part_write_oob mtd priv offset data_len oob_len
  | .read_oob offset data_len oob_len => part_read_oob mtd priv offset data_len oob_len
  | .block_markbad block_no => part_block_markbad mtd priv block_no
  | .block_isbad block_no => part_block_isbad mtd priv block_no
  | .bulkerase => part_bulkerase priv
  | .memerase start length => part_memerase priv start length

end Hcrtos.Native.Mtd
