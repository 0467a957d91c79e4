import Hcrtos.ForStd.Loop
import Hcrtos.ForStd.Memory
import Hcrtos.ForStd.Word

/-!
# DOS partition tables

`fs_smbr.c`: the primary table, the chain of extended partitions, and the tables of other
systems inside of a partition. A disk answers each read of a sector with the bytes of the
buffer, or with a failure (of the device or of the allocation of the buffer); the answer may
differ from read to read. The one loop without a bound of its own, that of `parse_extended`,
runs on a fuel.
-/

namespace Hcrtos.Native.Smbr

open Memory Word

def EFI_PMBR_OSTYPE_EFI_GPT : Nat := 0xEE
def MINIX_NR_SUBPARTITIONS : Nat := 4
def OPENBSD_MAXPARTITIONS : Nat := 16
def BSD_MAXPARTITIONS : Nat := 16
def BSD_DISKMAGIC : Nat := 0x82564557
def UNIXWARE_DISKMAGIC : Nat := 0xCA5E600D
def UNIXWARE_DISKMAGIC2 : Nat := 0x600DDEEE
def UNIXWARE_NUMSLICE : Nat := 16
def UNIXWARE_FS_UNUSED : Nat := 0
def SOLARIS_X86_NUMSLICE : Nat := 16
def SOLARIS_X86_VTOC_SANE : Nat := 0x600DDEEE
def BSD_FS_UNUSED : Nat := 0
def MAX_PART : Nat := 32

def DOS_EXTENDED_PARTITION : Nat := 5
def LINUX_EXTENDED_PARTITION : Nat := 0x85
def WIN98_EXTENDED_PARTITION : Nat := 0x0f
def LINUX_SWAP_PARTITION : Nat := 0x82
def LINUX_DATA_PARTITION : Nat := 0x83
def LINUX_LVM_PARTITION : Nat := 0x8e
def LINUX_RAID_PARTITION : Nat := 0xfd
def SOLARIS_X86_PARTITION : Nat := LINUX_SWAP_PARTITION
def NEW_SOLARIS_X86_PARTITION : Nat := 0xbf
def FREEBSD_PARTITION : Nat := 0xa5
def OPENBSD_PARTITION : Nat := 0xa6
def NETBSD_PARTITION : Nat := 0xa9
def MINIX_PARTITION : Nat := 0x81
def UNIXWARE_PARTITION : Nat := 0x63

/-- The answer to the `k`-th read, of the sector at a position. -/
abbrev Disk := Nat → Nat → Option Mem

/-- What `put_partition` hands to the handler. -/
structure PEntry where
  index : Nat
  firstblock : Nat
  nblocks : Nat
  deriving DecidableEq

/-- `struct parsed_partitions`, with the entries that the handler got so far and the number of
    sectors asked for so far. -/
structure State where
  next : Nat
  limit : Nat
  handled : List PEntry
  reads : Nat

/-- `put_partition`. -/
def put_partition (st : State) (n start size : Nat) : State :=
  if n < st.limit ∧ size > 0 then { st with handled := st.handled ++ [⟨n, start, size⟩] } else st

/-- `put_partition(state, state->next++, from, size)`. -/
def put_next (st : State) (start size : Nat) : State :=
  { put_partition st st.next start size with next := st.next + 1 }

/-- `read_dev_sector`. -/
def read_dev_sector (disk : Disk) (st : State) (sec_pos : Nat) : Option Mem × State :=
  (disk st.reads sec_pos, { st with reads := st.reads + 1 })

/-- The little-endian half word at `a`. -/
def load16 (m : Mem) (a : Nat) : Nat := (m a).toNat + 2 ^ 8 * (m (a + 1)).toNat

/-! ### `struct partition` at the offset `p` -/

def boot_ind (data : Mem) (p : Nat) : Nat := (data p).toNat
def SYS_IND (data : Mem) (p : Nat) : Nat := (data (p + 4)).toNat
def START_SECT (data : Mem) (p : Nat) : Nat := load32 data (p + 8)
def NR_SECTS (data : Mem) (p : Nat) : Nat := load32 data (p + 12)

/-- The offset of the `i`-th entry of a partition table. -/
def entry (i : Nat) : Nat := 0x1be + 16 * i

/-- `is_extended_partition`. -/
def is_extended_partition (data : Mem) (p : Nat) : Bool :=
  SYS_IND data p = DOS_EXTENDED_PARTITION ∨ SYS_IND data p = WIN98_EXTENDED_PARTITION ∨
    SYS_IND data p = LINUX_EXTENDED_PARTITION

/-- `msdos_magic_present(data + 510)`. -/
def msdos_magic_present (data : Mem) : Bool := data 510 = 0x55 ∧ data 511 = 0xAA

/-- `aix_magic_present`. -/
def aix_magic_present (disk : Disk) (data : Mem) (st : State) : Bool × State :=
  if ¬ (data 0 = 0xC9 ∧ data 1 = 0xC2 ∧ data 2 = 0xD4 ∧ data 3 = 0xC1) then (false, st)
  else if [0, 1, 2, 3].any fun i =>
      SYS_IND data (entry i) = LINUX_SWAP_PARTITION ∨
      SYS_IND data (entry i) = LINUX_RAID_PARTITION ∨
      SYS_IND data (entry i) = LINUX_DATA_PARTITION ∨
      SYS_IND data (entry i) = LINUX_LVM_PARTITION ∨
      is_extended_partition data (entry i) then (false, st)
  else
    match read_dev_sector disk st 7 with
    | (none, st) => (false, st)
    | (some d, st) =>
      (decide (d 0 = '_'.toUInt8 ∧ d 1 = 'L'.toUInt8 ∧ d 2 = 'V'.toUInt8 ∧ d 3 = 'M'.toUInt8), st)

/-! ### The extended chain -/

/-- The local variables of `parse_extended`. -/
structure Chain where
  st : State
  this_sector : Nat
  this_size : Nat
  loopct : Nat

/-- The loop over the data partitions of one table, for the entries `is` to come; the flag
    tells whether it was left by `goto done`. -/
def dataPartitions (data : Mem) (first_sector first_size : Nat) :
    List Nat → Chain → Chain × Bool
  | [], c => (c, false)
  | i :: is, c =>
    let p := entry i
    if NR_SECTS data p = 0 ∨ is_extended_partition data p then
      dataPartitions data first_sector first_size is c
    else
      let offs := START_SECT data p
      let size := NR_SECTS data p
      let next := add32 c.this_sector offs
      if i ≥ 2 ∧ (add32 offs size > c.this_size ∨ next < first_sector ∨
          add32 next size > add32 first_sector first_size) then
        dataPartitions data first_sector first_size is c
      else
        let c := { c with st := put_next c.st next size, loopct := 0 }
        if c.st.next = c.st.limit then (c, true)
        else dataPartitions data first_sector first_size is c

/-- One round of the loop of `parse_extended`. -/
def extendedBody (disk : Disk) (first_sector first_size : Nat) (c : Chain) : State ⊕ Chain :=
  let c := { c with loopct := c.loopct + 1 }
  if c.loopct > 100 then .inl c.st
  else if c.st.next = c.st.limit then .inl c.st
  else
    match read_dev_sector disk c.st c.this_sector with
    | (none, st) => .inl st
    | (some data, st) =>
      let c := { c with st := st }
      if msdos_magic_present data = false then .inl c.st
      else
        let (c, full) := dataPartitions data first_sector first_size [0, 1, 2, 3] c
        if full then .inl c.st
        else
          match [0, 1, 2, 3].find? fun i =>
              NR_SECTS data (entry i) ≠ 0 ∧ is_extended_partition data (entry i) with
          | none => .inl c.st
          | some i =>
            .inr { c with
              this_sector := add32 first_sector (START_SECT data (entry i))
              this_size := NR_SECTS data (entry i) }

/-- `parse_extended`. -/
def parse_extended (disk : Disk) (fuel : Nat) (st : State) (first_sector first_size : Nat) :
    Option State :=
  Loop.loop (extendedBody disk first_sector first_size) fuel ⟨st, first_sector, first_size, 0⟩

/-! ### The tables of other systems -/

/-- The slices `is` of a Solaris table. -/
def solarisSlices (v : Mem) (offset : Nat) : List Nat → State → State
  | [], st => st
  | i :: is, st =>
    if st.next < st.limit then
      let s := 72 + 12 * i
      if load32 v (s + 8) = 0 then solarisSlices v offset is st
      else
        solarisSlices v offset is (put_next st (add32 (load32 v (s + 4)) offset) (load32 v (s + 8)))
    else st

/-- `parse_solaris_x86`. -/
def parse_solaris_x86 (disk : Disk) (st : State) (offset _size : Nat) : State :=
  match read_dev_sector disk st (add32 offset 1) with
  | (none, st) => st
  | (some v, st) =>
    if load32 v 12 ≠ SOLARIS_X86_VTOC_SANE then st
    else if load32 v 16 ≠ 1 then st
    else solarisSlices v offset (List.range SOLARIS_X86_NUMSLICE) st

/-- The entries `is` of a BSD disk label. -/
def bsdPartitions (l : Mem) (offset size : Nat) : List Nat → State → State
  | [], st => st
  | i :: is, st =>
    let p := 148 + 16 * i
    if st.next = st.limit then st
    else if (l (p + 12)).toNat = BSD_FS_UNUSED then bsdPartitions l offset size is st
    else
      let bsd_start := load32 l (p + 4)
      let bsd_size := load32 l p
      if offset = bsd_start ∧ size = bsd_size then bsdPartitions l offset size is st
      else if offset > bsd_start ∨ add32 offset size < add32 bsd_start bsd_size then
        bsdPartitions l offset size is st
      else bsdPartitions l offset size is (put_next st bsd_start bsd_size)

/-- `parse_bsd`. -/
def parse_bsd (disk : Disk) (st : State) (offset size max_partitions : Nat) : State :=
  match read_dev_sector disk st (add32 offset 1) with
  | (none, st) => st
  | (some l, st) =>
    if load32 l 0 ≠ BSD_DISKMAGIC then st
    else
      let max_partitions := if load16 l 138 < max_partitions then load16 l 138 else max_partitions
      bsdPartitions l offset size (List.range max_partitions) st

def parse_freebsd (disk : Disk) (st : State) (offset size : Nat) : State :=
  parse_bsd disk st offset size BSD_MAXPARTITIONS

def parse_netbsd (disk : Disk) (st : State) (offset size : Nat) : State :=
  parse_bsd disk st offset size BSD_MAXPARTITIONS

def parse_openbsd (disk : Disk) (st : State) (offset size : Nat) : State :=
  parse_bsd disk st offset size OPENBSD_MAXPARTITIONS

/-- The slices `is` of a UnixWare table. -/
def unixwareSlices (l : Mem) : List Nat → State → State
  | [], st => st
  | i :: is, st =>
    let p := 216 + 12 * i
    if st.next = st.limit then st
    else if load16 l p ≠ UNIXWARE_FS_UNUSED then
      unixwareSlices l is (put_next st (load32 l (p + 4)) (load32 l (p + 8)))
    else unixwareSlices l is st

/-- `parse_unixware`. The slice 0 is the whole disk. -/
def parse_unixware (disk : Disk) (st : State) (offset _size : Nat) : State :=
  match read_dev_sector disk st (add32 offset 29) with
  | (none, st) => st
  | (some l, st) =>
    if load32 l 4 ≠ UNIXWARE_DISKMAGIC ∨ load32 l 156 ≠ UNIXWARE_DISKMAGIC2 then st
    else unixwareSlices l (List.range' 1 (UNIXWARE_NUMSLICE - 1)) st

/-- The entries `is` of a Minix table. -/
def minixPartitions (data : Mem) : List Nat → State → State
  | [], st => st
  | i :: is, st =>
    let p := entry i
    if st.next = st.limit then st
    else if SYS_IND data p = MINIX_PARTITION then
      minixPartitions data is (put_next st (START_SECT data p) (NR_SECTS data p))
    else minixPartitions data is st

/-- `parse_minix`. -/
def parse_minix (disk : Disk) (st : State) (offset _size : Nat) : State :=
  match read_dev_sector disk st offset with
  | (none, st) => st
  | (some data, st) =>
    if msdos_magic_present data ∧ SYS_IND data (entry 0) = MINIX_PARTITION then
      minixPartitions data (List.range MINIX_NR_SUBPARTITIONS) st
    else st

/-- `subtypes`. -/
def subtypes : List (Nat × (Disk → State → Nat → Nat → State)) :=
  [(FREEBSD_PARTITION, parse_freebsd),
   (NETBSD_PARTITION, parse_netbsd),
   (OPENBSD_PARTITION, parse_openbsd),
   (MINIX_PARTITION, parse_minix),
   (UNIXWARE_PARTITION, parse_unixware),
   (SOLARIS_X86_PARTITION, parse_solaris_x86),
   (NEW_SOLARIS_X86_PARTITION, parse_solaris_x86)]

/-! ### The primary table -/

/-- The first pass over the primary entries, for the slots `slots` to come. -/
def firstPass (disk : Disk) (fuel : Nat) (data : Mem) : List Nat → State → Option State
  | [], st => some st
  | slot :: slots, st =>
    let p := entry (slot - 1)
    let start := START_SECT data p
    let size := NR_SECTS data p
    if size = 0 then firstPass disk fuel data slots st
    else if is_extended_partition data p then
      let st := put_partition st slot start (if size = 1 then 1 else 2)
      (parse_extended disk fuel st start size).bind (firstPass disk fuel data slots)
    else firstPass disk fuel data slots (put_partition st slot start size)

/-- The second pass, inside of the primary partitions. -/
def secondPass (disk : Disk) (data : Mem) : List Nat → State → State
  | [], st => st
  | slot :: slots, st =>
    let p := entry (slot - 1)
    if NR_SECTS data p = 0 then secondPass disk data slots st
    else
      match subtypes.find? fun t => t.1 = SYS_IND data p with
      | none => secondPass disk data slots st
      | some t =>
        secondPass disk data slots (t.2 disk st (START_SECT data p) (NR_SECTS data p))

/-- `check_msdos_partition`: its return value and the partitions; `none` when the fuel runs
    out. -/
def check_msdos_partition (disk : Disk) (fuel : Nat) (st : State) : Option (Int × State) :=
  match read_dev_sector disk st 0 with
  | (none, st) => some (-1, st)
  | (some data, st) =>
    if msdos_magic_present data = false then some (0, st)
    else
      let (aix, st) := aix_magic_present disk data st
      if aix then some (0, st)
      else if [1, 2, 3, 4].any fun slot =>
          boot_ind data (entry (slot - 1)) ≠ 0 ∧ boot_ind data (entry (slot - 1)) ≠ 0x80 then
        some (0, st)
      else if [1, 2, 3, 4].any fun slot =>
          SYS_IND data (entry (slot - 1)) = EFI_PMBR_OSTYPE_EFI_GPT then
        some (0, st)
      else
        (firstPass disk fuel data [1, 2, 3, 4] { st with next := 5 }).map fun st =>
          (1, secondPass disk data [1, 2, 3, 4] st)

/-- `parse_mbr_partition`: its return value, and the entries that the handler got. -/
def parse_mbr_partition (disk : Disk) (fuel : Nat) : Option (Int × List PEntry) :=
  (check_msdos_partition disk fuel ⟨0, MAX_PART, [], 0⟩).map fun (_, st) =>
    (if st.next ≠ 0 then (st.next : Int) else -1, st.handled)

end Hcrtos.Native.Smbr
