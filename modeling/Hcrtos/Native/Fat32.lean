import Mathlib.Data.List.Basic
import Mathlib.Logic.Function.Basic
import Hcrtos.ForStd.Lts

/-!
# Mounts and open files of the FAT file system

`third_party/FatFs/source/fs_fat32.c` and the table of `diskio.c`: `fat_bind` takes a disk slot and
registers the volume of the same number with FatFs, `fat_unbind` undoes it. A mount that is freed
stays in the model under its name, with `life` at `freed`, so that accesses to it can be seen. What
FatFs and the block driver answer is part of the label. The pathnames, the directories and the
contents of the files are left out.
-/

namespace Hcrtos.Native.Fat32

def FF_VOLUMES : Nat := 10
def MNT_FORCE : BitVec 32 := 1
def UMOUNT_FORCED : BitVec 8 := 8

def OK : Int := 0
def EPERM : Int := 1
def ENOENT : Int := 2
def EIO : Int := 5
def ENOMEM : Int := 12
def EACCES : Int := 13
def EFAULT : Int := 14
def EBUSY : Int := 16
def EEXIST : Int := 17
def ENODEV : Int := 19
def EINVAL : Int := 22
def ENFILE : Int := 23
def EROFS : Int := 30
def EPIPE : Int := 32
def ENOSYS : Int := 88
def ETIMEDOUT : Int := 116

/-- The results of FatFs. -/
inductive FRESULT where
  | FR_OK
  | FR_DISK_ERR
  | FR_INT_ERR
  | FR_NOT_READY
  | FR_NO_FILE
  | FR_NO_PATH
  | FR_INVALID_NAME
  | FR_DENIED
  | FR_EXIST
  | FR_INVALID_OBJECT
  | FR_WRITE_PROTECTED
  | FR_INVALID_DRIVE
  | FR_NOT_ENABLED
  | FR_NO_FILESYSTEM
  | FR_MKFS_ABORTED
  | FR_TIMEOUT
  | FR_LOCKED
  | FR_NOT_ENOUGH_CORE
  | FR_TOO_MANY_OPEN_FILES
  | FR_INVALID_PARAMETER
  deriving DecidableEq

def fatfs_errno : FRESULT → Int
  | .FR_OK => 0
  | .FR_NO_FILE | .FR_NO_PATH | .FR_NO_FILESYSTEM => -ENOENT
  | .FR_INVALID_NAME => -EINVAL
  | .FR_EXIST | .FR_INVALID_OBJECT => -EEXIST
  | .FR_NOT_ENABLED | .FR_INVALID_DRIVE | .FR_DISK_ERR | .FR_NOT_READY | .FR_INT_ERR => - EIO
  | .FR_WRITE_PROTECTED => -EROFS
  | .FR_MKFS_ABORTED | .FR_INVALID_PARAMETER => -EINVAL
  | .FR_DENIED => -EPERM
  | .FR_LOCKED => -EBUSY
  | .FR_TIMEOUT => -ETIMEDOUT
  | .FR_NOT_ENOUGH_CORE => -ENOMEM
  | .FR_TOO_MANY_OPEN_FILES => -ENFILE

/-- `struct geometry`. -/
structure Geometry where
  geo_available : Bool
  geo_mediachanged : Bool
  geo_writeenabled : Bool
  geo_sectorsize : Nat

/-- What happened to the memory of a mount. -/
inductive Life where
  | unused
  | live
  | freed
  deriving DecidableEq

abbrev MountId := Nat
abbrev FileId := Nat

/-- `struct fat_mountpt_s`. `i_private` tells whether the inode of the mount point refers to it. -/
structure Mountpt where
  life : Life
  fs_mounted : Bool
  pdrv : Nat
  files : List FileId
  i_private : Bool

/-- `struct file` and its `struct fat_file_s`; `fs` is the mount that it was opened on. -/
structure File where
  fs : MountId
  f_pos : Int
  append : Bool
  ff_bflags : BitVec 8

/-- The owner of a `struct fat_blkdrv`: a mount, or a running `mkfatfs`. -/
inductive Blkdrv where
  | mount (fs : MountId)
  | format (id : Nat)
  deriving DecidableEq

/-- The slots of the disks, the volumes of FatFs, the mounts, the slots of the running formats and
    the open files. The last two fields are history: whether a freed mount was accessed, and
    whether a call other than a close returned no error for a file of a freed mount. -/
structure State where
  FatfsDrives : Nat → Option Blkdrv
  FatFs : Nat → Option MountId
  mounts : MountId → Mountpt
  formats : Nat → Option Nat
  files : FileId → Option File
  touched : Bool
  unfenced : Bool

def init : State where
  FatfsDrives := fun _ => none
  FatFs := fun _ => none
  mounts := fun _ => ⟨.unused, false, 0, [], false⟩
  formats := fun _ => none
  files := fun _ => none
  touched := false
  unfenced := false

/-! ### Memory -/

def State.setMount (s : State) (fs : MountId) (m : Mountpt) : State :=
  { s with mounts := Function.update s.mounts fs m }

def State.setFile (s : State) (filep : FileId) (f : Option File) : State :=
  { s with files := Function.update s.files filep f }

/-- An access to the mount. -/
def State.touch (s : State) (fs : MountId) : State :=
  { s with touched := s.touched || decide ((s.mounts fs).life = .freed) }

/-- The pointer in the inode that the file was opened on. -/
def State.i_private (s : State) (f : File) : Option MountId :=
  if (s.mounts f.fs).i_private then some f.fs else none

/-- `list_add_tail(&ff->list, &fs->__files)`. -/
def State.list_add_tail (s : State) (fs : MountId) (ff : FileId) : State :=
  let s := s.touch fs
  let m := s.mounts fs
  s.setMount fs { m with files := m.files ++ [ff] }

/-- The file in front of `ff`; `none` is the head of the list, which is in the mount. -/
def Mountpt.prev (m : Mountpt) (ff : FileId) : Option FileId :=
  (m.files.takeWhile (· ≠ ff)).getLast?

/-- The file behind `ff`; `none` is the head of the list. -/
def Mountpt.next (m : Mountpt) (ff : FileId) : Option FileId :=
  (m.files.dropWhile (· ≠ ff)).tail.head?

/-- `list_del_init(&ff->list)`: it writes to the two neighbours. -/
def State.list_del_init (s : State) (fs : MountId) (ff : FileId) : State :=
  let m := s.mounts fs
  let s := if m.prev ff = none ∨ m.next ff = none then s.touch fs else s
  s.setMount fs { m with files := m.files.erase ff }

/-! ### Slots and volumes -/

/-- `fatfs_register_blkdrv`: the first free slot. -/
def State.fatfs_register_blkdrv (s : State) (blkdrv : Blkdrv) : Option (Nat × State) :=
  ((List.range FF_VOLUMES).find? fun i => (s.FatfsDrives i).isNone).map fun i =>
    (i, { s with FatfsDrives := Function.update s.FatfsDrives i (some blkdrv) })

def State.fatfs_unregister_blkdrv (s : State) (pdrv : Nat) (blkdrv : Blkdrv) : State :=
  if pdrv ≥ FF_VOLUMES then s
  else if s.FatfsDrives pdrv = some blkdrv then
    { s with FatfsDrives := Function.update s.FatfsDrives pdrv none }
  else s

/-- `f_mount` registers the volume. -/
def State.f_mount (s : State) (fs : MountId) (pdrv : Nat) : State :=
  { s with FatFs := Function.update s.FatFs pdrv (some fs) }

/-- `f_unmount` unregisters it. -/
def State.f_unmount (s : State) (pdrv : Nat) : State :=
  { s with FatFs := Function.update s.FatFs pdrv none }

/-! ### Mounts -/

/-- The four attempts of `fat_checkmount` to find the media. -/
def mediaPresent (geometry : List (Option Geometry)) : Bool :=
  (geometry.take 4).any fun geo => geo.any fun geo => geo.geo_available && !geo.geo_mediachanged

def fat_checkmount (s : State) (fs : Option MountId) (geometry : List (Option Geometry)) :
    Int × State :=
  match fs with
  | none => (-ENODEV, s)
  | some fs =>
    let s := s.touch fs
    let m := s.mounts fs
    if m.fs_mounted = true then
      if mediaPresent geometry then (OK, s)
      else (-ENODEV, s.setMount fs { m with fs_mounted := false })
    else (-ENODEV, s)

/-- `fat_mount`. `geo` is what the block driver says, and `res` the result of `f_mount`. -/
def fat_mount (s : State) (fs : MountId) (writeable : Bool) (geo : Option Geometry)
    (res : FRESULT) : Int × State :=
  let m := s.mounts fs
  match geo with
  | none => (-ENODEV, s.setMount fs { m with fs_mounted := false })
  | some geo =>
    if ¬ geo.geo_available then (-ENODEV, s.setMount fs { m with fs_mounted := false })
    else if writeable ∧ ¬ geo.geo_writeenabled then
      (-EACCES, s.setMount fs { m with fs_mounted := false })
    else if geo.geo_sectorsize ∉ [512, 1024, 2048, 4096] then
      (-EPERM, s.setMount fs { m with fs_mounted := false })
    else
      match s.fatfs_register_blkdrv (.mount fs) with
      | none => (-EBUSY, s.setMount fs { m with fs_mounted := false })
      | some (pdrv, s) =>
        let s := s.f_mount fs pdrv
        if res ≠ .FR_OK then
          let s := s.f_unmount pdrv
          let s := s.fatfs_unregister_blkdrv pdrv (.mount fs)
          (fatfs_errno res, s.setMount fs { m with pdrv := pdrv, fs_mounted := false })
        else (OK, s.setMount fs { m with pdrv := pdrv, fs_mounted := true })

/-- `fat_bind`, and the inode of the mount point, which refers to the mount afterwards. `opened`
    is the result of the block driver's open, and `fs` what `kmm_zalloc` answers. -/
def fat_bind (s : State) (opened : Bool) (fs : Option MountId) (geo : Option Geometry)
    (res : FRESULT) : Int × State :=
  if ¬ opened then (-ENODEV, s)
  else
    match fs with
    | none => (-ENOMEM, s)
    | some fs =>
      let s := s.setMount fs ⟨.live, false, 0, [], false⟩
      let (ret, s) := fat_mount s fs true geo res
      if ret ≠ 0 then (ret, s.setMount fs { s.mounts fs with life := .freed })
      else (OK, s.setMount fs { s.mounts fs with i_private := true })

/-- The flag that a forced unmount sets in the open files. -/
def State.force (s : State) (ffs : List FileId) : State :=
  { s with files := fun filep =>
      if filep ∈ ffs then
        (s.files filep).map fun f => { f with ff_bflags := f.ff_bflags ||| UMOUNT_FORCED }
      else s.files filep }

def fat_unbind (s : State) (fs : MountId) (flags : BitVec 32) : Int × State :=
  let m := s.mounts fs
  let s :=
    if m.fs_mounted = true then
      let s := s.f_unmount m.pdrv
      let s := s.fatfs_unregister_blkdrv m.pdrv (.mount fs)
      s.setMount fs { m with fs_mounted := false }
    else s
  if m.files ≠ [] ∧ flags &&& MNT_FORCE = 0 then
    (if flags ≠ 0 then -ENOSYS else -EBUSY, s)
  else
    let s := s.force m.files
    let s := s.fatfs_unregister_blkdrv m.pdrv (.mount fs)
    (OK, s.setMount fs { s.mounts fs with life := .freed })

/-! ### Files -/

/-- What the calls outside say: the block driver, `f_lseek` to the end of the file and the position
    behind it, the result of the operation, the number of bytes, `f_tell` and `f_size`. -/
structure Io where
  geometry : List (Option Geometry)
  lseek : FRESULT
  eof : Nat
  res : FRESULT
  nbytes : Nat
  tell : Nat
  size : Nat

/-- `fat_open`, where `zalloc` and `path` tell whether there was memory for them. -/
def fat_open (s : State) (fs : MountId) (filep : FileId) (append zalloc path : Bool) (io : Io) :
    Int × State :=
  let (ret, s) := fat_checkmount s (some fs) io.geometry
  if ret ≠ OK then (ret, s)
  else if ¬ zalloc then (-ENOMEM, s)
  else if ¬ path then (-ENOMEM, s)
  else if io.res ≠ .FR_OK then (fatfs_errno io.res, s)
  else if append ∧ io.lseek ≠ .FR_OK then (fatfs_errno io.lseek, s)
  else
    let f : File := ⟨fs, if append then io.eof else 0, append, 0⟩
    (OK, (s.setFile filep (some f)).list_add_tail fs filep)

def fat_close (s : State) (filep : FileId) (f : File) (io : Io) : Int × State :=
  let (ret, s) := fat_checkmount s (s.i_private f) io.geometry
  let ret := if ret = OK ∧ io.res ≠ .FR_OK then fatfs_errno io.res else ret
  let s := s.list_del_init f.fs filep
  (ret, s.setFile filep none)

def fat_read (s : State) (filep : FileId) (f : File) (io : Io) : Int × State :=
  let (ret, s) := fat_checkmount s (s.i_private f) io.geometry
  if ret ≠ OK then (ret, s)
  else if f.ff_bflags &&& UMOUNT_FORCED ≠ 0 then (-EPIPE, s)
  else if io.res ≠ .FR_OK then (fatfs_errno io.res, s)
  else (io.nbytes, s.setFile filep (some { f with f_pos := io.tell }))

def fat_write (s : State) (filep : FileId) (f : File) (io : Io) : Int × State :=
  if f.ff_bflags &&& UMOUNT_FORCED ≠ 0 then (-EPIPE, s)
  else
    let (ret, s) := fat_checkmount s (s.i_private f) io.geometry
    if ret ≠ OK then (ret, s)
    else if f.append ∧ io.lseek ≠ .FR_OK then (fatfs_errno io.lseek, s)
    else if io.res ≠ .FR_OK then
      (fatfs_errno io.res,
        s.setFile filep (some { f with f_pos := if f.append then io.eof else f.f_pos }))
    else (io.nbytes, s.setFile filep (some { f with f_pos := io.tell }))

inductive Whence where
  | SEEK_SET
  | SEEK_CUR
  | SEEK_END
  | other
  deriving DecidableEq

/-- The position that a seek asks for. -/
def position (f : File) (offset : Int) (io : Io) : Whence → Option Int
  | .SEEK_SET => some offset
  | .SEEK_CUR => some (offset + f.f_pos)
  | .SEEK_END => some (offset + io.size)
  | .other => none

def fat_seek (s : State) (filep : FileId) (f : File) (offset : Int) (whence : Whence) (io : Io) :
    Int × State :=
  if f.ff_bflags &&& UMOUNT_FORCED ≠ 0 then (-EPIPE, s)
  else
    match position f offset io whence with
    | none => (-EINVAL, s)
    | some position =>
      if position < 0 then (-EINVAL, s)
      else
        let (ret, s) := fat_checkmount s (s.i_private f) io.geometry
        if ret ≠ OK then (ret, s)
        else if io.res ≠ .FR_OK then (fatfs_errno io.res, s)
        else (io.tell, s.setFile filep (some { f with f_pos := io.tell }))

def fat_sync (s : State) (f : File) (io : Io) : Int × State :=
  if f.ff_bflags &&& UMOUNT_FORCED ≠ 0 then (-EPIPE, s)
  else
    let (ret, s) := fat_checkmount s (s.i_private f) io.geometry
    if ret ≠ OK then (ret, s) else (fatfs_errno io.res, s)

/-- `fat_dup`, where `malloc` tells whether there was memory. The new file is `newp`. -/
def fat_dup (s : State) (f : File) (newp : FileId) (malloc : Bool) (io : Io) : Int × State :=
  if f.ff_bflags &&& UMOUNT_FORCED ≠ 0 then (-EPIPE, s)
  else
    let (ret, s) := fat_checkmount s (s.i_private f) io.geometry
    if ret ≠ OK then (ret, s)
    else if ¬ malloc then (-ENOMEM, s)
    else (OK, (s.setFile newp (some { f with ff_bflags := 0 })).list_add_tail f.fs newp)

/-- `fat_fstat`, where `buf` tells whether there is a buffer. -/
def fat_fstat (s : State) (f : File) (buf : Bool) (io : Io) : Int × State :=
  if ¬ buf then (-EFAULT, s)
  else fat_checkmount s (s.i_private f) io.geometry

inductive Call where
  | read
  | write
  | seek (offset : Int) (whence : Whence)
  | sync
  | fstat (buf : Bool)
  | dup (newp : FileId) (malloc : Bool)
  | close
  deriving DecidableEq

/-- The return value of a call and the state. -/
def Call.perform (s : State) (filep : FileId) (f : File) (io : Io) : Call → Int × State
  | .read => fat_read s filep f io
  | .write => fat_write s filep f io
  | .seek offset whence => fat_seek s filep f offset whence io
  | .sync => fat_sync s f io
  | .fstat buf => fat_fstat s f buf io
  | .dup newp malloc => fat_dup s f newp malloc io
  | .close => fat_close s filep f io

/-- The return value is recorded. -/
def State.returned (s : State) (f : File) (c : Call) (ret : Int) : State :=
  { s with unfenced := s.unfenced ||
      decide (c ≠ .close ∧ (s.mounts f.fs).life = .freed ∧ 0 ≤ ret) }

inductive Action where
  | bind (opened : Bool) (fs : Option MountId) (geo : Option Geometry) (res : FRESULT)
  | unbind (fs : MountId) (flags : BitVec 32)
  /-- The umount clears the inode after the mount was unbound. -/
  | detach (fs : MountId)
  /-- A function other than those of open files checks the mount. -/
  | checkmount (fs : MountId) (geometry : List (Option Geometry))
  | openFile (fs : MountId) (filep : FileId) (append zalloc path : Bool) (io : Io)
  | file (filep : FileId) (c : Call) (io : Io)
  /-- `mkfatfs` up to its registration, when the disk is open and has a geometry. -/
  | mkfatfs (id : Nat) (geo : Geometry)
  /-- The rest of `mkfatfs`. -/
  | formatted (id : Nat)

/-- The names that a call gives to new files are not in use. -/
def Call.fresh (s : State) : Call → Bool
  | .dup newp _ => (s.files newp).isNone
  | _ => true

/-- The start of `mkfatfs`: without a usable disk or a free slot it returns at once. -/
def mkfatfs (s : State) (id : Nat) (geo : Geometry) : State :=
  if ¬ geo.geo_available ∨ ¬ geo.geo_writeenabled then s
  else if geo.geo_sectorsize ∉ [512, 1024, 2048, 4096] then s
  else
    match s.fatfs_register_blkdrv (.format id) with
    | none => s
    | some (pdrv, s) => { s with formats := Function.update s.formats id (some pdrv) }

/-- The step function. A mount is bound under a new name; only live mounts are unbound, checked and
    opened on. -/
def step (s : State) : Action → Option State
  | .bind opened fs geo res =>
    if fs.all fun fs => (s.mounts fs).life = .unused then some (fat_bind s opened fs geo res).2
    else none
  | .unbind fs flags =>
    if (s.mounts fs).life = .live then some (fat_unbind s fs flags).2 else none
  | .detach fs =>
    if (s.mounts fs).life = .freed then
      some (s.setMount fs { s.mounts fs with i_private := false })
    else none
  | .checkmount fs geometry =>
    if (s.mounts fs).life = .live then some (fat_checkmount s (some fs) geometry).2 else none
  | .openFile fs filep append zalloc path io =>
    if (s.mounts fs).life = .live ∧ s.files filep = none then
      some (fat_open s fs filep append zalloc path io).2
    else none
  | .file filep c io =>
    match s.files filep with
    | none => none
    | some f =>
      if c.fresh s then
        let (ret, s) := c.perform s filep f io
        some (s.returned f c ret)
      else none
  | .mkfatfs id geo => if s.formats id = none then some (mkfatfs s id geo) else none
  | .formatted id =>
    match s.formats id with
    | none => none
    | some pdrv =>
      let s := s.fatfs_unregister_blkdrv pdrv (.format id)
      some { s with formats := Function.update s.formats id none }

end Hcrtos.Native.Fat32
