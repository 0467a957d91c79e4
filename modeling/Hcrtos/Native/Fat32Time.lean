import Hcrtos.Native.Fat32

/-!
# Times of the FAT file system

`get_fattime` of `diskio.c` packs the local time into a stamp, which `ff.c` stores in a directory
entry. `fat_stat` of `fs_fat32.c` unpacks it. The functions of the C library are parameters.
-/

namespace Hcrtos.Native.Fat32

/-- `struct tm`. -/
structure Tm where
  tm_sec : Int
  tm_min : Int
  tm_hour : Int
  tm_mday : Int
  tm_mon : Int
  tm_year : Int
  tm_wday : Int
  tm_yday : Int
  tm_isdst : Int

/-- `(DWORD)x` for an `int`. -/
def DWORD (x : Int) : BitVec 32 := .ofInt 32 x

/-- `(WORD)x` for an `int`, as a part of a `DWORD`. -/
def WORD (x : BitVec 32) : BitVec 32 := (x.setWidth 16).setWidth 32

/-- `get_fattime` at the time `t`. -/
def get_fattime (localtime_r : Int → Tm) (t : Int) : BitVec 32 :=
  let tmr := localtime_r t
  let year := if tmr.tm_year < 80 then 0 else tmr.tm_year - 80
  (DWORD year <<< 25) ||| (DWORD (tmr.tm_mon + 1) <<< 21) ||| (DWORD tmr.tm_mday <<< 16) |||
    WORD (BitVec.ofInt 32 tmr.tm_hour <<< 11) ||| WORD (BitVec.ofInt 32 tmr.tm_min <<< 5) |||
    WORD ((BitVec.ofInt 32 tmr.tm_sec).sshiftRight 1)

/-! ### Directory entries -/

/-- `ld_16`. -/
def ld_16 (ptr : Nat → BitVec 8) (i : Nat) : BitVec 16 := ptr (i + 1) ++ ptr i

/-- `st_32`. -/
def st_32 (ptr : Nat → BitVec 8) (i : Nat) (val : BitVec 32) : Nat → BitVec 8 :=
  let ptr := Function.update ptr i (val.setWidth 8)
  let ptr := Function.update ptr (i + 1) ((val >>> 8).setWidth 8)
  let ptr := Function.update ptr (i + 2) ((val >>> 16).setWidth 8)
  Function.update ptr (i + 3) ((val >>> 24).setWidth 8)

/-- `FILINFO`, without the names. -/
structure FILINFO where
  fsize : BitVec 64
  fdate : BitVec 16
  ftime : BitVec 16
  crdate : BitVec 16
  crtime : BitVec 16
  fattrib : BitVec 8

/-- The times in `get_fileinfo`: `ModTime` and `CrtTime` are the places of the stamps, which depend
    on the kind of the entry. -/
def get_fileinfo (fno : FILINFO) (dir : Nat → BitVec 8) (ModTime CrtTime : Nat) : FILINFO :=
  { fno with
    ftime := ld_16 dir ModTime
    fdate := ld_16 dir (ModTime + 2)
    crtime := ld_16 dir CrtTime
    crdate := ld_16 dir (CrtTime + 2) }

/-! ### `fat_stat` -/

def AM_RDO : BitVec 8 := 0x01
def AM_DIR : BitVec 8 := 0x10

def S_IRWXU : BitVec 32 := 0o700
def S_IRWXG : BitVec 32 := 0o070
def S_IRWXO : BitVec 32 := 0o007
def S_IWUSR : BitVec 32 := 0o200
def S_IWGRP : BitVec 32 := 0o020
def S_IWOTH : BitVec 32 := 0o002
def S_IFDIR : BitVec 32 := 0o040000
def S_IFREG : BitVec 32 := 0o100000

/-- The part of `struct stat` that `fat_stat` writes. -/
structure Stat where
  st_mode : BitVec 32
  st_size : BitVec 64
  st_blksize : Int
  st_mtime : Int
  st_ctime : Int
  st_atime : Int

/-- The broken-down time of a `fat_date_t` and a `fat_time_t`, whose fields start at the lowest
    bit. -/
def brokenDown (fdate ftime : BitVec 16) : Tm where
  tm_mday := (fdate.extractLsb' 0 5).toNat
  tm_mon := (fdate.extractLsb' 5 4).toNat - 1
  tm_year := (fdate.extractLsb' 9 7).toNat + 80
  tm_sec := (ftime.extractLsb' 0 5).toNat * 2
  tm_min := (ftime.extractLsb' 5 6).toNat
  tm_hour := (ftime.extractLsb' 11 5).toNat
  tm_wday := 0
  tm_yday := 0
  tm_isdst := 0

/-- `fat_stat`. `path` tells whether there was memory for it, and `f_stat` is what FatFs answers. -/
def fat_stat (mktime : Tm → Int) (s : State) (fs : MountId) (geometry : List (Option Geometry))
    (fs_hwsectorsize : Int) (relpath : String) (path : Bool) (f_stat : FRESULT × FILINFO)
    (buf : Stat) : Int × State × Stat :=
  let (ret, s) := fat_checkmount s (some fs) geometry
  if ret ≠ OK then (ret, s, buf)
  else if relpath = "" then
    (OK, s, { buf with
      st_size := 0
      st_mode := S_IRWXU ||| S_IRWXG ||| S_IRWXO ||| S_IFDIR
      st_blksize := fs_hwsectorsize })
  else if ¬ path then (-ENOMEM, s, buf)
  else
    let (res, finfo) := f_stat
    if res ≠ .FR_OK then (fatfs_errno res, s, buf)
    else
      -- the source lists the nine permissions
      let st_mode := S_IFREG ||| S_IRWXU ||| S_IRWXG ||| S_IRWXO
      let st_mode :=
        if finfo.fattrib &&& AM_RDO ≠ 0 then st_mode &&& ~~~(S_IWUSR ||| S_IWGRP ||| S_IWOTH)
        else st_mode
      let st_mode :=
        if finfo.fattrib &&& AM_DIR ≠ 0 then st_mode &&& ~~~S_IFREG ||| S_IFDIR else st_mode
      (OK, s,
        { st_mode := st_mode
          st_size := finfo.fsize
          st_blksize := fs_hwsectorsize
          st_mtime := mktime (brokenDown finfo.fdate finfo.ftime)
          st_ctime := mktime (brokenDown finfo.crdate finfo.crtime)
          st_atime := 0 })

end Hcrtos.Native.Fat32
