import Hcrtos.Spec.CopyFrameCorrect

/-!
# The big-endian routines

A big-endian routine should convert a sample as its sibling converts the sample with its bytes
swapped. `S16BETOS16` lacks the sign, which only the mean of two samples shows, and the routines
for 32 bits read memory at the address that a sample makes.

## Key results

- `agrees_iff`: when a routine and its sibling agree
-/

namespace Hcrtos.Native.CopyFrame

open Memory

def bswap16 (x : BitVec 16) : BitVec 16 := BitVec.ofNat 16 (x.toNat % 2 ^ 8 * 2 ^ 8 + x.toNat / 2 ^ 8)

def bswap32 (x : BitVec 32) : BitVec 32 :=
  BitVec.ofNat 32 (x.toNat % 2 ^ 8 * 2 ^ 24 + x.toNat / 2 ^ 8 % 2 ^ 8 * 2 ^ 16 +
    x.toNat / 2 ^ 16 % 2 ^ 8 * 2 ^ 8 + x.toNat / 2 ^ 24)

/-- The first two bytes of a sample, high byte first. -/
def firstBytes {w : Nat} (x : BitVec w) : Nat := x.toNat % 2 ^ 8 * 2 ^ 8 + x.toNat / 2 ^ 8 % 2 ^ 8

/-- The two bytes at the address that a sample makes, high byte first. -/
def bytesThere (m : Mem) (x : BitVec 32) : Nat :=
  (m x.toNat).toNat * 2 ^ 8 + (m ((x.toNat + 1) % 2 ^ 32)).toNat

theorem firstBytes_lt {w : Nat} (x : BitVec w) : firstBytes x < 2 ^ 16 := by
  unfold firstBytes
  omega

theorem bytesThere_lt (m : Mem) (x : BitVec 32) : bytesThere m x < 2 ^ 16 := by
  have h0 := (m x.toNat).toNat_lt
  have h1 := (m ((x.toNat + 1) % 2 ^ 32)).toNat_lt
  unfold bytesThere
  omega

/-- Two bytes that are shifted together. -/
theorem shift_or {a b : Nat} (hb : b < 2 ^ 8) : a <<< 8 ||| b <<< 0 = a * 2 ^ 8 + b := by
  rw [Nat.shiftLeft_zero, ← Nat.shiftLeft_add_eq_or_of_lt hb, Nat.shiftLeft_eq]

theorem S16BETOS16_eq (x : BitVec 16) : S16BETOS16 x = firstBytes x := by
  unfold S16BETOS16 _READ firstBytes
  rw [shift_or (Nat.mod_lt _ (by decide)), Nat.shiftRight_eq_div_pow, Nat.shiftRight_eq_div_pow]
  simp

theorem S32BETOS16_eq (m : Mem) (x : BitVec 32) : S32BETOS16 m x = bytesThere m x := by
  unfold S32BETOS16 _READ_AT bytesThere
  rw [shift_or (UInt8.toNat_lt _), Nat.add_zero, Nat.mod_eq_of_lt x.isLt]

/-- The signed number that two bytes are. -/
def signed (v : Nat) : Int := if v < 2 ^ 15 then v else v - 2 ^ 16

theorem toNat_bswap16 (x : BitVec 16) : (bswap16 x).toNat = firstBytes x := by
  have hlt := x.isLt
  have hhi : x.toNat / 2 ^ 8 < 2 ^ 8 := by omega
  unfold bswap16 firstBytes
  -- swapping two bytes puts the first in memory on top
  rw [BitVec.toNat_ofNat, Nat.mod_eq_of_lt hhi, Nat.mod_eq_of_lt (by omega)]

theorem toNat_bswap32 (x : BitVec 32) : (bswap32 x).toNat / 2 ^ 16 = firstBytes x := by
  have hlt := x.isLt
  have hb0 := Nat.mod_lt x.toNat (show 2 ^ 8 > 0 by decide)
  have hb1 := Nat.mod_lt (x.toNat / 2 ^ 8) (show 2 ^ 8 > 0 by decide)
  have hb2 := Nat.mod_lt (x.toNat / 2 ^ 16) (show 2 ^ 8 > 0 by decide)
  have hb3 : x.toNat / 2 ^ 24 < 2 ^ 8 := by omega
  unfold bswap32 firstBytes
  rw [BitVec.toNat_ofNat, Nat.mod_eq_of_lt (by omega)]
  omega

theorem S16TOS16_bswap (x : BitVec 16) : S16TOS16 (bswap16 x) = signed (firstBytes x) := by
  have hlt := firstBytes_lt x
  unfold S16TOS16 signed int16
  -- the cast and `signed` read the same 16 bits as a signed number
  rw [BitVec.toInt_eq_toNat_cond, toNat_bswap16]
  split <;> split <;> omega

theorem U16TOS16_bswap (x : BitVec 16) : U16TOS16 (bswap16 x) = firstBytes x - 0x8000 := by
  have hlt := firstBytes_lt x
  unfold U16TOS16 int16
  rw [toNat_bswap16]
  omega

theorem S32TOS16_bswap (x : BitVec 32) : S32TOS16 (bswap32 x) = signed (firstBytes x) := by
  have hlt := (bswap32 x).isLt
  have hdiv := toNat_bswap32 x
  unfold S32TOS16 signed int16
  -- the shift leaves the two bytes that were first
  rw [BitVec.toInt_eq_toNat_cond, Int.shiftRight_eq_div_pow]
  split <;> split <;> omega

theorem U32TOS16_bswap (x : BitVec 32) : U32TOS16 (bswap32 x) = firstBytes x - 0x8000 := by
  have hlt := (bswap32 x).isLt
  have hdiv := toNat_bswap32 x
  unfold U32TOS16 int16 int32 uint32
  rw [Int.shiftRight_eq_div_pow]
  omega

/-! ### Agreement -/

/-- The formats that have a big-endian routine. -/
inductive Swapped where
  | s16
  | u16
  | s32
  | u32

namespace Swapped

def width : Swapped → Nat
  | s16 | u16 => 16
  | s32 | u32 => 32

/-- A sample with its bytes swapped. -/
def bswap : (f : Swapped) → BitVec f.width → BitVec f.width
  | s16, x => bswap16 x
  | u16, x => bswap16 x
  | s32, x => bswap32 x
  | u32, x => bswap32 x

/-- The big-endian routine. -/
def convertBe (m : Mem) (f : Swapped) (src : Nat → BitVec f.width)
    (frames pitch channels_in : Nat) (access : Access) (dup : Int) : List (Nat × Int) :=
  match f with
  | s16 => audsink_copy_s16_be src frames pitch channels_in access dup
  | u16 => audsink_copy_u16_be src frames pitch channels_in access dup
  | s32 => audsink_copy_s32_be m src frames pitch channels_in access dup
  | u32 => audsink_copy_u32_be m src frames pitch channels_in access dup

/-- The little-endian routine. -/
def convertLe (f : Swapped) (src : Nat → BitVec f.width) (frames pitch channels_in : Nat)
    (access : Access) (dup : Int) : List (Nat × Int) :=
  match f with
  | s16 => audsink_copy_s16 src frames pitch channels_in access dup
  | u16 => audsink_copy_u16 src frames pitch channels_in access dup
  | s32 => audsink_copy_s32 src frames pitch channels_in access dup
  | u32 => audsink_copy_u32 src frames pitch channels_in access dup

/-- Two samples have the same sign. -/
def SameSign {w : Nat} (x y : BitVec w) : Prop := firstBytes x < 2 ^ 15 ↔ firstBytes y < 2 ^ 15

instance {w : Nat} (x y : BitVec w) : Decidable (SameSign x y) := by
  unfold SameSign
  infer_instance

/-- The mean of what is read is the mean of the samples, as signed numbers. -/
def SameMean (m : Mem) (x y : BitVec 32) : Prop :=
  (bytesThere m x + bytesThere m y) / 2 % 2 ^ 16 =
    ((firstBytes x + firstBytes y) / 2 + if SameSign x y then 0 else 2 ^ 15) % 2 ^ 16

/-- Whether a mixed frame comes out right: a mean of two samples with different signs is off
    by half of the range, and the routines for 32 bits take the mean of what they read. -/
def AgreesMixed (m : Mem) : (f : Swapped) → BitVec f.width → BitVec f.width → Prop
  | s16, x, y => SameSign x y
  | u16, _, _ => True
  | s32, x, y => SameMean m x y
  | u32, x, y => (bytesThere m x + bytesThere m y) / 2 = (firstBytes x + firstBytes y) / 2

/-- Whether a single sample comes out right: for 32 bits, its first two bytes have to be at the
    address that it makes. -/
def AgreesSingle (m : Mem) : (f : Swapped) → BitVec f.width → Prop
  | s16, _ => True
  | u16, _ => True
  | s32, x => bytesThere m x = firstBytes x
  | u32, x => bytesThere m x = firstBytes x

/-- When a big-endian routine does what it should. -/
def Agrees (m : Mem) (f : Swapped) (src : Nat → BitVec f.width)
    (frames pitch channels_in : Nat) (access : Access) (dup : Int) : Prop :=
  if Mixes channels_in dup then ∀ i < frames,
    f.AgreesMixed m (sampleAt src pitch channels_in access 0 i)
      (sampleAt src pitch channels_in access 1 i)
  else ∀ c < outChannels channels_in, ∀ i < frames,
    f.AgreesSingle m (sampleAt src pitch channels_in access (sourceChannel channels_in dup c) i)

/-- Agreement is a matter of single samples and of pairs of them. -/
theorem audsink_copy_agrees {w : Nat} {be le : BitVec w → Int} {bswap : BitVec w → BitVec w}
    {Single : BitVec w → Prop} {Mixed : BitVec w → BitVec w → Prop}
    (hsingle : ∀ x, int16 (be x) = int16 (le (bswap x)) ↔ Single x)
    (hmixed : ∀ x y, int16 ((be x + be y) >>> (1 : Nat)) = int16 ((le (bswap x) + le (bswap y)) >>> (1 : Nat)) ↔
      Mixed x y) (src : Nat → BitVec w) (frames pitch channels_in : Nat) (access : Access)
    (dup : Int) :
    audsink_copy be src frames pitch channels_in access dup =
        audsink_copy le (fun i => bswap (src i)) frames pitch channels_in access dup ↔
      if Mixes channels_in dup then ∀ i < frames,
        Mixed (sampleAt src pitch channels_in access 0 i)
          (sampleAt src pitch channels_in access 1 i)
      else ∀ c < outChannels channels_in, ∀ i < frames,
        Single (sampleAt src pitch channels_in access (sourceChannel channels_in dup c) i) := by
  rw [audsink_copy_inj]
  split
  · exact forall₂_congr fun i _ => hmixed _ _
  · exact forall₄_congr fun c _ i _ => hsingle _

theorem half_eq (v : Int) : v >>> (1 : Nat) = v / 2 := Int.shiftRight_eq_div_pow v 1

theorem s16_mixed (x y : BitVec 16) :
    int16 ((S16BETOS16 x + S16BETOS16 y) >>> (1 : Nat)) =
        int16 ((S16TOS16 (bswap16 x) + S16TOS16 (bswap16 y)) >>> (1 : Nat)) ↔ SameSign x y := by
  have hx := firstBytes_lt x
  have hy := firstBytes_lt y
  -- the routine halves an unsigned sum, so a borrow between two signs is lost
  rw [half_eq, half_eq, S16BETOS16_eq, S16BETOS16_eq, S16TOS16_bswap, S16TOS16_bswap]
  unfold SameSign signed int16
  split <;> split <;> omega

theorem s32_mixed (m : Mem) (x y : BitVec 32) :
    int16 ((S32BETOS16 m x + S32BETOS16 m y) >>> (1 : Nat)) =
        int16 ((S32TOS16 (bswap32 x) + S32TOS16 (bswap32 y)) >>> (1 : Nat)) ↔ SameMean m x y := by
  have hx := firstBytes_lt x
  have hy := firstBytes_lt y
  rw [half_eq, half_eq, S32BETOS16_eq, S32BETOS16_eq, S32TOS16_bswap, S32TOS16_bswap]
  unfold SameMean
  -- a sum of two samples with different signs is off by 2 ^ 16, and its half by 2 ^ 15
  by_cases hsign : SameSign x y
  · rw [if_pos hsign]
    unfold SameSign at hsign
    unfold signed int16
    split <;> split <;> omega
  · rw [if_neg hsign]
    unfold SameSign at hsign
    unfold signed int16
    split <;> split <;> omega

theorem u32_mixed (m : Mem) (x y : BitVec 32) :
    int16 ((U32BETOS16 m x + U32BETOS16 m y) >>> (1 : Nat)) =
        int16 ((U32TOS16 (bswap32 x) + U32TOS16 (bswap32 y)) >>> (1 : Nat)) ↔
      (bytesThere m x + bytesThere m y) / 2 = (firstBytes x + firstBytes y) / 2 := by
  have hx := firstBytes_lt x
  have hy := firstBytes_lt y
  have hmx := bytesThere_lt m x
  have hmy := bytesThere_lt m y
  unfold U32BETOS16
  rw [half_eq, half_eq, S32BETOS16_eq, S32BETOS16_eq, U32TOS16_bswap, U32TOS16_bswap,
    int16_of_range (by omega) (by omega), int16_of_range (by omega) (by omega)]
  omega

theorem s32_single (m : Mem) (x : BitVec 32) :
    int16 (S32BETOS16 m x) = int16 (S32TOS16 (bswap32 x)) ↔ bytesThere m x = firstBytes x := by
  have hx := firstBytes_lt x
  have hmx := bytesThere_lt m x
  rw [S32BETOS16_eq, S32TOS16_bswap]
  unfold signed int16
  split <;> omega

theorem u32_single (m : Mem) (x : BitVec 32) :
    int16 (U32BETOS16 m x) = int16 (U32TOS16 (bswap32 x)) ↔ bytesThere m x = firstBytes x := by
  have hx := firstBytes_lt x
  have hmx := bytesThere_lt m x
  unfold U32BETOS16
  rw [S32BETOS16_eq, U32TOS16_bswap, int16_of_range (by omega) (by omega),
    int16_of_range (by omega) (by omega)]
  omega

/-- The unsigned 16-bit routines convert every sample to the same number. -/
theorem u16_eq (x : BitVec 16) : U16BETOS16 x = U16TOS16 (bswap16 x) := by
  unfold U16BETOS16
  rw [S16BETOS16_eq, U16TOS16_bswap]

theorem s16_single (x : BitVec 16) : int16 (S16BETOS16 x) = int16 (S16TOS16 (bswap16 x)) := by
  have hx := firstBytes_lt x
  rw [S16BETOS16_eq, S16TOS16_bswap]
  unfold signed int16
  split <;> omega

/-- A big-endian routine writes what its sibling writes for the swapped samples exactly when
    the frames agree. -/
theorem agrees_iff (m : Mem) (f : Swapped) (src : Nat → BitVec f.width)
    (frames pitch channels_in : Nat) (access : Access) (dup : Int) :
    f.convertBe m src frames pitch channels_in access dup =
        f.convertLe (fun i => f.bswap (src i)) frames pitch channels_in access dup ↔
      f.Agrees m src frames pitch channels_in access dup := by
  cases f with
  | s16 =>
    -- single samples agree as bit patterns, only a mean can go wrong
    exact audsink_copy_agrees (fun x => iff_true_intro (s16_single x)) s16_mixed src frames
      pitch channels_in access dup
  | u16 =>
    exact audsink_copy_agrees (fun x => iff_true_intro (congrArg int16 (u16_eq x)))
      (fun x y => iff_true_intro (by rw [u16_eq x, u16_eq y])) src frames pitch channels_in access
      dup
  | s32 =>
    exact audsink_copy_agrees (s32_single m) (s32_mixed m) src frames pitch channels_in access dup
  | u32 =>
    exact audsink_copy_agrees (u32_single m) (u32_mixed m) src frames pitch channels_in access dup

/-- Mixing -1 and 1 with the 16-bit routine. -/
theorem swapped_fails : ¬ ∀ (m : Mem) (f : Swapped) (src : Nat → BitVec f.width)
    (frames pitch channels_in : Nat) (access : Access) (dup : Int),
    f.convertBe m src frames pitch channels_in access dup =
      f.convertLe (fun i => f.bswap (src i)) frames pitch channels_in access dup := by
  intro h
  have := h (fun _ => 0) s16 (fun i => if i = 0 then 0xffff else 0x0100) 1 0 2
    .SND_PCM_ACCESS_RW_INTERLEAVED AUDSINK_PCM_DUPLICATE_MONO
  revert this
  decide

end Swapped

end Hcrtos.Native.CopyFrame
