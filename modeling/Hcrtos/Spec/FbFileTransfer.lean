import Mathlib.Logic.Relation
import Hcrtos.Native.FbFile
import Hcrtos.Spec.HcfbContainment

/-!
# Transfers of frame buffer files

A read or write transfers the bytes from the position to the end of the frame buffer, as many as
are asked for. The start of the transfer is the low half of the position, and its end is a sum in
32 bits: a position from 2^32 on comes back into the frame buffer, and a length that wraps the
sum gets past the test for the end.

## Key results

- `sought_iff`: the positions that seeks lead to
- `extent_of_fits`, `extent_of_not_fits`: the bytes that a call takes
- `transfers_iff`: the calls that transfer what is there, and nothing else
- `transfers_fails`: a length that wraps the sum
-/

namespace Hcrtos.Native.Hcfb

/-- Without an address there is no frame buffer. -/
def Info.Mapped (s : Info) : Prop := s.screen_base = none → s.total_size = 0

/-- The positions that calls of `fb_seek` lead to, from the start of the file. -/
def Info.Sought (s : Info) : Int64 → Prop :=
  Relation.ReflTransGen
    (fun p q => ∃ (offset : Int64) (whence : Whence), q = (s.fb_seek p offset whence).1) 0

/-- The bytes from the position to the end, as many as are asked for. -/
def Info.available (s : Info) (f_pos : Int64) (len : UInt32) : Nat :=
  min len.toNat (s.total_size.toNat - f_pos.toInt.toNat)

/-- A read gives exactly the bytes that are there and moves the position behind them. -/
structure ReadsExactly (s : Info) (f_pos : Int64) (len : UInt32) : Prop where
  bytes : (s.fb_read f_pos len).bytes = s.bytes f_pos.toInt.toNat (s.available f_pos len)
  moved : (s.fb_read f_pos len).f_pos.toInt = f_pos.toInt + s.available f_pos len
  inside : ∀ i < s.available f_pos len, f_pos.toInt.toNat + i < s.total_size.toNat

/-- A write replaces exactly the bytes that are there and moves the position behind them. -/
structure WritesExactly (s : Info) (f_pos : Int64) (buffer : Nat → UInt8) (len : UInt32) :
    Prop where
  memory : (s.fb_write f_pos buffer len).memory =
    s.overwrite f_pos.toInt.toNat (s.available f_pos len) buffer
  moved : (s.fb_write f_pos buffer len).f_pos.toInt = f_pos.toInt + s.available f_pos len
  inside : ∀ i < s.available f_pos len, f_pos.toInt.toNat + i < s.total_size.toNat

/-- The call asks for nothing, the low half of the position is past the end, or the sum of position
    and length is below 2^32. -/
def Info.Fits (s : Info) (f_pos : Int64) (len : UInt32) : Prop :=
  s.total_size ≤ f_pos.toUInt64.toUInt32 ∨ len = 0 ∨ f_pos.toInt + len.toNat < 4294967296

/-! ### Positions -/

/-- Every change of the buffer keeps its address and its length together. -/
theorem Info.Mapped.dropMem {s : Info} (h : s.Mapped) : s.dropMem.Mapped := by
  rw [Info.dropMem]
  split
  · exact fun _ => rfl
  · exact h

theorem mapped_takeMem (s : Info) (p len : UInt32) : (s.takeMem p len).Mapped := by
  intro hnone
  cases hnone

theorem Info.Mapped.hcfb_alloc_mem {s : Info} (h : s.Mapped) (mem : Option UInt32) :
    (s.hcfb_alloc_mem mem).1.Mapped := by
  have ht : Info.Mapped { s with fb := s.fb.storePitch } := h
  unfold Info.hcfb_alloc_mem
  dsimp only
  split
  · exact ht
  split
  · exact mapped_takeMem _ _ _
  cases mem with
  | none => exact ht.dropMem
  | some p => exact mapped_takeMem _ _ _

/-- A seek never leads to a negative position. -/
theorem fb_seek_nonneg {s : Info} {f_pos : Int64} (h : 0 ≤ f_pos.toInt) (offset : Int64)
    (whence : Whence) : 0 ≤ (s.fb_seek f_pos offset whence).1.toInt := by
  rw [Info.fb_seek]
  split
  · exact h
  split
  · exact h
  split
  · rename_i newpos _ hnonneg
    exact Int64.le_iff_toInt_le.mp hnonneg
  · exact h

theorem Info.Sought.nonneg {s : Info} {f_pos : Int64} (h : s.Sought f_pos) : 0 ≤ f_pos.toInt := by
  induction h with
  | refl => decide
  | tail _ hlast ih =>
    obtain ⟨offset, whence, rfl⟩ := hlast
    exact fb_seek_nonneg ih offset whence

/-- With a frame buffer, the positions that seeks lead to are those that are not negative. -/
theorem sought_iff {s : Info} (hbase : s.screen_base ≠ none) (f_pos : Int64) :
    s.Sought f_pos ↔ 0 ≤ f_pos.toInt := by
  constructor
  · exact Info.Sought.nonneg
  · intro h
    have hnonneg : 0 ≤ f_pos := Int64.le_iff_toInt_le.mpr h
    refine .single ⟨f_pos, .SEEK_SET, ?_⟩
    rw [Info.fb_seek, if_neg hbase]
    simp only [Info.newpos, if_pos hnonneg]

/-! ### The bytes of a transfer -/

theorem toNat_start {f_pos : Int64} (h : 0 ≤ f_pos.toInt) :
    f_pos.toUInt64.toUInt32.toNat = f_pos.toInt.toNat % 4294967296 := by
  rw [UInt64.toNat_toUInt32, Int64.toNat_toUInt64_of_le (Int64.le_iff_toInt_le.mpr h)]
  rfl

theorem toInt_size (size : UInt32) : size.toUInt64.toInt64.toInt = size.toNat := by
  have hlt := size.toNat_lt
  have h64 : size.toUInt64 = UInt64.ofNat size.toNat := by
    rw [← UInt64.toNat_inj, UInt32.toNat_toUInt64, UInt64.toNat_ofNat']
    exact (Nat.mod_eq_of_lt (by omega)).symm
  rw [h64, UInt64.toInt64_ofNat', Int64.toInt_ofNat_of_lt (by omega)]

/-- The position after a transfer that leaves it in the frame buffer or does not move it. -/
theorem toInt_moved {f_pos : Int64} {size : UInt32} {n : Nat} (h : 0 ≤ f_pos.toInt)
    (hsize : size.toNat = n) (hle : n ≠ 0 → f_pos.toInt + n < 4294967296) :
    (f_pos + size.toUInt64.toInt64).toInt = f_pos.toInt + n := by
  have hlt := f_pos.toInt_lt
  rw [Int64.toInt_add, toInt_size, hsize, Int.bmod_def]
  by_cases hn : n = 0
  · subst hn
    omega
  · have := hle hn
    omega

/-- The size of a transfer that starts before the end. -/
theorem extent_some {s : Info} {f_pos : Int64} {len : UInt32}
    (hlt : f_pos.toUInt64.toUInt32 < s.total_size) :
    ∃ size, s.extent f_pos len = some (f_pos.toUInt64.toUInt32, size) ∧
      size.toNat =
        if s.total_size.toNat ≤ (f_pos.toUInt64.toUInt32.toNat + len.toNat) % 4294967296 then
          s.total_size.toNat - f_pos.toUInt64.toUInt32.toNat
        else len.toNat := by
  have hlen := len.toNat_lt
  have hstart := f_pos.toUInt64.toUInt32.toNat_lt
  have htotal := s.total_size.toNat_lt
  rw [Info.extent]
  dsimp only
  rw [if_neg (UInt32.not_le.mpr hlt)]
  refine ⟨_, rfl, ?_⟩
  rw [UInt32.lt_iff_toNat_lt] at hlt
  have hsum : (f_pos.toUInt64.toUInt32 + len).toNat =
      (f_pos.toUInt64.toUInt32.toNat + len.toNat) % 4294967296 := UInt32.toNat_add _ _
  rw [← hsum]
  by_cases hstop : s.total_size ≤ f_pos.toUInt64.toUInt32 + len
  · rw [if_pos hstop, if_pos (UInt32.le_iff_toNat_le.mp hstop), toNat_sub_of_le (by omega)]
  · rw [if_neg hstop, if_neg (fun h => hstop (UInt32.le_iff_toNat_le.mpr h)), UInt32.toNat_sub, hsum]
    omega

theorem extent_of_fits {s : Info} {f_pos : Int64} {len : UInt32} (h : 0 ≤ f_pos.toInt)
    (hfits : s.Fits f_pos len) :
    (s.extent f_pos len = none ∧ s.available f_pos len = 0) ∨
      ∃ start size, s.extent f_pos len = some (start, size) ∧
        size.toNat = s.available f_pos len ∧
        (s.available f_pos len ≠ 0 → start.toNat = f_pos.toInt.toNat) := by
  have hlow := toNat_start h
  rw [Info.available]
  by_cases hend : s.total_size ≤ f_pos.toUInt64.toUInt32
  · left
    rw [Info.extent]
    dsimp only
    rw [if_pos hend]
    rw [UInt32.le_iff_toNat_le] at hend
    exact ⟨rfl, by omega⟩
  · right
    rw [UInt32.not_le] at hend
    obtain ⟨size, hextent, hsize⟩ := @extent_some s f_pos len hend
    refine ⟨_, size, hextent, ?_⟩
    rw [UInt32.lt_iff_toNat_lt] at hend
    have htotal := s.total_size.toNat_lt
    rcases hfits with hfits | rfl | hfits
    · rw [UInt32.le_iff_toNat_le] at hfits
      omega
    · rw [UInt32.toNat_zero] at hsize ⊢
      split at hsize <;> omega
    · split at hsize <;> omega

theorem extent_of_not_fits {s : Info} {f_pos : Int64} {len : UInt32} (h : 0 ≤ f_pos.toInt)
    (hfits : ¬ s.Fits f_pos len) :
    ∃ start size, s.extent f_pos len = some (start, size) ∧
      size.toNat ≠ s.available f_pos len := by
  have hlow := toNat_start h
  rw [Info.Fits, not_or, not_or, UInt32.not_le] at hfits
  obtain ⟨hend, hlen, hsum⟩ := hfits
  obtain ⟨size, hextent, hsize⟩ := @extent_some s f_pos len hend
  refine ⟨_, size, hextent, ?_⟩
  rw [Info.available]
  rw [UInt32.lt_iff_toNat_lt] at hend
  have hpos : len.toNat ≠ 0 := fun hzero => hlen (UInt32.toNat_inj.mp hzero)
  have htotal := s.total_size.toNat_lt
  have hlt := len.toNat_lt
  split at hsize <;> omega

theorem available_inside (s : Info) (f_pos : Int64) (len : UInt32) :
    ∀ i < s.available f_pos len, f_pos.toInt.toNat + i < s.total_size.toNat := by
  intro i hi
  rw [Info.available] at hi
  omega

/-- What is available ends in the frame buffer, whose length is a word. -/
theorem available_lt {s : Info} {f_pos : Int64} {len : UInt32} (h : 0 ≤ f_pos.toInt)
    (hne : s.available f_pos len ≠ 0) : f_pos.toInt + s.available f_pos len < 4294967296 := by
  have htotal := s.total_size.toNat_lt
  rw [Info.available] at hne ⊢
  omega

theorem bytes_zero (s : Info) (start : Nat) : s.bytes start 0 = [] := rfl

theorem overwrite_zero (s : Info) (start : Nat) (buffer : Nat → UInt8) :
    s.overwrite start 0 buffer = s.memory := WordMemory.patch_zero _ _ _

/-! ### Reads and writes -/

theorem readsExactly_iff {s : Info} {f_pos : Int64} (h : 0 ≤ f_pos.toInt) (len : UInt32) :
    ReadsExactly s f_pos len ↔ s.Fits f_pos len := by
  constructor
  · intro hread
    by_contra hfits
    obtain ⟨start, size, hextent, hsize⟩ := extent_of_not_fits h hfits
    have hlength := congrArg List.length hread.bytes
    rw [Info.fb_read, hextent] at hlength
    simp only [Info.bytes, List.length_map, List.length_range] at hlength
    exact hsize hlength
  · intro hfits
    have hinside := available_inside s f_pos len
    obtain ⟨hextent, hnone⟩ | ⟨start, size, hextent, hsize, hstart⟩ := extent_of_fits h hfits
    · refine ⟨?_, ?_, hinside⟩
      · rw [Info.fb_read, hextent, hnone, bytes_zero]
      · rw [Info.fb_read, hextent, hnone]
        exact (Int.add_zero _).symm
    · refine ⟨?_, ?_, hinside⟩
      · rw [Info.fb_read, hextent]
        dsimp only
        rw [hsize]
        by_cases hn : s.available f_pos len = 0
        · rw [hn, bytes_zero, bytes_zero]
        · rw [hstart hn]
      · rw [Info.fb_read, hextent]
        exact toInt_moved h hsize (available_lt h)

theorem writesExactly_iff {s : Info} (hmapped : s.Mapped) {f_pos : Int64} (h : 0 ≤ f_pos.toInt)
    (buffer : Nat → UInt8) (len : UInt32) :
    WritesExactly s f_pos buffer len ↔ s.Fits f_pos len := by
  by_cases hbase : s.screen_base = none
  · -- there is nothing to write to, and no offset is before the end
    have hzero := hmapped hbase
    have hnone : s.available f_pos len = 0 := by
      rw [Info.available, hzero, UInt32.toNat_zero]
      omega
    have hfits : s.Fits f_pos len := .inl (by rw [hzero]; exact UInt32.zero_le)
    refine ⟨fun _ => hfits, fun _ => ⟨?_, ?_, available_inside s f_pos len⟩⟩
    · rw [Info.fb_write, if_pos hbase, hnone, overwrite_zero]
    · rw [Info.fb_write, if_pos hbase, hnone]
      exact (Int.add_zero _).symm
  constructor
  · intro hwrite
    by_contra hfits
    obtain ⟨start, size, hextent, hsize⟩ := extent_of_not_fits h hfits
    have hmoved := hwrite.moved
    have hlt := f_pos.toInt_lt
    have hsizelt := size.toNat_lt
    rw [Info.fb_write, if_neg hbase, hextent] at hmoved
    dsimp only at hmoved
    rw [Int64.toInt_add, toInt_size, Int.bmod_def] at hmoved
    omega
  · intro hfits
    have hinside := available_inside s f_pos len
    obtain ⟨hextent, hnone⟩ | ⟨start, size, hextent, hsize, hstart⟩ := extent_of_fits h hfits
    · refine ⟨?_, ?_, hinside⟩
      · rw [Info.fb_write, if_neg hbase, hextent, hnone, overwrite_zero]
      · rw [Info.fb_write, if_neg hbase, hextent, hnone]
        exact (Int.add_zero _).symm
    · refine ⟨?_, ?_, hinside⟩
      · rw [Info.fb_write, if_neg hbase, hextent]
        dsimp only
        rw [hsize]
        by_cases hn : s.available f_pos len = 0
        · rw [hn, overwrite_zero, overwrite_zero]
        · rw [hstart hn]
      · rw [Info.fb_write, if_neg hbase, hextent]
        exact toInt_moved h hsize (available_lt h)

/-- The calls that transfer what is there, and nothing else. -/
theorem transfers_iff {s : Info} (hmapped : s.Mapped) {f_pos : Int64} (hsought : s.Sought f_pos)
    (buffer : Nat → UInt8) (len : UInt32) :
    (ReadsExactly s f_pos len ↔ s.Fits f_pos len) ∧
      (WritesExactly s f_pos buffer len ↔ s.Fits f_pos len) :=
  ⟨readsExactly_iff hsought.nonneg len, writesExactly_iff hmapped hsought.nonneg buffer len⟩

/-- A frame buffer of 16 bytes. -/
def exampleInfo : Info where
  fb := defaultNode.device defaultNode.var ⟨1, 1, 1, 1, by decide⟩
  smem_start := 0x100000
  smem_len := 16
  screen_base := some 0x80100000
  screen_size := 16
  memory := fun a => a.toUInt8

theorem sought_eight : exampleInfo.Sought 8 :=
  .single ⟨8, .SEEK_SET, by decide⟩

theorem transfers_eight : (ReadsExactly exampleInfo 8 100 ↔ exampleInfo.Fits 8 100) ∧
    (WritesExactly exampleInfo 8 (fun _ => 0) 100 ↔ exampleInfo.Fits 8 100) :=
  transfers_iff (fun _ => by contradiction) sought_eight _ _

/-- From position 8, the longest length wraps the sum, and nothing clips the transfer. -/
theorem transfers_fails : exampleInfo.Sought 8 ∧ ¬ ReadsExactly exampleInfo 8 4294967295 ∧
    ¬ WritesExactly exampleInfo 8 (fun _ => 0) 4294967295 := by
  have hmoved : (8 + (4294967295 : UInt32).toUInt64.toInt64).toInt ≠
      (8 : Int64).toInt + exampleInfo.available 8 4294967295 := by decide
  have hextent : exampleInfo.extent 8 4294967295 = some (8, 4294967295) := by decide
  refine ⟨sought_eight, fun h => ?_, fun h => ?_⟩
  · have hbytes := h.moved
    rw [Info.fb_read, hextent] at hbytes
    exact hmoved hbytes
  · have hwritten := h.moved
    rw [Info.fb_write, hextent] at hwritten
    exact hmoved hwritten

end Hcrtos.Native.Hcfb
