import Mathlib.Data.List.Nodup
import Hcrtos.Native.CopyFrame

/-!
# PCM conversion writes the reference samples

The reference is independent of the routines: a format says what signed number of `bits` bits
a sample is, and its conversion keeps the upper 16 bits. Every routine writes one sample for
each output channel of each frame.

## Key results

- `audsink_copy_eq`, `audsink_copy_mixed_eq`: the loops in closed form
- `audsink_copy_inj`: two conversions write the same exactly when they agree on what is read
- `convert_writesOnce`: every slot is written once, with the reference sample
-/

namespace Hcrtos.Native.CopyFrame

variable {α : Type*} {conv : α → Int} {src : Nat → α} {frames pitch channels_in istep ostep : Nat}
  {access : Access} {dup : Int}

/-! ### The loops in closed form -/

/-- A mono input is written to two channels. -/
def outChannels (channels_in : Nat) : Nat := if channels_in = 1 then 2 else channels_in

/-- The two channels are mixed. -/
def Mixes (channels_in : Nat) (dup : Int) : Prop :=
  channels_in = 2 ∧ dup ≠ AUDSINK_PCM_DUPLICATE_STEREO ∧ dup ≠ AUDSINK_PCM_DUPLICATE_LEFT ∧
    dup ≠ AUDSINK_PCM_DUPLICATE_RIGHT

instance (channels_in : Nat) (dup : Int) : Decidable (Mixes channels_in dup) := by
  unfold Mixes
  infer_instance

/-- The input channel that the mode selects for an output channel. -/
def sourceChannel (channels_in : Nat) (dup : Int) (ch : Nat) : Nat :=
  if channels_in = 1 then 0
  else if channels_in = 2 ∧ dup = AUDSINK_PCM_DUPLICATE_LEFT then 0
  else if channels_in = 2 ∧ dup = AUDSINK_PCM_DUPLICATE_RIGHT then 1
  else ch

/-- Where the sample of a channel in a frame is. -/
def position (pitch channels_in : Nat) (access : Access) (ch frame : Nat) : Nat :=
  if access = .SND_PCM_ACCESS_RW_INTERLEAVED then ch + frame * channels_in
  else ch * pitch + frame

/-- The sample of a channel in a frame. -/
def sampleAt (src : Nat → α) (pitch channels_in : Nat) (access : Access) (ch frame : Nat) : α :=
  src (position pitch channels_in access ch frame)

theorem copySingle_eq (inp out : Nat) : copySingle conv src istep ostep frames inp out =
    (List.range frames).map fun i => (out + i * ostep, int16 (conv (src (inp + i * istep)))) := by
  induction frames generalizing inp out with
  | zero => rfl
  | succ frames ih =>
    -- the tail starts one step further on, so its frame `i` is frame `i + 1` here
    rw [copySingle, ih, List.range_succ_eq_map, List.map_cons, List.map_map]
    simp only [Nat.zero_mul, Nat.add_zero, List.cons.injEq, true_and]
    apply List.map_congr_left
    intro i _
    simp only [Function.comp, Nat.succ_mul]
    rw [Nat.add_right_comm, Nat.add_assoc, Nat.add_right_comm inp, Nat.add_assoc inp]

theorem copyMixed_eq (inp inp2 out : Nat) : copyMixed conv src istep ostep frames inp inp2 out =
    (List.range frames).flatMap fun i =>
      let v := int16 ((conv (src (inp + i * istep)) + conv (src (inp2 + i * istep))) >>> (1 : Nat))
      [(out + i * ostep, v), (out + i * ostep + 1, v)] := by
  induction frames generalizing inp inp2 out with
  | zero => rfl
  | succ frames ih =>
    -- as for one channel, with both positions moved on
    rw [copyMixed, ih, List.range_succ_eq_map, List.flatMap_cons, List.flatMap_map]
    simp only [Nat.zero_mul, Nat.add_zero, List.cons_append, List.nil_append, Nat.succ_mul]
    simp only [Nat.add_assoc, Nat.add_comm istep, Nat.add_comm ostep]

/-- Where the channels are not mixed, each one is read from a single channel. -/
theorem source_eq (hmix : ¬ Mixes channels_in dup) (ch : Nat) (h1 : channels_in = 1 → ch = 0) :
    source pitch channels_in access dup ch =
      (position pitch channels_in access (sourceChannel channels_in dup ch) 0, none) := by
  unfold Mixes at hmix
  unfold source position sourceChannel
  by_cases hone : channels_in = 1
  · simp [hone, h1 hone]
  -- only a stereo input has a mode that reads another channel than it writes
  · by_cases hlr : channels_in = 2 ∧
        (dup = AUDSINK_PCM_DUPLICATE_LEFT ∨ dup = AUDSINK_PCM_DUPLICATE_RIGHT)
    · obtain ⟨rfl, rfl | rfl⟩ := hlr
      · simp [AUDSINK_PCM_DUPLICATE_STEREO, AUDSINK_PCM_DUPLICATE_LEFT]
      · simp [AUDSINK_PCM_DUPLICATE_STEREO, AUDSINK_PCM_DUPLICATE_LEFT,
          AUDSINK_PCM_DUPLICATE_RIGHT, apply_ite (fun c : Nat => (c, (none : Option Nat)))]
    · -- the sample comes from the channel itself
      grind

/-- The channels one after the other, each with its own slots. -/
theorem copyChannels_eq (hmix : ¬ Mixes channels_in dup) {n ch : Nat}
    (h1 : channels_in = 1 → ch + n ≤ 1) :
    copyChannels conv src frames pitch channels_in access dup istep ostep n ch =
      (List.range' ch n).flatMap fun c => copySingle conv src istep ostep frames
        (position pitch channels_in access (sourceChannel channels_in dup c) 0) c := by
  induction n generalizing ch with
  | zero => rfl
  | succ n ih =>
    rw [copyChannels, source_eq hmix ch (by omega), List.range'_succ, List.flatMap_cons,
      ← ih (by omega)]

/-- The writes when no channels are mixed. -/
theorem audsink_copy_eq (hmix : ¬ Mixes channels_in dup) :
    audsink_copy conv src frames pitch channels_in access dup =
      (List.range (outChannels channels_in)).flatMap fun c =>
        (List.range frames).map fun i => (c + i * outChannels channels_in,
          int16 (conv (sampleAt src pitch channels_in access
            (sourceChannel channels_in dup c) i))) := by
  -- the start of a channel and the steps from there lead to its samples
  have hstep : ∀ c i, position pitch channels_in access c 0 +
      i * (if access = .SND_PCM_ACCESS_RW_INTERLEAVED then channels_in else 1) =
        position pitch channels_in access c i := by
    intro c i
    unfold position
    split <;> simp
  unfold audsink_copy
  dsimp only
  rw [copyChannels_eq hmix (by omega)]
  by_cases hone : channels_in = 1
  · subst hone
    -- a mono input goes through the loop twice, for each half of the frame
    simp only [copySingle_eq, outChannels, sampleAt, sourceChannel, if_true, ite_self]
    simp [List.range'_succ, List.range_succ, position]
  · simp only [copySingle_eq, outChannels, sampleAt, hone, if_false, hstep, List.append_nil,
      List.range_eq_range']

/-- The writes when two channels are mixed. -/
theorem audsink_copy_mixed_eq (hmix : Mixes channels_in dup) :
    audsink_copy conv src frames pitch channels_in access dup =
      (List.range frames).flatMap fun i =>
        let v := int16 ((conv (sampleAt src pitch channels_in access 0 i) +
          conv (sampleAt src pitch channels_in access 1 i)) >>> (1 : Nat))
        [(i * 2, v), (i * 2 + 1, v)] := by
  obtain ⟨rfl, hs, hl, hr⟩ := hmix
  unfold audsink_copy sampleAt position
  cases access with
  | SND_PCM_ACCESS_RW_INTERLEAVED =>
    simp [copyChannels, source, hs, hl, hr, copyMixed_eq]
  | SND_PCM_ACCESS_RW_NONINTERLEAVED =>
    simp [copyChannels, source, hs, hl, hr, copyMixed_eq]

theorem flatMap_eq_iff {ι β : Type*} {l : List ι} {f g : ι → List β}
    (hlen : ∀ i ∈ l, (f i).length = (g i).length) :
    l.flatMap f = l.flatMap g ↔ ∀ i ∈ l, f i = g i := by
  induction l with
  | nil => simp
  | cons i l ih =>
    rw [List.flatMap_cons, List.flatMap_cons, List.forall_mem_cons,
      ← ih fun j hj => hlen j (List.mem_cons_of_mem i hj)]
    constructor
    · exact fun h => List.append_inj h (hlen i List.mem_cons_self)
    · rintro ⟨hi, hl⟩
      rw [hi, hl]

/-- The writes are determined by what is converted for each channel of each frame. -/
theorem audsink_copy_inj {β : Type*} {conv' : β → Int} {src' : Nat → β} :
    audsink_copy conv src frames pitch channels_in access dup =
        audsink_copy conv' src' frames pitch channels_in access dup ↔
      if Mixes channels_in dup then ∀ i < frames,
        int16 ((conv (sampleAt src pitch channels_in access 0 i) +
          conv (sampleAt src pitch channels_in access 1 i)) >>> (1 : Nat)) =
        int16 ((conv' (sampleAt src' pitch channels_in access 0 i) +
          conv' (sampleAt src' pitch channels_in access 1 i)) >>> (1 : Nat))
      else ∀ c < outChannels channels_in, ∀ i < frames,
        int16 (conv (sampleAt src pitch channels_in access (sourceChannel channels_in dup c) i)) =
        int16 (conv' (sampleAt src' pitch channels_in access
          (sourceChannel channels_in dup c) i)) := by
  by_cases hmix : Mixes channels_in dup
  · rw [if_pos hmix, audsink_copy_mixed_eq hmix, audsink_copy_mixed_eq hmix, flatMap_eq_iff]
    · simp
    · exact fun _ _ => rfl
  · rw [if_neg hmix, audsink_copy_eq hmix, audsink_copy_eq hmix, flatMap_eq_iff]
    · simp
    · intro c _
      rw [List.length_map, List.length_map]

/-! ### The slots -/

/-- `ws` writes each of the slots below `n` once and no other, with the values of `ref`. -/
structure WritesOnce (ws : List (Nat × Int)) (n : Nat) (ref : Nat → Int) : Prop where
  slots : (ws.map Prod.fst).Perm (List.range n)
  values : ∀ w ∈ ws, w.2 = ref w.1

/-- The slot of a channel in a frame says which channel and frame it is. -/
theorem slot_div_mod {c n i : Nat} (hc : c < n) : (c + i * n) / n = i ∧ (c + i * n) % n = c := by
  constructor
  · rw [Nat.add_mul_div_right _ _ (by omega), Nat.div_eq_of_lt hc, Nat.zero_add]
  · rw [Nat.add_mul_mod_self_right, Nat.mod_eq_of_lt hc]

/-- The slots of all channels in all frames. -/
theorem slots_perm (n : Nat) : ((List.range n).flatMap fun c =>
    (List.range frames).map fun i => c + i * n).Perm (List.range (frames * n)) := by
  -- no slot is written twice, so it is enough to compare membership
  rw [List.perm_ext_iff_of_nodup _ List.nodup_range]
  · intro slot
    simp only [List.mem_flatMap, List.mem_map, List.mem_range]
    constructor
    · rintro ⟨c, hc, i, hi, rfl⟩
      have := Nat.mul_le_mul_right n (show i + 1 ≤ frames from hi)
      rw [Nat.succ_mul] at this
      omega
    · intro hslot
      have hn : 0 < n := Nat.pos_of_mul_pos_left (Nat.zero_lt_of_lt hslot)
      -- the remainder of a slot is its channel and the quotient its frame
      refine ⟨slot % n, Nat.mod_lt _ hn, slot / n, Nat.div_lt_of_lt_mul ?_, ?_⟩
      · rw [Nat.mul_comm]
        exact hslot
      · rw [Nat.mul_comm]
        exact Nat.mod_add_div slot n
  · rw [List.nodup_flatMap]
    constructor
    · intro c hc
      apply List.Nodup.map_on _ List.nodup_range
      intro i _ j _ hij
      have hi := slot_div_mod (i := i) (List.mem_range.mp hc)
      have hj := slot_div_mod (i := j) (List.mem_range.mp hc)
      rw [← hi.1, hij, hj.1]
    · apply List.nodup_range.pairwise_of_forall_ne
      intro c hc d hd hcd slot hslot hslot'
      obtain ⟨i, -, rfl⟩ := List.mem_map.mp hslot
      obtain ⟨j, -, hij⟩ := List.mem_map.mp hslot'
      have hi := slot_div_mod (i := i) (List.mem_range.mp hc)
      have hj := slot_div_mod (i := j) (List.mem_range.mp hd)
      rw [hij, hi.2] at hj
      exact hcd hj.2

/-- The slots of two channels that get the same sample. -/
theorem slots_mixed : ((List.range frames).flatMap fun i => [i * 2, i * 2 + 1]) =
    List.range (frames * 2) := by
  induction frames with
  | zero => rfl
  | succ n ih =>
    rw [List.range_succ, List.flatMap_append, ih, Nat.succ_mul, List.range_succ, List.range_succ]
    simp

theorem int16_of_range {v : Int} (hlo : -2 ^ 15 ≤ v) (hhi : v < 2 ^ 15) : int16 v = v := by
  unfold int16
  omega

/-- What belongs into a slot, where `conv` converts a sample. -/
def expected (conv : α → Int) (src : Nat → α) (pitch channels_in : Nat) (access : Access)
    (dup : Int) (slot : Nat) : Int :=
  let frame := slot / outChannels channels_in
  let ch := slot % outChannels channels_in
  if Mixes channels_in dup then
    (conv (sampleAt src pitch channels_in access 0 frame) +
      conv (sampleAt src pitch channels_in access 1 frame)) / 2
  else conv (sampleAt src pitch channels_in access (sourceChannel channels_in dup ch) frame)

theorem expected_range (hconv : ∀ x, -2 ^ 15 ≤ conv x ∧ conv x < 2 ^ 15) (slot : Nat) :
    -2 ^ 15 ≤ expected conv src pitch channels_in access dup slot ∧
      expected conv src pitch channels_in access dup slot < 2 ^ 15 := by
  unfold expected
  dsimp only
  split
  · have h0 := hconv (sampleAt src pitch channels_in access 0 (slot / outChannels channels_in))
    have h1 := hconv (sampleAt src pitch channels_in access 1 (slot / outChannels channels_in))
    omega
  · exact hconv _

/-- A routine whose conversion stays in the 16-bit range. -/
theorem audsink_copy_writesOnce (hconv : ∀ x, -2 ^ 15 ≤ conv x ∧ conv x < 2 ^ 15) :
    WritesOnce (audsink_copy conv src frames pitch channels_in access dup)
      (frames * outChannels channels_in) (expected conv src pitch channels_in access dup) := by
  by_cases hmix : Mixes channels_in dup
  · have hout : outChannels channels_in = 2 := by simp [outChannels, hmix.1]
    rw [audsink_copy_mixed_eq hmix]
    constructor
    · rw [List.map_flatMap, hout, ← slots_mixed]
      exact List.Perm.refl _
    · intro w hw
      obtain ⟨i, -, hw⟩ := List.mem_flatMap.mp hw
      have h0 := hconv (sampleAt src pitch channels_in access 0 i)
      have h1 := hconv (sampleAt src pitch channels_in access 1 i)
      -- the mean of two samples in range is in range, so the cast changes nothing
      have hval : w.2 = (conv (sampleAt src pitch channels_in access 0 i) +
          conv (sampleAt src pitch channels_in access 1 i)) / 2 := by
        have hw2 : w.2 = int16 ((conv (sampleAt src pitch channels_in access 0 i) +
            conv (sampleAt src pitch channels_in access 1 i)) >>> (1 : Nat)) := by
          simp only [List.mem_cons, List.not_mem_nil, or_false] at hw
          obtain rfl | rfl := hw <;> rfl
        rw [hw2, Int.shiftRight_eq_div_pow, int16_of_range (by omega) (by omega)]
        rfl
      -- both slots of the frame are written with it
      have hframe : w.1 / 2 = i := by
        simp only [List.mem_cons, List.not_mem_nil, or_false] at hw
        obtain rfl | rfl := hw <;> omega
      unfold expected
      rw [if_pos hmix, hout, hframe, hval]
  · rw [audsink_copy_eq hmix]
    constructor
    · simp only [List.map_flatMap, List.map_map, Function.comp_def]
      exact slots_perm _
    · intro w hw
      obtain ⟨c, hc, hw⟩ := List.mem_flatMap.mp hw
      obtain ⟨i, -, rfl⟩ := List.mem_map.mp hw
      -- the slot names the channel and the frame it was written for
      obtain ⟨hdiv, hmod⟩ := slot_div_mod (i := i) (List.mem_range.mp hc)
      obtain ⟨hlo, hhi⟩ := hconv (sampleAt src pitch channels_in access
        (sourceChannel channels_in dup c) i)
      unfold expected
      rw [if_neg hmix, hdiv, hmod]
      exact int16_of_range hlo hhi

/-! ### The reference -/

/-- The formats that are read low byte first. -/
inductive Format where
  | s8
  | u8
  | s16
  | u16
  | s24
  | u24
  | s32
  | u32

namespace Format

/-- The width of a stored sample. -/
def width : Format → Nat
  | s8 | u8 => 8
  | s16 | u16 => 16
  | s24 | u24 | s32 | u32 => 32

/-- The bits of the sample itself. -/
def bits : Format → Nat
  | s8 | u8 => 8
  | s16 | u16 => 16
  | s24 | u24 => 24
  | s32 | u32 => 32

/-- The signed number that a stored sample means. Zero is in the middle of the unsigned
    formats, and a sample of 24 bits is at either end of its word. -/
def value (align : Nat) : (f : Format) → BitVec f.width → Int
  | s8, x => x.toInt
  | u8, x => x.toNat - 2 ^ 7
  | s16, x => x.toInt
  | u16, x => x.toNat - 2 ^ 15
  | s24, x =>
    if align = SND_PCM_ALIGN_LEFT then x.toInt / 2 ^ 8
    else (x.setWidth 24).toInt
  | u24, x =>
    if align = SND_PCM_ALIGN_LEFT then (x.toNat : Int) / 2 ^ 8 - 2 ^ 23
    else (x.toNat : Int) % 2 ^ 24 - 2 ^ 23
  | s32, x => x.toInt
  | u32, x => x.toNat - 2 ^ 31

/-- The reference conversion to 16 bits. -/
def reference (align : Nat) (f : Format) (x : BitVec f.width) : Int :=
  f.value align x * 2 ^ 16 / 2 ^ f.bits

/-- The routine for a format. -/
def convert (align : Nat) (f : Format) (src : Nat → BitVec f.width) (frames pitch channels_in : Nat)
    (access : Access) (dup : Int) : List (Nat × Int) :=
  match f with
  | s8 => audsink_copy_s8 src frames pitch channels_in access dup
  | u8 => audsink_copy_u8 src frames pitch channels_in access dup
  | s16 => audsink_copy_s16 src frames pitch channels_in access dup
  | u16 => audsink_copy_u16 src frames pitch channels_in access dup
  | s24 => audsink_copy_s24 align src frames pitch channels_in access dup
  | u24 => audsink_copy_u24 align src frames pitch channels_in access dup
  | s32 => audsink_copy_s32 src frames pitch channels_in access dup
  | u32 => audsink_copy_u32 src frames pitch channels_in access dup

/-! Each macro converts a sample to the reference. -/

theorem S8TOS16_eq (align : Nat) : S8TOS16 = reference align s8 := by
  funext x
  have hlo := BitVec.le_toInt x
  have hhi := BitVec.toInt_lt (x := x)
  -- the cast comes before the shift, and 8 bits fit
  show int16 x.toInt * 2 ^ 8 = x.toInt * 2 ^ 16 / 2 ^ 8
  rw [int16_of_range (by omega) (by omega)]
  omega

theorem U8TOS16_eq (align : Nat) : U8TOS16 = reference align u8 := by
  funext x
  have hlt := x.isLt
  show int16 (x.toNat - 0x80) * 2 ^ 8 = (x.toNat - 2 ^ 7) * 2 ^ 16 / 2 ^ 8
  rw [int16_of_range (by omega) (by omega)]
  omega

theorem S16TOS16_eq (align : Nat) : S16TOS16 = reference align s16 := by
  funext x
  have hlo := BitVec.le_toInt x
  have hhi := BitVec.toInt_lt (x := x)
  show int16 x.toInt = x.toInt * 2 ^ 16 / 2 ^ 16
  rw [int16_of_range (by omega) (by omega)]
  omega

theorem U16TOS16_eq (align : Nat) : U16TOS16 = reference align u16 := by
  funext x
  have hlt := x.isLt
  show int16 (x.toNat - 0x8000) = (x.toNat - 2 ^ 15) * 2 ^ 16 / 2 ^ 16
  rw [int16_of_range (by omega) (by omega)]
  omega

/-- A sample of 24 bits at the upper end of its word. -/
theorem S24LTOS16_eq : S24LTOS16 = reference SND_PCM_ALIGN_LEFT s24 := by
  funext x
  have hlo := BitVec.le_toInt x
  have hhi := BitVec.toInt_lt (x := x)
  show int16 (x.toInt >>> (16 : Nat)) = x.toInt / 2 ^ 8 * 2 ^ 16 / 2 ^ 24
  rw [Int.shiftRight_eq_div_pow, int16_of_range (by omega) (by omega)]
  omega

/-- The bits above a sample of 24 bits do not matter. -/
theorem S24RTOS16_eq {align : Nat} (halign : align ≠ SND_PCM_ALIGN_LEFT) :
    S24RTOS16 = reference align s24 := by
  funext x
  have hlt := x.isLt
  have h24 : (x.setWidth 24).toNat = x.toNat % 2 ^ 24 := BitVec.toNat_setWidth 24 x
  unfold reference value
  dsimp only
  rw [if_neg halign]
  show int16 (x.toInt >>> (8 : Nat)) = (x.setWidth 24).toInt * 2 ^ 16 / 2 ^ 24
  rw [Int.shiftRight_eq_div_pow, BitVec.toInt_eq_toNat_cond, BitVec.toInt_eq_toNat_cond, h24]
  unfold int16
  split <;> split <;> omega

theorem U24LTOS16_eq : U24LTOS16 = reference SND_PCM_ALIGN_LEFT u24 := by
  funext x
  have hlt := x.isLt
  show int16 (int32 (uint32 (x.toNat - 0x80000000)) >>> (16 : Nat)) =
    ((x.toNat : Int) / 2 ^ 8 - 2 ^ 23) * 2 ^ 16 / 2 ^ 24
  rw [Int.shiftRight_eq_div_pow]
  -- the subtraction wraps around in 32 bits, and the cast back to a signed word undoes it
  unfold int16 int32 uint32
  omega

theorem U24RTOS16_eq {align : Nat} (halign : align ≠ SND_PCM_ALIGN_LEFT) :
    U24RTOS16 = reference align u24 := by
  funext x
  have hlt := x.isLt
  unfold reference value
  dsimp only
  rw [if_neg halign]
  show int16 (int32 (uint32 (x.toNat - 0x800000)) >>> (8 : Nat)) =
    ((x.toNat : Int) % 2 ^ 24 - 2 ^ 23) * 2 ^ 16 / 2 ^ 24
  rw [Int.shiftRight_eq_div_pow]
  unfold int16 int32 uint32
  omega

theorem S32TOS16_eq (align : Nat) : S32TOS16 = reference align s32 := by
  funext x
  have hlo := BitVec.le_toInt x
  have hhi := BitVec.toInt_lt (x := x)
  show int16 (x.toInt >>> (16 : Nat)) = x.toInt * 2 ^ 16 / 2 ^ 32
  rw [Int.shiftRight_eq_div_pow, int16_of_range (by omega) (by omega)]
  omega

theorem U32TOS16_eq (align : Nat) : U32TOS16 = reference align u32 := by
  funext x
  have hlt := x.isLt
  show int16 (int32 (uint32 (x.toNat - 0x80000000)) >>> (16 : Nat)) =
    ((x.toNat : Int) - 2 ^ 31) * 2 ^ 16 / 2 ^ 32
  rw [Int.shiftRight_eq_div_pow]
  unfold int16 int32 uint32
  omega

/-- The value of a sample has the bits of its format. -/
theorem value_range (align : Nat) (f : Format) (x : BitVec f.width) :
    -2 ^ (f.bits - 1) ≤ f.value align x ∧ f.value align x < 2 ^ (f.bits - 1) := by
  have hlt := x.isLt
  have hlo := BitVec.le_toInt x
  have hhi := BitVec.toInt_lt (x := x)
  cases f with
  | s8 => exact ⟨hlo, hhi⟩
  | u8 => simp only [width, value, bits] at hlt ⊢; omega
  | s16 => exact ⟨hlo, hhi⟩
  | u16 => simp only [width, value, bits] at hlt ⊢; omega
  | s24 =>
    simp only [width, value, bits] at hlo hhi ⊢
    split
    · omega
    · exact ⟨BitVec.le_toInt _, BitVec.toInt_lt⟩
  | u24 =>
    simp only [width, value, bits] at hlt ⊢
    split <;> omega
  | s32 => exact ⟨hlo, hhi⟩
  | u32 => simp only [width, value, bits] at hlt ⊢; omega

theorem reference_range (align : Nat) (f : Format) (x : BitVec f.width) :
    -2 ^ 15 ≤ f.reference align x ∧ f.reference align x < 2 ^ 15 := by
  have h := value_range align f x
  unfold reference
  cases f <;> simp only [bits] at h ⊢ <;> omega

/-- Every routine is the shared body with the reference conversion. -/
theorem convert_eq (align : Nat) (f : Format) (src : Nat → BitVec f.width) :
    f.convert align src = audsink_copy (f.reference align) src := by
  funext frames pitch channels_in access dup
  cases f with
  | s8 => rw [← S8TOS16_eq]; rfl
  | u8 => rw [← U8TOS16_eq]; rfl
  | s16 => rw [← S16TOS16_eq]; rfl
  | u16 => rw [← U16TOS16_eq]; rfl
  | s24 =>
    by_cases halign : align = SND_PCM_ALIGN_LEFT
    · subst halign
      rw [← S24LTOS16_eq]
      rfl
    · rw [← S24RTOS16_eq halign, convert, show audsink_copy_s24 align src =
        audsink_copy (if align = SND_PCM_ALIGN_LEFT then S24LTOS16 else S24RTOS16) src from rfl,
        if_neg halign]
      rfl
  | u24 =>
    by_cases halign : align = SND_PCM_ALIGN_LEFT
    · subst halign
      rw [← U24LTOS16_eq]
      rfl
    · rw [← U24RTOS16_eq halign, convert, show audsink_copy_u24 align src =
        audsink_copy (if align = SND_PCM_ALIGN_LEFT then U24LTOS16 else U24RTOS16) src from rfl,
        if_neg halign]
      rfl
  | s32 => rw [← S32TOS16_eq]; rfl
  | u32 => rw [← U32TOS16_eq]; rfl

/-- Each slot of the output is written once, with the reference conversion of the selected
    sample or the mean of two of them, and no other slot is written. -/
theorem convert_writesOnce (align : Nat) (f : Format) (src : Nat → BitVec f.width)
    (frames pitch channels_in : Nat) (access : Access) (dup : Int) :
    WritesOnce (f.convert align src frames pitch channels_in access dup)
        (frames * outChannels channels_in)
        (expected (f.reference align) src pitch channels_in access dup) ∧
      ∀ slot, -2 ^ 15 ≤ expected (f.reference align) src pitch channels_in access dup slot ∧
        expected (f.reference align) src pitch channels_in access dup slot < 2 ^ 15 := by
  rw [convert_eq]
  exact ⟨audsink_copy_writesOnce (f.reference_range align),
    expected_range (f.reference_range align)⟩

end Format

end Hcrtos.Native.CopyFrame
