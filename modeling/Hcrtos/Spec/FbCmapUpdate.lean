import Hcrtos.Native.FbCmap
import Hcrtos.Spec.FbFileTransfer

/-!
# Colour map updates

`hcfb_setcmap` packs the colours of a map into the palette from its first entry on, as many as
there are: it does not look at the start of the map, and it does not stop at the end of the
palette. The colour map that the frame buffer keeps is updated at the right place.

## Key results

- `setEntries_eq`: the loop writes one run of bytes
- `fb_copy_cmap_entry`: the colour map of the frame buffer
- `updates_iff`: the maps that change exactly their own entries
- `updates_fails`: a map of one entry that starts at entry 1
-/

namespace Hcrtos.Native.Hcfb

open WordMemory

/-- `fb_set_user_cmap` does not refuse the map: its length in bytes is a positive `int`, and its
    start is one as well. -/
structure Cmap.Accepted (c : Cmap) : Prop where
  len : c.len.toNat < 1073741824
  start : c.start.toNat < 2147483648

/-- Byte `k` of entry `j` of the palette. -/
def PaletteInfo.swByte (s : PaletteInfo) (j k : Nat) : UInt8 :=
  s.info.memory (s.palette_sw + UInt32.ofNat (4 * j + k))

/-- The entry belongs to the map. -/
def Cmap.Has (c : Cmap) (j : Nat) : Prop := c.start.toNat ≤ j ∧ j < c.start.toNat + c.len.toNat

instance (c : Cmap) (j : Nat) : Decidable (c.Has j) := inferInstanceAs (Decidable (_ ∧ _))

/-- One colour of the map that the frame buffer keeps. -/
def Cmap.Takes (c : Cmap) (old new given : Nat → UInt16) : Prop :=
  ∀ j < 256, new j = if c.Has j then given (j - c.start.toNat) else old j

/-- Setting the map `c` changes exactly its entries, in the palette and in the colour map, and
    nothing else in memory. The display reads a copy of the palette. -/
structure Updates (s : PaletteInfo) (c : Cmap) (t : PaletteInfo) : Prop where
  entry : ∀ j < 256, ∀ k < 4,
    t.swByte j k = if c.Has j then c.entry (j - c.start.toNat) k else s.swByte j k
  copied : ∀ i < 1024,
    t.info.memory (t.palette_hw + UInt32.ofNat i) = t.info.memory (t.palette_sw + UInt32.ofNat i)
  other : ∀ a, 2048 ≤ (a - s.palette_hw).toNat → t.info.memory a = s.info.memory a
  red : c.Takes s.cmap.red t.cmap.red c.red
  green : c.Takes s.cmap.green t.cmap.green c.green
  blue : c.Takes s.cmap.blue t.cmap.blue c.blue
  transp : ∀ old new given, s.cmap.transp = some old → t.cmap.transp = some new →
    c.transp = some given → c.Takes old new given

/-! ### What is accepted -/

theorem toInt32_lt_zero_iff (x : UInt32) : x.toInt32 < 0 ↔ 2147483648 ≤ x.toNat := by
  have hlt := x.toNat_lt
  have hint : x.toInt32.toInt = (x.toNat : Int).bmod 4294967296 := by
    show x.toBitVec.toInt = _
    rw [BitVec.toInt_eq_toNat_bmod]
    rfl
  rw [Int32.lt_iff_toInt_lt, hint, Int.bmod_def, Int32.toInt_zero]
  omega

theorem user_size_iff (len : UInt32) :
    ((len * 2).toInt32 < 0 ∨ (len * 2).toInt32.toUInt32 < len) ↔ 1073741824 ≤ len.toNat := by
  have hlt := len.toNat_lt
  have hmul : (len * 2).toNat = len.toNat * 2 % 4294967296 := UInt32.toNat_mul _ _
  rw [toInt32_lt_zero_iff, UInt32.toUInt32_toInt32, UInt32.lt_iff_toNat_lt, hmul]
  omega

/-- The maps that are accepted are those that `fb_set_user_cmap` does not answer with an error. -/
theorem fb_set_user_cmap_eq_zero_iff (s : PaletteInfo) (c : Cmap) :
    (s.fb_set_user_cmap c).2 = 0 ↔ c.Accepted := by
  rw [PaletteInfo.fb_set_user_cmap]
  by_cases hlen : 1073741824 ≤ c.len.toNat
  · rw [if_pos ((user_size_iff c.len).mpr hlen)]
    exact ⟨fun h => by contradiction, fun h => absurd h.len (by omega)⟩
  rw [if_neg (mt (user_size_iff c.len).mp hlen), PaletteInfo.fb_set_cmap]
  by_cases hstart : 2147483648 ≤ c.start.toNat
  · rw [if_pos ((toInt32_lt_zero_iff c.start).mpr hstart)]
    exact ⟨fun h => by contradiction, fun h => absurd h.start (by omega)⟩
  rw [if_neg (mt (toInt32_lt_zero_iff c.start).mp hstart)]
  refine ⟨fun _ => ⟨by omega, by omega⟩, fun _ => ?_⟩
  dsimp only
  split <;> rfl

/-- What an accepted map does: the driver sets the palette, then the colour map is updated. -/
theorem fb_set_user_cmap_spec {s : PaletteInfo} {c : Cmap} (h : c.Accepted) :
    (s.fb_set_user_cmap c).1.info = (s.hcfb_setcmap c).info ∧
      (s.fb_set_user_cmap c).1.palette_hw = s.palette_hw ∧
      (s.fb_set_user_cmap c).1.cmap = (fb_copy_cmap c s.cmap).getD s.cmap := by
  have hlen := mt (user_size_iff c.len).mp (Nat.not_le.mpr h.len)
  have hstart := mt (toInt32_lt_zero_iff c.start).mp (Nat.not_le.mpr h.start)
  rw [PaletteInfo.fb_set_user_cmap, if_neg hlen, PaletteInfo.fb_set_cmap, if_neg hstart]
  dsimp only
  split
  · rename_i hnone
    have hcopy : fb_copy_cmap c s.cmap = none := hnone
    rw [hcopy]
    exact ⟨rfl, rfl, rfl⟩
  · rename_i cmap hsome
    have hcopy : fb_copy_cmap c s.cmap = some cmap := hsome
    rw [hcopy]
    exact ⟨rfl, rfl, rfl⟩

/-! ### The palette -/

/-- Byte `b` of the packed colours. -/
def Cmap.packed (c : Cmap) (b : Nat) : UInt8 := c.entry (b / 4) (b % 4)

theorem setEntries_eq (c : Cmap) (m : Mem) (palette : UInt32) {n : Nat} (h : 4 * n ≤ 4294967296) :
    c.setEntries m palette n = patch m palette (4 * n) c.packed := by
  induction n with
  | zero => exact (patch_zero m palette _).symm
  | succ n ih =>
    rw [Cmap.setEntries, ih (by omega), patch_patch_add _ _ _ _ (by omega) (by omega)]
    refine patch_congr fun b hb => ?_
    split
    · rfl
    · have hdiv : b / 4 = n := by omega
      have hmod : b % 4 = b - 4 * n := by omega
      rw [Cmap.packed, hdiv, hmod]

/-- The memory after the driver has set the palette. -/
theorem hcfb_setcmap_memory (s : PaletteInfo) {c : Cmap} (h : c.len.toNat < 1073741824) :
    (s.hcfb_setcmap c).info.memory =
      patch (patch s.info.memory s.palette_sw (4 * c.len.toNat) c.packed) s.palette_hw 1024
        fun i => patch s.info.memory s.palette_sw (4 * c.len.toNat) c.packed
          (s.palette_sw + UInt32.ofNat i) := by
  have hrun := setEntries_eq c s.info.memory s.palette_sw (n := c.len.toNat) (by omega)
  rw [PaletteInfo.hcfb_setcmap, hrun]

theorem sw_distance (s : PaletteInfo) {i : Nat} (hi : i < 1024) :
    (s.palette_sw + UInt32.ofNat i - s.palette_hw).toNat = 1024 + i := by
  have haddr : s.palette_sw + UInt32.ofNat i = s.palette_hw + UInt32.ofNat (1024 + i) := by
    rw [PaletteInfo.palette_sw, UInt32.ofNat_add, UInt32.add_assoc]
    rfl
  rw [haddr, toNat_add_ofNat_sub _ (by omega)]

/-- The first palette does not reach into the second one. -/
theorem hcfb_setcmap_sw (s : PaletteInfo) {c : Cmap} (h : c.len.toNat < 1073741824) {i : Nat}
    (hi : i < 1024) :
    (s.hcfb_setcmap c).info.memory (s.palette_sw + UInt32.ofNat i) =
      if i < 4 * c.len.toNat then c.packed i else s.info.memory (s.palette_sw + UInt32.ofNat i) := by
  have hdist := sw_distance s hi
  rw [hcfb_setcmap_memory s h, patch_apply_of_le _ (by omega)]
  by_cases hlt : i < 4 * c.len.toNat
  · rw [if_pos hlt, patch_apply_add _ hlt (by omega)]
  · rw [if_neg hlt, patch_apply_of_le]
    rw [toNat_add_ofNat_sub _ (by omega)]
    omega

/-- The first palette is a copy of the second one. -/
theorem hcfb_setcmap_copied (s : PaletteInfo) {c : Cmap} (h : c.len.toNat < 1073741824) {i : Nat}
    (hi : i < 1024) :
    (s.hcfb_setcmap c).info.memory (s.palette_hw + UInt32.ofNat i) =
      (s.hcfb_setcmap c).info.memory (s.palette_sw + UInt32.ofNat i) := by
  have hdist := sw_distance s hi
  rw [hcfb_setcmap_memory s h, patch_apply_add _ hi (by omega)]
  exact (patch_apply_of_le _ (by omega)).symm

/-- Behind the two palettes, memory is overwritten as far as the map is too long. -/
theorem hcfb_setcmap_behind (s : PaletteInfo) {c : Cmap} (h : c.len.toNat < 1073741824)
    {a : UInt32} (ha : 2048 ≤ (a - s.palette_hw).toNat) :
    (s.hcfb_setcmap c).info.memory a =
      if (a - s.palette_hw).toNat - 1024 < 4 * c.len.toNat then
        c.packed ((a - s.palette_hw).toNat - 1024)
      else s.info.memory a := by
  have hdist : (a - s.palette_sw).toNat = (a - s.palette_hw).toNat - 1024 := by
    have hsub := @toNat_sub_add s.palette_hw a 1024 (by omega)
    rw [if_pos (by omega)] at hsub
    exact hsub
  rw [hcfb_setcmap_memory s h, patch_apply_of_le _ (by omega), ← hdist]
  rfl

/-! ### The colour map of the frame buffer -/

/-- The entries that a map of 256 takes over. -/
def Cmap.common (c : Cmap) : Nat := min c.len.toNat (256 - c.start.toNat)

theorem fb_copy_cmap_eq {c dst : Cmap} (hstart : dst.start = 0) (hlen : dst.len = 256) :
    fb_copy_cmap c dst =
      if c.common = 0 then none else some (dst.copyFrom c c.start.toNat 0 c.common) := by
  have hlt : ¬ c.start < dst.start := by
    rw [hstart]
    exact UInt32.not_lt_zero
  have hsub : c.start - dst.start = c.start := by rw [hstart, UInt32.sub_zero]
  unfold fb_copy_cmap
  rw [if_neg hlt, if_neg hlt, hsub, hlen]
  dsimp only
  rw [UInt32.sub_zero]
  by_cases hfar : (256 : UInt32) ≤ c.start
  · have hcommon : c.common = 0 := by
      have h256 : 256 ≤ c.start.toNat := UInt32.le_iff_toNat_le.mp hfar
      rw [Cmap.common]
      omega
    rw [if_pos (.inr hfar), if_pos hcommon]
  have h256 : c.start.toNat < 256 := UInt32.lt_iff_toNat_lt.mp (UInt32.not_le.mp hfar)
  have hroom : (256 - c.start).toNat = 256 - c.start.toNat := toNat_sub_of_le (by
    show c.start.toNat ≤ 256
    omega)
  by_cases hempty : c.len ≤ 0
  · have hcommon : c.common = 0 := by
      have hzero : c.len.toNat ≤ 0 := UInt32.le_iff_toNat_le.mp hempty
      rw [Cmap.common]
      omega
    rw [if_pos (.inl hempty), if_pos hcommon]
  have hpos : 0 < c.len.toNat := UInt32.lt_iff_toNat_lt.mp (UInt32.not_le.mp hempty)
  rw [if_neg (not_or.mpr ⟨hempty, hfar⟩)]
  have hsize : (if 256 - c.start < c.len then 256 - c.start else c.len).toNat = c.common := by
    rw [Cmap.common]
    split
    · rename_i h
      rw [UInt32.lt_iff_toNat_lt, hroom] at h
      omega
    · rename_i h
      rw [UInt32.lt_iff_toNat_lt, hroom] at h
      omega
  have hne : c.common ≠ 0 := by
    rw [Cmap.common]
    omega
  have hle : c.common ≤ 256 := by
    rw [Cmap.common]
    omega
  generalize (if 256 - c.start < c.len then 256 - c.start else c.len) = size at hsize
  have hbytes : (size * 2).toNat / 2 = c.common := by
    rw [UInt32.toNat_mul, hsize]
    show c.common * 2 % 4294967296 / 2 = c.common
    omega
  have hzero : size ≠ 0 := by
    rintro rfl
    exact hne hsize.symm
  rw [if_neg hzero, if_neg hne, hbytes]
  rfl

theorem takes_copyColours (c : Cmap) (old given : Nat → UInt16) :
    c.Takes old (copyColours old given c.start.toNat 0 c.common) given := by
  intro j hj
  rw [copyColours, Nat.zero_add, Cmap.common]
  by_cases h : c.Has j
  · rw [if_pos h, if_pos ⟨h.1, by have := h.2; omega⟩]
  · rw [if_neg h, if_neg fun hin => h ⟨hin.1, by omega⟩]

/-- A map without a common entry takes nothing over. -/
theorem takes_self {c : Cmap} (h : c.common = 0) (old given : Nat → UInt16) :
    c.Takes old old given := by
  intro j hj
  rw [Cmap.common] at h
  rw [if_neg fun hin : c.Has j => by have := hin.1; have := hin.2; omega]

/-- The colour map takes over exactly the entries of the map. -/
theorem fb_copy_cmap_entry {c dst : Cmap} (hstart : dst.start = 0) (hlen : dst.len = 256) :
    c.Takes dst.red ((fb_copy_cmap c dst).getD dst).red c.red ∧
      c.Takes dst.green ((fb_copy_cmap c dst).getD dst).green c.green ∧
      c.Takes dst.blue ((fb_copy_cmap c dst).getD dst).blue c.blue ∧
      ∀ old new given, dst.transp = some old →
        ((fb_copy_cmap c dst).getD dst).transp = some new → c.transp = some given →
        c.Takes old new given := by
  rw [fb_copy_cmap_eq hstart hlen]
  by_cases hcommon : c.common = 0
  · rw [if_pos hcommon]
    refine ⟨takes_self hcommon _ _, takes_self hcommon _ _, takes_self hcommon _ _, ?_⟩
    intro old new given hold hnew _
    obtain rfl : old = new := Option.some.inj (hold.symm.trans hnew)
    exact takes_self hcommon _ _
  · rw [if_neg hcommon]
    refine ⟨takes_copyColours c _ _, takes_copyColours c _ _, takes_copyColours c _ _, ?_⟩
    intro old new given hold hnew hgiven
    have hcopied : (dst.copyFrom c c.start.toNat 0 c.common).transp =
        some (copyColours old given c.start.toNat 0 c.common) := by
      rw [Cmap.copyFrom, hgiven, hold]
    obtain rfl := Option.some.inj (hcopied.symm.trans hnew)
    exact takes_copyColours c _ _

/-! ### Updates -/

/-- A map that starts at the first entry and fits the palette changes its own entries only. -/
theorem updates_of_fits {c : Cmap} (hc : c.Accepted)
    (h : c.len = 0 ∨ c.start = 0 ∧ c.len.toNat ≤ 256) (s : PaletteInfo) :
    Updates s c (s.fb_set_user_cmap c).1 := by
  obtain ⟨hinfo, hhw, hcmap⟩ := fb_set_user_cmap_spec hc (s := s)
  have hsw : (s.fb_set_user_cmap c).1.palette_sw = s.palette_sw := by
    rw [PaletteInfo.palette_sw, hhw, PaletteInfo.palette_sw]
  have hlen : c.len.toNat ≤ 256 := by
    rcases h with h | h
    · rw [h]
      decide
    · exact h.2
  obtain ⟨hred, hgreen, hblue, htransp⟩ := @fb_copy_cmap_entry c s.cmap s.cmap_start s.cmap_len
  refine ⟨?_, ?_, ?_, ?_, ?_, ?_, ?_⟩
  · intro j hj k hk
    have hstart : c.len.toNat ≠ 0 → c.start.toNat = 0 := by
      intro hne
      rcases h with h | h
      · rw [h] at hne
        exact absurd rfl hne
      · rw [h.1]
        rfl
    have hhas : c.Has j ↔ 4 * j + k < 4 * c.len.toNat := by
      unfold Cmap.Has
      by_cases hzero : c.len.toNat = 0
      · omega
      · have := hstart hzero
        omega
    rw [PaletteInfo.swByte, hsw, hinfo, hcfb_setcmap_sw s hc.len (by omega)]
    by_cases hin : c.Has j
    · have hzero : c.start.toNat = 0 := hstart (by
        have := hin.1
        have := hin.2
        omega)
      have hdiv : (4 * j + k) / 4 = j := by omega
      have hmod : (4 * j + k) % 4 = k := by omega
      rw [if_pos (hhas.mp hin), if_pos hin, hzero, Nat.sub_zero, Cmap.packed, hdiv, hmod]
    · rw [if_neg fun hlt => hin (hhas.mpr hlt), if_neg hin, PaletteInfo.swByte]
  · intro i hi
    rw [hsw, hhw, hinfo]
    exact hcfb_setcmap_copied s hc.len hi
  · intro a ha
    rw [hinfo, hcfb_setcmap_behind s hc.len ha, if_neg (by omega)]
  · rw [hcmap]
    exact hred
  · rw [hcmap]
    exact hgreen
  · rw [hcmap]
    exact hblue
  · rw [hcmap]
    exact htransp

/-- A frame buffer whose memory is the same byte everywhere. -/
def paletteInfo (v : UInt8) : PaletteInfo where
  info := { exampleInfo with memory := fun _ => v }
  palette_hw := 0xa0200000
  palette_ncolors_sw := 0
  palette_type_sw := .YCBCR
  palette_alpha_range_sw := .ALPHA_15
  palette_rgb_order_sw := .ABGR
  cmap := ⟨0, 256, fun _ => 0, fun _ => 0, fun _ => 0, some fun _ => 0⟩
  placed := by decide
  cmap_start := rfl
  cmap_len := rfl

/-- A map that starts later changes entry 0 all the same. -/
theorem not_updates_of_start {c : Cmap} (hc : c.Accepted) (hlen : c.len ≠ 0) (hstart : c.start ≠ 0) :
    ∃ s, ¬ Updates s c (s.fb_set_user_cmap c).1 := by
  refine ⟨paletteInfo (c.entry 0 0 + 1), fun h => ?_⟩
  obtain ⟨hinfo, hhw, -⟩ := fb_set_user_cmap_spec hc (s := paletteInfo (c.entry 0 0 + 1))
  have hpos : 0 < c.len.toNat := Nat.pos_of_ne_zero fun hzero => hlen (UInt32.toNat_inj.mp hzero)
  have hlater : 0 < c.start.toNat :=
    Nat.pos_of_ne_zero fun hzero => hstart (UInt32.toNat_inj.mp hzero)
  have hentry := h.entry 0 (by decide) 0 (by decide)
  rw [if_neg fun hin : c.Has 0 => by have := hin.1; omega, PaletteInfo.swByte,
    PaletteInfo.palette_sw, hhw, hinfo] at hentry
  have hset := hcfb_setcmap_sw (paletteInfo (c.entry 0 0 + 1)) hc.len (i := 0) (by decide)
  rw [if_pos (by omega)] at hset
  have heq : c.entry 0 0 = c.entry 0 0 + 1 := hset.symm.trans hentry
  grind

/-- A map that is longer than the palette changes what is behind it. -/
theorem not_updates_of_length {c : Cmap} (hc : c.Accepted) (hlen : 256 < c.len.toNat) :
    ∃ s, ¬ Updates s c (s.fb_set_user_cmap c).1 := by
  refine ⟨paletteInfo (c.entry 256 0 + 1), fun h => ?_⟩
  obtain ⟨hinfo, -⟩ := fb_set_user_cmap_spec hc (s := paletteInfo (c.entry 256 0 + 1))
  have hdist : ((0xa0200800 : UInt32) - (paletteInfo (c.entry 256 0 + 1)).palette_hw).toNat =
      2048 := by
    show ((0xa0200800 : UInt32) - 0xa0200000).toNat = 2048
    decide +kernel
  have hother := h.other 0xa0200800 (by rw [hdist])
  rw [hinfo, hcfb_setcmap_behind _ hc.len (by rw [hdist]), hdist, if_pos (by omega)] at hother
  have heq : c.entry 256 0 = c.entry 256 0 + 1 := hother
  grind

/-- The accepted maps that change exactly their own entries, whatever the palette holds. -/
theorem updates_iff {c : Cmap} (hc : c.Accepted) :
    (∀ s, Updates s c (PaletteInfo.fb_set_user_cmap s c).1) ↔
      c.len = 0 ∨ c.start = 0 ∧ c.len.toNat ≤ 256 := by
  constructor
  · intro h
    by_contra hno
    rw [not_or, not_and_or] at hno
    obtain ⟨hlen, hstart | hlong⟩ := hno
    · obtain ⟨s, hs⟩ := not_updates_of_start hc hlen hstart
      exact hs (h s)
    · obtain ⟨s, hs⟩ := not_updates_of_length hc (Nat.not_le.mp hlong)
      exact hs (h s)
  · exact updates_of_fits hc

/-- Four shades of grey. -/
def exampleCmap (start : UInt32) : Cmap :=
  ⟨start, 4, fun i => UInt16.ofNat (i * 64), fun i => UInt16.ofNat (i * 64),
    fun i => UInt16.ofNat (i * 64), none⟩

theorem updates_grey : (∀ s, Updates s (exampleCmap 0)
      (PaletteInfo.fb_set_user_cmap s (exampleCmap 0)).1) ↔
    (exampleCmap 0).len = 0 ∨ (exampleCmap 0).start = 0 ∧ (exampleCmap 0).len.toNat ≤ 256 :=
  updates_iff ⟨by decide, by decide⟩

/-- The shades are meant for the entries from 16 on, and land in the first four. -/
theorem updates_fails : (exampleCmap 16).Accepted ∧
    ∃ s, ¬ Updates s (exampleCmap 16) (PaletteInfo.fb_set_user_cmap s (exampleCmap 16)).1 :=
  ⟨⟨by decide, by decide⟩, not_updates_of_start ⟨by decide, by decide⟩ (by decide) (by decide)⟩

end Hcrtos.Native.Hcfb
