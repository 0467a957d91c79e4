import Hcrtos.ForStd.Lts
import Hcrtos.Native.Hcfb
import Mathlib.Tactic.Linarith

/-!
# Scan-out containment

The picture that the display scans out stays inside the frame buffer, and its lines are as
long as reported, along every run whose settings the driver can represent: sums of offset and
size that do not wrap, a line that fits its field of the header, a buffer whose length fits
its word. Settings that only change the virtual screen keep the old buffer, and settings that
change the mode are shown at the old offset first, so both need room.

## Key results

- `Backed.hcfb_pan_display`: a pan inside the virtual screen programs a picture inside the buffer
- `Sound.step`: a call that meets its condition keeps the invariant
- `contained_of_keeps`: the runs along which the picture stays contained
- `Contained.scanned`: what this says about the bytes that the display reads
- `contained_fails`: a larger virtual screen without a larger buffer
-/

namespace Hcrtos.Native.Hcfb

open Lts

/-! ### What the display is given -/

/-- The picture that a header describes, as bytes of the buffer. -/
def Frame.raster (f : Frame) : Raster where
  off := f.off_pitch.toNat
  pitch := f.header.pitch.toNat
  rows := f.header.src_h.toNat
  width := f.header.src_w.toNat * f.header.gma_mode.bytes

/-- Each picture was inside the buffer of its time when it was programmed; the latest one is
    inside the buffer that there is, with lines of the length reported. -/
structure Contained (s : Fb) : Prop where
  programmed : ∀ f ∈ s.frames, f.raster.stop ≤ f.fb_len.toNat
  shown : ∀ f, s.frames.head? = some f → s.fb_mem = some f.fb_mem ∧
    f.raster.stop ≤ s.fb_len.toNat ∧ f.header.pitch.toUInt32 = s.line_length

/-- The bytes of a pixel. -/
def Var.pixelLen (v : Var) : Nat := v.bits_per_pixel.toNat / 8

/-- A line of the virtual screen, without overflow. -/
def Var.lineLen (v : Var) : Nat := v.xres_virtual.toNat * v.pixelLen

/-- The virtual screen, without overflow. -/
def Var.screenLen (v : Var) : Nat := v.lineLen * v.yres_virtual.toNat

/-- The settings that the driver can represent. -/
structure Fits (extra : UInt32) (v : Var) : Prop where
  x : v.xoffset.toNat + v.xres.toNat < 4294967296
  y : v.yoffset.toNat + v.yres.toNat < 4294967296
  line : v.lineLen < 16384
  size : v.screenLen + extra.toNat < 4294967296

/-- The condition of a call: the allocator answers when it is asked, and new settings fit. Those
    of the same mode keep the buffer, which must hold the new virtual screen; those of another
    mode are shown at the offset of the old picture first, where the new one must have room. -/
def Keeps (s : Fb) : Call → Prop
  | .openDev mem => s.layer_size ≠ s.fb_len → mem ≠ none
  | .setVar var mem => s.var ≠ var → ∀ v, hcfb_check_var var = some v →
      Fits s.extra_fb_len v ∧
      (s.sameMode v = true → v.screenLen ≤ s.fb_len.toNat) ∧
      (s.sameMode v = false →
        (v.screenLen + s.extra_fb_len.toNat ≠ s.fb_len.toNat → mem ≠ none) ∧
        s.off_pitch.toNat + v.lineLen * v.yres.toNat + v.xres.toNat * v.pixelLen ≤
          v.screenLen + v.lineLen + s.extra_fb_len.toNat)
  | _ => True

instance (extra : UInt32) (v : Var) : Decidable (Fits extra v) :=
  decidable_of_iff (v.xoffset.toNat + v.xres.toNat < 4294967296 ∧
    v.yoffset.toNat + v.yres.toNat < 4294967296 ∧ v.lineLen < 16384 ∧
    v.screenLen + extra.toNat < 4294967296)
    ⟨fun ⟨hx, hy, hline, hsize⟩ => ⟨hx, hy, hline, hsize⟩,
      fun ⟨hx, hy, hline, hsize⟩ => ⟨hx, hy, hline, hsize⟩⟩

instance (s : Fb) : ∀ a, Decidable (Keeps s a)
  | .openDev mem => inferInstanceAs (Decidable (s.layer_size ≠ s.fb_len → mem ≠ none))
  | .setVar var mem =>
    match h : hcfb_check_var var with
    | none => isTrue fun _ v hv => absurd (h ▸ hv) (Option.some_ne_none v).symm
    | some v =>
      decidable_of_iff (s.var ≠ var → Fits s.extra_fb_len v ∧
          (s.sameMode v = true → v.screenLen ≤ s.fb_len.toNat) ∧
          (s.sameMode v = false →
            (v.screenLen + s.extra_fb_len.toNat ≠ s.fb_len.toNat → mem ≠ none) ∧
            s.off_pitch.toNat + v.lineLen * v.yres.toNat + v.xres.toNat * v.pixelLen ≤
              v.screenLen + v.lineLen + s.extra_fb_len.toNat))
        ⟨fun hv hvar w hw => by cases h.symm.trans hw; exact hv hvar, fun hk hvar => hk hvar v h⟩
  | .pan _ | .setScale _ _ _ _ | .setLeftTop _ _ | .blank _ => isTrue trivial

/-! ### Checked settings -/

/-- What `hcfb_check_var` establishes about the format of a pixel. -/
structure Var.Checked (v : Var) : Prop where
  bits : v.bits_per_pixel.toNat ≤ 32
  format : ∀ old, (hcfb_set_color_format old v).bytes = v.pixelLen

/-- The offset and the size are inside the virtual screen. -/
structure Var.Inside (v : Var) : Prop where
  x : v.xoffset.toNat + v.xres.toNat ≤ v.xres_virtual.toNat
  y : v.yoffset.toNat + v.yres.toNat ≤ v.yres_virtual.toNat

theorem checked_of_eight {v : Var} (h : v.bits_per_pixel = 8) : v.Checked where
  bits := by rw [h]; decide
  format := fun old => by rw [Var.pixelLen, hcfb_set_color_format, if_pos h, h]; rfl

theorem checked_of_sixteen {v : Var} (h : v.bits_per_pixel = 16)
    (hgreen : v.green.length = 6 ∨ v.green.length = 5 ∨ v.transp.length = 0 ∨ v.transp.length = 4) :
    v.Checked where
  bits := by rw [h]; decide
  format := fun old => by
    rw [Var.pixelLen, hcfb_set_color_format, if_neg (by rw [h]; decide), if_pos h, h]
    split
    · rfl
    split
    · rfl
    split
    · rfl
    · rw [if_pos (by tauto)]
      rfl

theorem checked_of_thirtytwo {v : Var} (h : v.bits_per_pixel = 32)
    (htransp : v.transp.length = 8 ∨ v.transp.length = 0) : v.Checked where
  bits := by rw [h]; decide
  format := fun old => by
    rw [Var.pixelLen, hcfb_set_color_format, if_neg (by rw [h]; decide),
      if_neg (by rw [h]; decide), if_pos h, h]
    split
    · rfl
    · rw [if_pos (by tauto)]
      rfl

/-- Settings that are accepted. -/
theorem hcfb_check_var_some {var v : Var} (h : hcfb_check_var var = some v) :
    v.Checked ∧ ¬ v.xres_virtual < v.xoffset + v.xres ∧ ¬ v.yres_virtual < v.yoffset + v.yres := by
  unfold hcfb_check_var at h
  split at h
  · contradiction
  rename_i hbounds
  rw [not_or] at hbounds
  split at h
  · cases h
    exact ⟨checked_of_eight rfl, hbounds⟩
  split at h
  · split at h
    · contradiction
    cases h
    refine ⟨checked_of_sixteen rfl ?_, hbounds⟩
    dsimp only
    -- the length of the alpha field follows from that of the green one
    split
    · by_cases htransp : var.transp.length = 0
      · exact .inr (.inr (.inl (by rw [if_pos htransp])))
      · exact .inr (.inr (.inr (by rw [if_neg htransp]; rfl)))
    split
    · exact .inr (.inl rfl)
    · exact .inl rfl
  split at h
  · cases h
    refine ⟨checked_of_thirtytwo rfl ?_, hbounds⟩
    dsimp only
    split
    · exact .inr rfl
    · exact .inl rfl
  · contradiction

/-- Without overflow, accepted settings are inside the virtual screen. -/
theorem Fits.inside {extra : UInt32} {var v : Var} (h : Fits extra v)
    (hcheck : hcfb_check_var var = some v) : v.Inside := by
  obtain ⟨-, hx, hy⟩ := hcfb_check_var_some hcheck
  have hfx := h.x
  have hfy := h.y
  rw [UInt32.lt_iff_toNat_lt, UInt32.toNat_add] at hx hy
  exact ⟨by omega, by omega⟩

/-! ### Words -/

theorem toNat_sub_of_le {n m : UInt32} (h : n.toNat ≤ m.toNat) :
    (m - n).toNat = m.toNat - n.toNat :=
  UInt32.toNat_sub_of_le _ _ (UInt32.le_iff_toNat_le.mpr h)

theorem Var.toNat_bytes (v : Var) : (v.bits_per_pixel >>> 3).toNat = v.pixelLen := by
  rw [UInt32.toNat_shiftRight]
  exact Nat.shiftRight_eq_div_pow _ 3

theorem Var.toNat_lineBytes {v : Var} (h : v.lineLen < 16384) :
    v.lineBytes.toNat = v.lineLen := by
  rw [Var.lineBytes, UInt32.toNat_mul, v.toNat_bytes]
  exact Nat.mod_eq_of_lt (by unfold Var.lineLen at h; omega)

theorem Var.toNat_pitch {v : Var} (h : v.lineLen < 16384) :
    v.lineBytes.toUInt16.toNat = v.lineLen := by
  rw [UInt32.toNat_toUInt16, v.toNat_lineBytes h]
  exact Nat.mod_eq_of_lt (by omega)

theorem Var.Checked.toNat_bits {v : Var} (h : v.Checked) :
    v.bits_per_pixel.toUInt16.toNat = v.bits_per_pixel.toNat := by
  have hbits := h.bits
  rw [UInt32.toNat_toUInt16]
  exact Nat.mod_eq_of_lt (by omega)

theorem toNat_toUInt16_le (n : UInt32) : n.toUInt16.toNat ≤ n.toNat := by
  rw [UInt32.toNat_toUInt16]
  exact Nat.mod_le _ _

theorem toNat_layer_size {s : Fb} (h : s.var.screenLen + s.extra_fb_len.toNat < 4294967296) :
    s.layer_size.toNat = s.var.screenLen + s.extra_fb_len.toNat := by
  have hsize : s.var.screenLen = s.var.xres_virtual.toNat * s.var.yres_virtual.toNat *
      s.var.pixelLen := by
    rw [Var.screenLen, Var.lineLen, Nat.mul_right_comm]
  rw [hsize] at h ⊢
  rw [Fb.layer_size, UInt32.toNat_add, UInt32.toNat_mul, UInt32.toNat_mul, s.var.toNat_bytes,
    Nat.mod_mul_mod, Nat.mod_add_mod]
  exact Nat.mod_eq_of_lt h

theorem layer_size_eq_iff {s : Fb} (h : s.var.screenLen + s.extra_fb_len.toNat < 4294967296) :
    s.layer_size = s.fb_len ↔ s.var.screenLen + s.extra_fb_len.toNat = s.fb_len.toNat := by
  rw [← UInt32.toNat_inj, toNat_layer_size h]

/-! ### The invariant -/

/-- The buffer holds the virtual screen, and its lines are as long as reported. -/
structure Backed (s : Fb) : Prop where
  source : s.buffer_source = .system ∨ s.buffer_source = .mmz0
  line_lt : s.var.lineLen < 16384
  size_lt : s.var.screenLen + s.extra_fb_len.toNat < 4294967296
  checked : s.var.Checked
  x : s.var.xoffset.toNat + s.var.xres.toNat ≤ s.var.xres_virtual.toNat
  y : s.var.yoffset.toNat ≤ s.var.yres_virtual.toNat
  yres : s.var.yres.toNat ≤ s.var.yres_virtual.toNat
  mem : s.fb_mem.isSome
  len : s.var.screenLen ≤ s.fb_len.toNat
  line : s.line_length.toNat = s.var.lineLen

/-- The geometry that the driver has stored is that of the settings. -/
structure Placed (s : Fb) : Prop where
  pitch : s.pitch.toNat = s.var.lineLen
  bits : s.bits_per_pixel.toNat = s.var.bits_per_pixel.toNat
  src_w : s.src_w.toNat ≤ s.var.xres.toNat
  src_h : s.src_h.toNat + s.var.yoffset.toNat ≤ s.var.yres_virtual.toNat

/-- The invariant. Before the device is opened the hardware has no format yet, and the offset
    of the settings is that of the node. -/
structure Sound (s : Fb) : Prop extends Backed s, Placed s where
  off : s.off_pitch.toNat ≤
    s.var.lineLen * s.var.yoffset.toNat + s.var.xoffset.toNat * s.var.pixelLen
  format : s.hwinited = true → s.color_format.bytes = s.var.pixelLen
  inside : s.hwinited = false → s.var.Inside

/-- The rows that `hcfb_update` programs are those of the screen below the offset. -/
theorem hcfb_update_placed {s : Fb} (h : Backed s) : Placed (s.hcfb_update s.var) where
  pitch := Var.toNat_pitch h.line_lt
  bits := h.checked.toNat_bits
  src_w := toNat_toUInt16_le s.var.xres
  src_h := by
    have hbelow := toNat_sub_of_le h.y
    have hy := h.y
    show UInt16.toNat (UInt32.toUInt16 (if _ then _ else _)) + s.var.yoffset.toNat ≤
      s.var.yres_virtual.toNat
    rw [UInt32.toNat_toUInt16]
    split
    · rename_i hrows
      rw [UInt32.le_iff_toNat_le, hbelow] at hrows
      have := Nat.mod_le s.var.yres.toNat (2 ^ 16)
      omega
    · rw [hbelow]
      have := Nat.mod_le (s.var.yres_virtual.toNat - s.var.yoffset.toNat) (2 ^ 16)
      omega

/-- `hcfb_update` changes only the stored geometry. -/
theorem Backed.hcfb_update {s : Fb} (h : Backed s) (var : Var) : Backed (s.hcfb_update var) :=
  ⟨h.source, h.line_lt, h.size_lt, h.checked, h.x, h.y, h.yres, h.mem, h.len, h.line⟩

/-! ### Programming the display -/

theorem gma_dmba_update_some {s : Fb} {mem : UInt32} (h : s.fb_mem = some mem) :
    s.gma_dmba_update =
      { s with frames := ⟨s.header mem, mem, s.off_pitch, s.fb_len⟩ :: s.frames } := by
  rw [Fb.gma_dmba_update, h]

/-- The picture that is programmed next. -/
def Fb.next (s : Fb) : Raster where
  off := s.off_pitch.toNat
  pitch := s.var.lineLen
  rows := s.src_h.toNat % 4096
  width := s.src_w.toNat % 4096 * s.color_format.bytes

theorem raster_eq_next {s : Fb} (hline : s.var.lineLen < 16384)
    (hpitch : s.pitch.toNat = s.var.lineLen) (mem len : UInt32) :
    Frame.raster ⟨s.header mem, mem, s.off_pitch, len⟩ = s.next := by
  have hlen : (s.pitch % 16384).toNat = s.var.lineLen := by
    rw [UInt16.toNat_mod, hpitch]
    exact Nat.mod_eq_of_lt hline
  simp only [Frame.raster, Fb.header, Fb.next, hlen, UInt16.toNat_mod]
  rfl

/-- A picture inside the buffer is programmed. -/
theorem Contained.gma_dmba_update {s : Fb} (hprogrammed : ∀ f ∈ s.frames, f.raster.stop ≤ f.fb_len.toNat)
    (hb : Backed s) (hpitch : s.pitch.toNat = s.var.lineLen)
    (hnext : s.next.stop ≤ s.fb_len.toNat) : Contained s.gma_dmba_update := by
  obtain ⟨mem, hmem⟩ := Option.isSome_iff_exists.mp hb.mem
  rw [gma_dmba_update_some hmem]
  refine ⟨?_, ?_⟩
  · intro f hf
    cases hf with
    | head => rw [raster_eq_next hb.line_lt hpitch]; exact hnext
    | tail _ hf => exact hprogrammed f hf
  · rintro f ⟨⟩
    refine ⟨hmem, ?_, ?_⟩
    · rw [raster_eq_next hb.line_lt hpitch]
      exact hnext
    · have hline := hb.line_lt
      apply UInt32.toNat_inj.mp
      show (s.pitch % 16384).toUInt32.toNat = s.line_length.toNat
      rw [hb.line, UInt16.toNat_toUInt32, UInt16.toNat_mod, hpitch]
      exact Nat.mod_eq_of_lt hline

/-- The picture is narrower than the settings say, and `src_w` and `src_h` lose bits on their
    way into the header. -/
theorem Placed.next_width_le {s : Fb} (hp : Placed s)
    (hformat : s.color_format.bytes = s.var.pixelLen) :
    s.next.width ≤ s.var.xres.toNat * s.var.pixelLen := by
  show s.src_w.toNat % 4096 * s.color_format.bytes ≤ _
  rw [hformat]
  exact Nat.mul_le_mul_right _ ((Nat.mod_le _ _).trans hp.src_w)

/-- The next picture is a window on the virtual screen, from no later a byte on. -/
theorem next_stop_le {s : Fb} (hb : Backed s) (hp : Placed s)
    (hoff : s.off_pitch.toNat ≤
      s.var.lineLen * s.var.yoffset.toNat + s.var.xoffset.toNat * s.var.pixelLen)
    (hformat : s.color_format.bytes = s.var.pixelLen) : s.next.stop ≤ s.fb_len.toNat := by
  have hx : s.var.xoffset.toNat * s.var.pixelLen + s.var.xres.toNat * s.var.pixelLen ≤
      s.var.lineLen := by
    rw [← Nat.add_mul]
    exact Nat.mul_le_mul_right _ hb.x
  have hy : s.var.yoffset.toNat + s.next.rows ≤ s.var.yres_virtual.toNat := by
    have hrows : s.next.rows ≤ s.src_h.toNat := Nat.mod_le _ _
    have := hp.src_h
    omega
  calc s.next.stop
    _ ≤ (Raster.window s.var.lineLen (s.var.xoffset.toNat * s.var.pixelLen) s.var.yoffset.toNat
          s.next.rows (s.var.xres.toNat * s.var.pixelLen)).stop :=
        Raster.stop_mono hoff rfl (Nat.le_refl _) (hp.next_width_le hformat)
    _ ≤ (s.var.screenLen : Nat) := Raster.stop_window_le hx hy
    _ ≤ s.fb_len.toNat := by exact_mod_cast hb.len

theorem hcfb_update_src_h_le (s : Fb) :
    (s.hcfb_update s.var).src_h.toNat ≤ s.var.yres.toNat := by
  show UInt16.toNat (UInt32.toUInt16 (if _ then _ else _)) ≤ _
  rw [UInt32.toNat_toUInt16]
  refine (Nat.mod_le _ _).trans ?_
  split
  · exact Nat.le_refl _
  · rename_i hrows
    rw [UInt32.le_iff_toNat_le] at hrows
    omega

/-- With room in the buffer, the new picture is inside it at the old offset as well. -/
theorem next_stop_le_of_room {s : Fb} {len : Nat} (hp : Placed s)
    (hrows : s.src_h.toNat ≤ s.var.yres.toNat)
    (hformat : s.color_format.bytes = s.var.pixelLen)
    (hroom : s.off_pitch.toNat + s.var.lineLen * s.var.yres.toNat +
      s.var.xres.toNat * s.var.pixelLen ≤ len + s.var.lineLen) : s.next.stop ≤ len := by
  have hwidth := hp.next_width_le hformat
  have hdown : s.var.lineLen * s.next.rows ≤ s.var.lineLen * s.var.yres.toNat :=
    Nat.mul_le_mul_left _ ((Nat.mod_le _ _).trans hrows)
  have hstop : s.next.stop = s.off_pitch.toNat + s.var.lineLen * s.next.rows - s.var.lineLen +
      s.next.width := by
    show (s.off_pitch.toNat : Int) + s.var.lineLen * ((s.next.rows : Int) - 1) + s.next.width = _
    ring
  rw [hstop]
  zify at hdown hwidth hroom
  omega

theorem Sound.contained_gma_dmba_update {s : Fb} (h : Sound s) (hopen : s.hwinited = true)
    (hprogrammed : ∀ f ∈ s.frames, f.raster.stop ≤ f.fb_len.toNat) :
    Contained s.gma_dmba_update :=
  Contained.gma_dmba_update hprogrammed h.toBacked h.pitch
    (next_stop_le h.toBacked h.toPlaced h.off (h.format hopen))

/-- Programming the display does not change what the driver has stored. -/
theorem gma_dmba_update_eq (s : Fb) :
    s.gma_dmba_update = { s with frames := s.gma_dmba_update.frames } := by
  unfold Fb.gma_dmba_update
  split <;> rfl

theorem Sound.gma_dmba_update {s : Fb} (h : Sound s) : Sound s.gma_dmba_update := by
  rw [gma_dmba_update_eq]
  exact ⟨⟨h.source, h.line_lt, h.size_lt, h.checked, h.x, h.y, h.yres, h.mem, h.len, h.line⟩,
    ⟨h.pitch, h.bits, h.src_w, h.src_h⟩, h.off, h.format, h.inside⟩

/-! ### The buffer -/

/-- `hcfb_alloc_mem` succeeds when the allocator does, with a buffer of the right length. -/
theorem hcfb_alloc_mem_eq {s : Fb} (hsource : s.buffer_source = .system ∨ s.buffer_source = .mmz0)
    (hsize : s.var.screenLen + s.extra_fb_len.toNat < 4294967296) {mem : Option UInt32}
    (hmem : s.fb_mem = none ∨ s.layer_size ≠ s.fb_len → mem ≠ none) :
    ∃ p len, len.toNat = s.var.screenLen + s.extra_fb_len.toNat ∧
      s.hcfb_alloc_mem mem = ({ s with
        pitch := s.var.lineBytes.toUInt16
        line_length := s.var.lineBytes.toUInt16.toUInt32
        fb_mem := some p
        fb_len := len }, true) := by
  have hlen := toNat_layer_size hsize
  have hnone : s.buffer_source ≠ .none := by rcases hsource with h | h <;> rw [h] <;> decide
  have hstatic : s.buffer_source ≠ .static := by rcases hsource with h | h <;> rw [h] <;> decide
  by_cases hkeep : s.fb_mem.isSome ∧ s.layer_size = s.fb_len
  · obtain ⟨p, hp⟩ := Option.isSome_iff_exists.mp hkeep.1
    refine ⟨p, s.fb_len, hkeep.2 ▸ hlen, ?_⟩
    rw [Fb.hcfb_alloc_mem, if_pos (.inr hkeep)]
    simp only [← hp]
  · have hask : mem ≠ none := hmem (by
      rw [not_and_or, Bool.not_eq_true, Option.isSome_eq_false_iff, Option.isNone_iff_eq_none]
        at hkeep
      exact hkeep)
    obtain ⟨p, rfl⟩ := Option.ne_none_iff_exists'.mp hask
    refine ⟨p, s.layer_size, hlen, ?_⟩
    refine (if_neg (not_or.mpr ⟨hnone, hkeep⟩)).trans ((if_neg hstatic).trans ?_)
    dsimp only [Fb.dropMem]
    split <;> rfl

/-- Without an answer of the allocator there is no first buffer. -/
theorem hcfb_alloc_mem_none {s : Fb} (hsource : s.buffer_source = .system ∨ s.buffer_source = .mmz0)
    (hmem : s.fb_mem = none) : ∃ t, s.hcfb_alloc_mem none = (t, false) := by
  have hnone : s.buffer_source ≠ .none := by rcases hsource with h | h <;> rw [h] <;> decide
  have hstatic : s.buffer_source ≠ .static := by rcases hsource with h | h <;> rw [h] <;> decide
  refine ⟨_, (if_neg ?_).trans (if_neg hstatic)⟩
  rintro (hsource | ⟨hsome, -⟩)
  · exact hnone hsource
  · rw [show s.fb_mem = none from hmem] at hsome
    contradiction

/-! ### Calls -/

/-- A pan inside the virtual screen programs a picture inside the buffer. -/
theorem Backed.hcfb_pan_display {s : Fb} (h : Backed s)
    (hbits : s.bits_per_pixel.toNat = s.var.bits_per_pixel.toNat)
    (hformat : s.color_format.bytes = s.var.pixelLen) (hopen : s.hwinited = true)
    (hprogrammed : ∀ f ∈ s.frames, f.raster.stop ≤ f.fb_len.toNat) {var : Var}
    (hx : var.xoffset.toNat + s.var.xres.toNat ≤ s.var.xres_virtual.toNat)
    (hy : var.yoffset.toNat ≤ s.var.yres_virtual.toNat) :
    Sound (s.hcfb_pan_display var) ∧ Contained (s.hcfb_pan_display var) := by
  let t : Fb := { s with
    off_pitch := s.line_length * var.yoffset + var.xoffset * (s.bits_per_pixel.toUInt32 >>> 3)
    var := { s.var with xoffset := var.xoffset, yoffset := var.yoffset } }
  have hb : Backed t := ⟨h.source, h.line_lt, h.size_lt, ⟨h.checked.bits, h.checked.format⟩, hx, hy,
    h.yres, h.mem, h.len, h.line⟩
  have hoff : t.off_pitch.toNat ≤
      t.var.lineLen * t.var.yoffset.toNat + t.var.xoffset.toNat * t.var.pixelLen := by
    have hbytes : (s.bits_per_pixel.toUInt32 >>> 3).toNat = s.var.pixelLen := by
      rw [UInt32.toNat_shiftRight, UInt16.toNat_toUInt32, hbits]
      exact Nat.shiftRight_eq_div_pow _ 3
    show (s.line_length * var.yoffset + var.xoffset * (s.bits_per_pixel.toUInt32 >>> 3)).toNat ≤
      s.var.lineLen * var.yoffset.toNat + var.xoffset.toNat * s.var.pixelLen
    rw [UInt32.toNat_add, UInt32.toNat_mul, UInt32.toNat_mul, hbytes, h.line, ← Nat.add_mod]
    exact Nat.mod_le _ _
  have hsound : Sound (t.hcfb_update t.var) :=
    ⟨hb.hcfb_update t.var, hcfb_update_placed hb, hoff, fun _ => hformat,
      fun hclosed => absurd hopen (by rw [show s.hwinited = false from hclosed]; decide)⟩
  exact ⟨hsound.gma_dmba_update, hsound.contained_gma_dmba_update hopen hprogrammed⟩

/-- The mode bits of the settings do not matter. -/
theorem Sound.setVmode {s : Fb} (h : Sound s) (vmode : UInt32) :
    Sound { s with var := { s.var with vmode := vmode } } :=
  ⟨⟨h.source, h.line_lt, h.size_lt, ⟨h.checked.bits, h.checked.format⟩, h.x, h.y, h.yres, h.mem,
    h.len, h.line⟩, ⟨h.pitch, h.bits, h.src_w, h.src_h⟩, h.off, h.format,
    fun hclosed => ⟨(h.inside hclosed).x, (h.inside hclosed).y⟩⟩

/-- The steps are one, so only the bounds are looked at. -/
theorem panRefused_eq (s : Fb) (var : Var) : s.panRefused var = decide
    (s.var.yres_virtual - (if 0 < var.yoffset ∧ var.ywrap then 0 else s.var.yres) < var.yoffset ∨
      s.var.xres_virtual - s.var.xres < var.xoffset) := by
  have hmod : ∀ n : UInt32, n % 1 = 0 := fun n => UInt32.toNat_inj.mp (Nat.mod_one _)
  simp [Fb.panRefused, xpanstep, ypanstep, ywrapstep, hmod]

/-- The offsets that `fb_pan_display` accepts. -/
theorem fb_pan_display_cases {s : Fb} (h : Backed s) (var : Var) :
    s.fb_pan_display var = (s, false) ∨
    (var.xoffset.toNat + s.var.xres.toNat ≤ s.var.xres_virtual.toNat ∧
      var.yoffset.toNat ≤ s.var.yres_virtual.toNat ∧
      ∃ vmode, s.fb_pan_display var = ({ s.hcfb_pan_display var with
        var := { (s.hcfb_pan_display var).var with vmode := vmode } }, true)) := by
  have hx := h.x
  have hyres := h.yres
  by_cases hrefused : s.panRefused var
  · exact .inl (if_pos hrefused)
  · have haccept := hrefused
    rw [panRefused_eq, decide_eq_true_iff, not_or] at haccept
    obtain ⟨hyoffset, hxoffset⟩ := haccept
    rw [UInt32.lt_iff_toNat_lt, toNat_sub_of_le (by omega)] at hxoffset
    refine .inr ⟨by omega, ?_, _, if_neg hrefused⟩
    rw [UInt32.lt_iff_toNat_lt] at hyoffset
    -- with a wrapping offset the rows below it are not looked at
    split at hyoffset
    · rw [toNat_sub_of_le (by simp)] at hyoffset
      simp only [UInt32.toNat_zero] at hyoffset
      omega
    · rw [toNat_sub_of_le hyres] at hyoffset
      omega

/-- Settings inside the virtual screen can be panned to. -/
theorem fb_pan_display_of_inside {s : Fb} (h : s.var.Inside) :
    ∃ vmode, s.fb_pan_display s.var = ({ s.hcfb_pan_display s.var with
      var := { (s.hcfb_pan_display s.var).var with vmode := vmode } }, true) := by
  have hx := h.x
  have hy := h.y
  refine ⟨_, if_neg ?_⟩
  rw [panRefused_eq, decide_eq_true_iff, not_or]
  constructor
  · rw [UInt32.lt_iff_toNat_lt]
    split
    · rw [toNat_sub_of_le (by simp)]
      simp only [UInt32.toNat_zero]
      omega
    · rw [toNat_sub_of_le (by omega)]
      omega
  · rw [UInt32.lt_iff_toNat_lt, toNat_sub_of_le (by omega)]
    omega

theorem Sound.fb_pan_display {s : Fb} (h : Sound s) (hc : Contained s) (hopen : s.hwinited = true)
    (var : Var) : Sound (s.fb_pan_display var).1 ∧ Contained (s.fb_pan_display var).1 := by
  obtain heq | ⟨hx, hy, vmode, heq⟩ := fb_pan_display_cases h.toBacked var
  · rw [heq]
    exact ⟨h, hc⟩
  · rw [heq]
    obtain ⟨hsound, hcontained⟩ :=
      h.toBacked.hcfb_pan_display h.bits (h.format hopen) hopen hc.programmed hx hy
    exact ⟨hsound.setVmode vmode, hcontained.programmed, hcontained.shown⟩

theorem Sound.hcfb_set_scale {s : Fb} (h : Sound s) (hc : Contained s) (hopen : s.hwinited = true)
    (scale : Scale) : Sound (s.hcfb_set_scale scale) ∧ Contained (s.hcfb_set_scale scale) := by
  have hb : Backed { s with scale := scale } := ⟨h.source, h.line_lt, h.size_lt, h.checked, h.x, h.y,
    h.yres, h.mem, h.len, h.line⟩
  have hsound : Sound (Fb.hcfb_update { s with scale := scale } s.var) :=
    ⟨hb.hcfb_update s.var, hcfb_update_placed hb, h.off, h.format, h.inside⟩
  exact ⟨hsound.gma_dmba_update, hsound.contained_gma_dmba_update hopen hc.programmed⟩

/-- The state with a new buffer. -/
def Fb.withMem (s : Fb) (p len : UInt32) : Fb := { s with
  pitch := s.var.lineBytes.toUInt16
  line_length := s.var.lineBytes.toUInt16.toUInt32
  fb_mem := some p
  fb_len := len }

theorem Sound.withMem {s : Fb} (h : Sound s) (p : UInt32) {len : UInt32}
    (hlen : len.toNat = s.var.screenLen + s.extra_fb_len.toNat) : Sound (s.withMem p len) where
  source := h.source
  line_lt := h.line_lt
  size_lt := h.size_lt
  checked := h.checked
  x := h.x
  y := h.y
  yres := h.yres
  mem := rfl
  len := by
    show s.var.screenLen ≤ len.toNat
    omega
  line := by
    show s.var.lineBytes.toUInt16.toUInt32.toNat = s.var.lineLen
    rw [UInt16.toNat_toUInt32, Var.toNat_pitch h.line_lt]
  pitch := Var.toNat_pitch h.line_lt
  bits := h.bits
  src_w := h.src_w
  src_h := h.src_h
  off := h.off
  format := h.format
  inside := h.inside

/-- The first time it is opened, the device takes the format and the geometry of the settings. -/
theorem Sound.hcfb_hwinit {s : Fb} (h : Sound s) (hclosed : s.hwinited = false) :
    Sound { s.hcfb_hwinit with hwinited := true } where
  source := h.source
  line_lt := h.line_lt
  size_lt := h.size_lt
  checked := h.checked
  x := h.x
  y := h.y
  yres := h.yres
  mem := h.mem
  len := h.len
  line := h.line
  pitch := Var.toNat_pitch h.line_lt
  bits := h.checked.toNat_bits
  src_w := toNat_toUInt16_le s.var.xres
  src_h := by
    have hy := (h.inside hclosed).y
    have hrows := toNat_toUInt16_le s.var.yres
    show s.var.yres.toUInt16.toNat + s.var.yoffset.toNat ≤ s.var.yres_virtual.toNat
    omega
  off := h.off
  format := fun _ => h.checked.format s.color_format
  inside := by simp

theorem Sound.hcfb_open {s : Fb} (h : Sound s) (hc : Contained s) {mem : Option UInt32}
    (hmem : s.layer_size ≠ s.fb_len → mem ≠ none) :
    Sound (s.hcfb_open mem).1 ∧ Contained (s.hcfb_open mem).1 := by
  obtain ⟨p, len, hlen, heq⟩ := hcfb_alloc_mem_eq h.source h.size_lt (fun hask =>
    hask.elim (fun hnone => absurd h.mem (by simp [hnone])) hmem)
  have ht : Sound (s.withMem p len) := h.withMem p hlen
  rw [Fb.hcfb_open, heq]
  by_cases hopen : s.hwinited = true
  · show Sound (Fb.gma_dmba_update (if s.hwinited = true then s.withMem p len else _)) ∧
      Contained (Fb.gma_dmba_update (if s.hwinited = true then s.withMem p len else _))
    rw [if_pos hopen]
    exact ⟨ht.gma_dmba_update, ht.contained_gma_dmba_update hopen hc.programmed⟩
  · show Sound (Fb.gma_dmba_update (if s.hwinited = true then _ else
        { (s.withMem p len).hcfb_hwinit with hwinited := true })) ∧
      Contained (Fb.gma_dmba_update (if s.hwinited = true then _ else
        { (s.withMem p len).hcfb_hwinit with hwinited := true }))
    rw [if_neg hopen]
    have hinit := ht.hcfb_hwinit (Bool.eq_false_iff.mpr hopen)
    exact ⟨hinit.gma_dmba_update, hinit.contained_gma_dmba_update rfl hc.programmed⟩

/-! ### New settings -/

/-- In the mode that the hardware has, only the length of a line is stored. -/
theorem hcfb_set_par_same {s : Fb} (h : s.sameMode s.var = true) (mem : Option UInt32) :
    ∃ onoff, s.hcfb_set_par mem =
      ({ s with line_length := s.var.lineBytes, gma_onoff := onoff }, true) := by
  have heq : s.hcfb_set_par mem = (if s.gma_onoff && !s.var.ywrap then
      { s with line_length := s.var.lineBytes, gma_onoff := true }
      else { s with line_length := s.var.lineBytes }, true) := if_pos h
  rw [heq]
  split
  · exact ⟨true, rfl⟩
  · exact ⟨s.gma_onoff, rfl⟩

/-- The state when a new mode is programmed. -/
def Fb.switched (s : Fb) (p len : UInt32) (onoff : Bool) : Fb := { s.withMem p len with
  color_format := hcfb_set_color_format s.color_format s.var
  gma_onoff := onoff }

/-- Another mode takes a buffer of its length and is programmed at the old offset. -/
theorem hcfb_set_par_mode {s : Fb} (h : s.sameMode s.var = false)
    (hsource : s.buffer_source = .system ∨ s.buffer_source = .mmz0)
    (hsize : s.var.screenLen + s.extra_fb_len.toNat < 4294967296) {mem : Option UInt32}
    (hmem : s.fb_mem = none ∨ s.layer_size ≠ s.fb_len → mem ≠ none) :
    ∃ p len onoff onoff', len.toNat = s.var.screenLen + s.extra_fb_len.toNat ∧
      s.hcfb_set_par mem = ({ ((s.switched p len onoff).hcfb_update s.var).gma_dmba_update with
        gma_onoff := onoff' }, true) := by
  -- the display is off while the buffer changes
  obtain ⟨onoff, hoff⟩ : ∃ onoff, (if s.hwinited && s.gma_onoff then
      Fb.gma_show_onoff { s with line_length := s.var.lineBytes } false
      else { s with line_length := s.var.lineBytes }) =
        { s with line_length := s.var.lineBytes, gma_onoff := onoff } := by
    split
    · exact ⟨false, rfl⟩
    · exact ⟨s.gma_onoff, rfl⟩
  let t : Fb := { s with
    line_length := s.var.lineBytes
    gma_onoff := onoff
    color_format := hcfb_set_color_format s.color_format s.var }
  obtain ⟨p, len, hlen, heq⟩ : ∃ p len, len.toNat = s.var.screenLen + s.extra_fb_len.toNat ∧
      t.hcfb_alloc_mem mem = (s.switched p len onoff, true) :=
    hcfb_alloc_mem_eq (s := t) hsource hsize hmem
  refine ⟨p, len, onoff, ?_⟩
  have hpar : s.hcfb_set_par mem =
      ((if s.gma_onoff && !(((s.switched p len onoff).hcfb_update s.var).gma_dmba_update).var.ywrap
        then (((s.switched p len onoff).hcfb_update s.var).gma_dmba_update).gma_show_onoff true
        else ((s.switched p len onoff).hcfb_update s.var).gma_dmba_update), true) := by
    refine (if_neg (Bool.eq_false_iff.mp h)).trans ?_
    dsimp only
    rw [hoff]
    dsimp only [t] at heq
    rw [heq]
    rfl
  rw [hpar]
  split
  · exact ⟨true, hlen, rfl⟩
  · exact ⟨_, hlen, rfl⟩

/-- After the settings have changed, the display is panned to their offset and programmed once
    more with the colour map. -/
theorem Backed.pan_self {s : Fb} (h : Backed s)
    (hbits : s.bits_per_pixel.toNat = s.var.bits_per_pixel.toNat)
    (hformat : s.color_format.bytes = s.var.pixelLen) (hopen : s.hwinited = true)
    (hprogrammed : ∀ f ∈ s.frames, f.raster.stop ≤ f.fb_len.toNat) (hinside : s.var.Inside) :
    Sound (s.fb_pan_display s.var).1.gma_dmba_update ∧
      Contained (s.fb_pan_display s.var).1.gma_dmba_update := by
  have hy : s.var.yoffset.toNat ≤ s.var.yres_virtual.toNat := h.y
  obtain ⟨hsound, hcontained⟩ :=
    h.hcfb_pan_display hbits hformat hopen hprogrammed hinside.x hy
  obtain ⟨vmode, heq⟩ := fb_pan_display_of_inside hinside
  have hopen' : (s.hcfb_pan_display s.var).hwinited = true := by
    rw [Fb.hcfb_pan_display, gma_dmba_update_eq]
    exact hopen
  have hpan := hsound.setVmode vmode
  rw [heq]
  exact ⟨hpan.gma_dmba_update, hpan.contained_gma_dmba_update hopen' hcontained.programmed⟩

/-- Settings that are inside the virtual screen, with a buffer that holds it. -/
theorem backed_of_fits {s : Fb} (hsource : s.buffer_source = .system ∨ s.buffer_source = .mmz0)
    (hfits : Fits s.extra_fb_len s.var) (hchecked : s.var.Checked) (hinside : s.var.Inside)
    (hmem : s.fb_mem.isSome) (hlen : s.var.screenLen ≤ s.fb_len.toNat)
    (hline : s.line_length.toNat = s.var.lineLen) : Backed s where
  source := hsource
  line_lt := hfits.line
  size_lt := hfits.size
  checked := hchecked
  x := hinside.x
  y := by
    have := hinside.y
    omega
  yres := by
    have := hinside.y
    omega
  mem := hmem
  len := hlen
  line := hline

theorem Sound.fb_set_var {s : Fb} (h : Sound s) (hc : Contained s) (hopen : s.hwinited = true)
    {var : Var} {mem : Option UInt32} (hkeeps : Keeps s (.setVar var mem)) :
    Sound (s.fb_set_var var mem).1 ∧ Contained (s.fb_set_var var mem).1 := by
  unfold Fb.fb_set_var
  by_cases hvar : s.var = var
  · rw [if_pos hvar]
    exact ⟨h, hc⟩
  rw [if_neg hvar]
  cases hcheck : hcfb_check_var var with
  | none => exact ⟨h, hc⟩
  | some v =>
    obtain ⟨hfits, hsame, hmode⟩ := hkeeps hvar v hcheck
    have hinside := hfits.inside hcheck
    have hchecked := (hcfb_check_var_some hcheck).1
    let t : Fb := { s with var := v }
    by_cases hm : s.sameMode v = true
    · obtain ⟨onoff, hpar⟩ := hcfb_set_par_same (s := t) hm mem
      have hbits : s.bits_per_pixel.toNat = v.bits_per_pixel.toNat := by
        simp only [Fb.sameMode, Bool.and_eq_true, decide_eq_true_eq] at hm
        obtain ⟨⟨⟨⟨⟨-, hbits⟩, -⟩, -⟩, -⟩, -⟩ := hm
        rw [← hbits, UInt16.toNat_toUInt32]
      have hformat : s.color_format.bytes = v.pixelLen := by
        rw [h.format hopen, Var.pixelLen, Var.pixelLen, ← h.bits, hbits]
      have hb : Backed { t with line_length := v.lineBytes, gma_onoff := onoff } :=
        backed_of_fits h.source hfits hchecked hinside h.mem (hsame hm)
          (Var.toNat_lineBytes hfits.line)
      dsimp only
      rw [hpar]
      exact hb.pan_self hbits hformat hopen hc.programmed hinside
    · obtain ⟨hask, hroom⟩ := hmode (Bool.eq_false_iff.mpr hm)
      have hask' : t.fb_mem = none ∨ t.layer_size ≠ t.fb_len → mem ≠ none := by
        rintro (hnone | hne)
        · exact absurd h.mem (by rw [show s.fb_mem = none from hnone]; simp)
        · exact hask fun heq => hne ((layer_size_eq_iff (s := t) hfits.size).mpr heq)
      obtain ⟨p, len, onoff, onoff', hlen, hpar⟩ :=
        hcfb_set_par_mode (s := t) (Bool.eq_false_iff.mpr hm) h.source hfits.size hask'
      let u := t.switched p len onoff
      have hlen' : len.toNat = v.screenLen + s.extra_fb_len.toNat := hlen
      have hb : Backed u := backed_of_fits h.source hfits hchecked hinside rfl
        (by show v.screenLen ≤ len.toNat; omega)
        (by
          show v.lineBytes.toUInt16.toUInt32.toNat = v.lineLen
          rw [UInt16.toNat_toUInt32, Var.toNat_pitch hfits.line])
      have hformat : u.color_format.bytes = v.pixelLen := hchecked.format s.color_format
      have hplaced := hcfb_update_placed hb
      have hprogrammed : Contained (u.hcfb_update v).gma_dmba_update := by
        refine Contained.gma_dmba_update hc.programmed (hb.hcfb_update v) hplaced.pitch ?_
        refine next_stop_le_of_room hplaced (hcfb_update_src_h_le u) hformat ?_
        show s.off_pitch.toNat + v.lineLen * v.yres.toNat + v.xres.toNat * v.pixelLen ≤
          len.toNat + v.lineLen
        omega
      have hw : { (u.hcfb_update v).gma_dmba_update with gma_onoff := onoff' } =
          { u.hcfb_update v with
            frames := (u.hcfb_update v).gma_dmba_update.frames
            gma_onoff := onoff' } :=
        congrArg (fun w : Fb => { w with gma_onoff := onoff' }) (gma_dmba_update_eq _)
      dsimp only
      rw [hpar, hw]
      refine Backed.pan_self ?_ hplaced.bits hformat hopen hprogrammed.programmed hinside
      exact ⟨hb.source, hb.line_lt, hb.size_lt, hb.checked, hb.x, hb.y, hb.yres, hb.mem, hb.len,
        hb.line⟩

/-- A call that meets its condition keeps the invariant. -/
theorem Sound.step {s s' : Fb} (h : Sound s) (hc : Contained s) {a : Call} (hkeeps : Keeps s a)
    (hs : step s a = some s') : Sound s' ∧ Contained s' := by
  cases a with
  | openDev mem =>
    cases hs
    exact h.hcfb_open hc hkeeps
  | setVar var mem =>
    obtain ⟨hopen, hs⟩ := Option.ite_none_right_eq_some.mp hs
    cases hs
    exact h.fb_set_var hc hopen hkeeps
  | pan var =>
    obtain ⟨hopen, hs⟩ := Option.ite_none_right_eq_some.mp hs
    cases hs
    exact h.fb_pan_display hc hopen var
  | setScale h_div v_div h_mul v_mul =>
    obtain ⟨hopen, hs⟩ := Option.ite_none_right_eq_some.mp hs
    obtain ⟨scale, -, rfl⟩ := Option.map_eq_some_iff.mp hs
    exact h.hcfb_set_scale hc hopen scale
  | setLeftTop left top =>
    obtain ⟨-, hs⟩ := Option.ite_none_right_eq_some.mp hs
    cases hs
    exact ⟨⟨⟨h.source, h.line_lt, h.size_lt, h.checked, h.x, h.y, h.yres, h.mem, h.len, h.line⟩,
      ⟨h.pitch, h.bits, h.src_w, h.src_h⟩, h.off, h.format, h.inside⟩, hc.programmed, hc.shown⟩
  | blank on =>
    obtain ⟨-, hs⟩ := Option.ite_none_right_eq_some.mp hs
    cases hs
    exact ⟨⟨⟨h.source, h.line_lt, h.size_lt, h.checked, h.x, h.y, h.yres, h.mem, h.len, h.line⟩,
      ⟨h.pitch, h.bits, h.src_w, h.src_h⟩, h.off, h.format, h.inside⟩, hc.programmed, hc.shown⟩

/-! ### Runs -/

/-- The invariant holds of a device that has been probed, with a node whose settings fit. -/
theorem sound_probe {np : Node} {mem : Option UInt32} {s : Fb}
    (hsource : np.source = .system ∨ np.source = .mmz0)
    (hfits : ∀ v, hcfb_check_var np.var = some v → Fits (np.extra_buffer_size.getD 0) v)
    (hprobe : hcfb_probe np mem = some s) : Sound s ∧ Contained s := by
  obtain ⟨v, hcheck, hscale⟩ := Option.bind_eq_some_iff.mp hprobe
  obtain ⟨scale, -, halloc⟩ := Option.bind_eq_some_iff.mp hscale
  have hv := hfits v hcheck
  have hinside := hv.inside hcheck
  have hchecked := (hcfb_check_var_some hcheck).1
  -- without a buffer, setting the scale only stores the geometry
  let t := (np.device v scale).hcfb_update v
  have hframes : t.frames = [] := rfl
  have hset : (np.device v scale).hcfb_set_scale scale = t := rfl
  rw [hset] at halloc
  cases mem with
  | none =>
    obtain ⟨u, hu⟩ := hcfb_alloc_mem_none (s := t) hsource rfl
    rw [hu] at halloc
    contradiction
  | some mem =>
    obtain ⟨p, len, hlen, heq⟩ := hcfb_alloc_mem_eq (s := t) hsource hv.size
      fun _ => Option.some_ne_none mem
    rw [heq] at halloc
    cases halloc
    have hlen' : len.toNat = v.screenLen + (np.extra_buffer_size.getD 0).toNat := hlen
    have hb : Backed (t.withMem p len) := backed_of_fits hsource hv hchecked hinside rfl
      (by show v.screenLen ≤ len.toNat; omega)
      (by
        show v.lineBytes.toUInt16.toUInt32.toNat = v.lineLen
        rw [UInt16.toNat_toUInt32, Var.toNat_pitch hv.line])
    have hplaced := hcfb_update_placed hb
    exact ⟨⟨hb, ⟨Var.toNat_pitch hv.line, hplaced.bits, hplaced.src_w, hplaced.src_h⟩,
      Nat.zero_le _, (fun hno => by cases hno), fun _ => hinside⟩, by simp [hframes], by simp [hframes]⟩

/-- Along every run from the probe of a node whose settings fit, whose calls meet their
    conditions, the picture stays contained. -/
theorem contained_of_keeps {np : Node} {mem : Option UInt32} {s : Fb}
    (hsource : np.source = .system ∨ np.source = .mmz0)
    (hfits : ∀ v, hcfb_check_var np.var = some v → Fits (np.extra_buffer_size.getD 0) v)
    (hprobe : hcfb_probe np mem = some s) {tr : List Call} (hkeeps : Meets step Keeps s tr) :
    Always step Contained s tr :=
  always_of_meets step (I := fun s => Sound s ∧ Contained s) (fun _ h => h.2)
    (fun _ _ _ h hk hs => h.1.step h.2 hk hs) (sound_probe hsource hfits hprobe) hkeeps

/-- The display reads no byte outside the buffer. -/
theorem Contained.scanned {s : Fb} (h : Contained s) {f : Frame} (hf : s.frames.head? = some f) :
    ∀ a ∈ f.raster.bytes, a < s.fb_len.toNat :=
  Raster.bytes_lt_of_stop_le (h.shown f hf).2.1

/-- A node with room for two pictures, and one with room for one. -/
def exampleNode : Node :=
  ⟨none, none, none, none, some 1440, none, none, none, none, none, none, none, none, none, none⟩
def defaultNode : Node :=
  ⟨none, none, none, none, none, none, none, none, none, none, none, none, none, none, none⟩

/-- The second picture is shown, then a smaller one, then that one at twice its size. -/
def exampleRun : List Call :=
  [.openDev none, .pan { exampleNode.var with yoffset := 720 },
    .setVar { exampleNode.var with yres := 360 } none, .setScale 1 1 2 2]

theorem contained_exampleRun : ∃ s, hcfb_probe exampleNode (some 0x80100000) = some s ∧
    Always step Contained s exampleRun := by
  have hfits : ∀ v, hcfb_check_var exampleNode.var = some v →
      Fits (exampleNode.extra_buffer_size.getD 0) v := by
    intro v hv
    cases hv
    decide
  obtain ⟨s, hs⟩ : ∃ s, hcfb_probe exampleNode (some 0x80100000) = some s :=
    Option.isSome_iff_exists.mp (by decide)
  have hkeeps : Meets step Keeps s exampleRun := by
    have hprobed : (hcfb_probe exampleNode (some 0x80100000)).all
        fun s => decide (Meets step Keeps s exampleRun) := by decide +kernel
    rw [hs] at hprobed
    exact of_decide_eq_true hprobed
  exact ⟨s, hs, contained_of_keeps (.inl rfl) hfits hs hkeeps⟩

/-- A larger virtual screen without a larger buffer. -/
theorem contained_fails : ∃ s s', hcfb_probe defaultNode (some 0x80100000) = some s ∧
    run step s [.openDev none, .setVar { defaultNode.var with yres_virtual := 1440 } none,
      .pan { defaultNode.var with yoffset := 720 }] = some s' ∧ ¬ Contained s' := by
  refine ⟨_, _, rfl, rfl, fun h => ?_⟩
  have hshown := (h.shown _ rfl).2.1
  revert hshown
  decide +kernel

end Hcrtos.Native.Hcfb
