import Mathlib.Order.Interval.Finset.Nat
import Hcrtos.Spec.HcfbContainment

/-!
# Pixel formats

`hcfb_check_var` rewrites the bit fields of the settings it accepts. Three layouts come out of it,
one for each size of a pixel, and checking them again gives them back. The 16-bit layout puts
the transparency field above the red one, modulo 16: with a green field of six bits there
is no bit left, and the field starts at bit 0 with all the 16 bits. The test of the visible area adds offset
and size in 32 bits.

## Key results

- `hcfb_check_var_layout`: the layouts that come out of the check
- `hcfb_check_var_idem`: the check changes nothing that it has accepted
- `normalised_iff`: when the fields are apart and the visible area is inside the virtual one
- `normalised_fails`: a 16-bit format with six bits of green and a transparency field
-/

namespace Hcrtos.Native.Hcfb

/-- The bits of a pixel that belong to a field. -/
def Bitfield.bits (f : Bitfield) : Finset Nat :=
  Finset.Ico f.offset.toNat (f.offset.toNat + f.length.toNat)

/-- The colour and transparency fields. -/
def Var.fields (v : Var) : List Bitfield := [v.red, v.green, v.blue, v.transp]

/-- No two fields share a bit, and every field is inside a pixel of `bits` bits. -/
def Apart (bits : Nat) (fields : List Bitfield) : Prop :=
  fields.Pairwise (fun f g => Disjoint f.bits g.bits) ∧ ∀ f ∈ fields, f.bits ⊆ Finset.range bits

instance (bits : Nat) (fields : List Bitfield) : Decidable (Apart bits fields) :=
  inferInstanceAs (Decidable (_ ∧ _))

def Var.FieldsApart (v : Var) : Prop := Apart v.bits_per_pixel.toNat v.fields

/-- What the settings that the check gives back have to satisfy. To set them again is to set what
    was read, and changes nothing. -/
structure Var.Normalised (v : Var) : Prop where
  fields : v.FieldsApart
  visible : v.Inside
  stable : hcfb_check_var v = some v
  noop : ∀ (s : Fb) (mem : Option UInt32), s.var = v → s.fb_set_var v mem = (s, true)

/-- The requests whose sums of offset and size fit a word, without a transparency field next to
    six bits of green in a pixel of 16 bits. -/
structure Var.Representable (var : Var) : Prop where
  x : var.xoffset.toNat + var.xres.toNat < 4294967296
  y : var.yoffset.toNat + var.yres.toNat < 4294967296
  transp : 8 < var.bits_per_pixel → var.bits_per_pixel ≤ 16 → 5 < var.green.length →
    var.transp.length = 0

instance (var : Var) : Decidable var.Representable :=
  decidable_of_iff (var.xoffset.toNat + var.xres.toNat < 4294967296 ∧
      var.yoffset.toNat + var.yres.toNat < 4294967296 ∧
      (8 < var.bits_per_pixel → var.bits_per_pixel ≤ 16 → 5 < var.green.length →
        var.transp.length = 0))
    ⟨fun ⟨hx, hy, ht⟩ => ⟨hx, hy, ht⟩, fun ⟨hx, hy, ht⟩ => ⟨hx, hy, ht⟩⟩

/-! ### Layouts -/

/-- A palette index of 8 bits. -/
def Var.clut (var : Var) : Var := { var with
  bits_per_pixel := 8
  red := ⟨0, 8, 0⟩
  green := ⟨0, 0, 0⟩
  blue := ⟨0, 0, 0⟩
  transp := ⟨0, 0, 0⟩ }

/-- A pixel of 16 bits with `green` bits of green and `other` bits of each other colour. -/
def Var.rgb16 (var : Var) (green other : UInt32) (transp : Bitfield) : Var := { var with
  bits_per_pixel := 16
  red := ⟨other + green, other, 0⟩
  green := ⟨other, green, 0⟩
  blue := ⟨0, other, 0⟩
  transp := transp }

/-- A pixel of 32 bits. -/
def Var.rgb32 (var : Var) (transp : UInt32) : Var := { var with
  bits_per_pixel := 32
  red := ⟨16, 8, 0⟩
  green := ⟨8, 8, 0⟩
  blue := ⟨0, 8, 0⟩
  transp := ⟨24, transp, 0⟩ }

/-- The six layouts of 16 bits: 4, 5 or 6 bits of green, without a transparency field and
    with one. The last one starts at bit 0, where the blue field starts. -/
inductive Layout16 (var : Var) : UInt32 → UInt32 → Bitfield → Prop where
  | rgb444 : var.green.length ≤ 4 → var.transp.length = 0 → Layout16 var 4 4 ⟨0, 0, 0⟩
  | argb4444 : var.green.length ≤ 4 → var.transp.length ≠ 0 → Layout16 var 4 4 ⟨12, 4, 0⟩
  | rgb555 : ¬ var.green.length ≤ 4 → var.green.length ≤ 5 → var.transp.length = 0 →
    Layout16 var 5 5 ⟨0, 0, 0⟩
  | argb1555 : ¬ var.green.length ≤ 4 → var.green.length ≤ 5 → var.transp.length ≠ 0 →
    Layout16 var 5 5 ⟨15, 1, 0⟩
  | rgb565 : ¬ var.green.length ≤ 5 → var.transp.length = 0 → Layout16 var 6 5 ⟨0, 0, 0⟩
  | overlap : ¬ var.green.length ≤ 5 → var.transp.length ≠ 0 → Layout16 var 6 5 ⟨0, 16, 0⟩

/-- The layouts that come out of the check. -/
inductive Layout (var : Var) : Var → Prop where
  | clut : var.bits_per_pixel ≤ 8 → Layout var var.clut
  | rgb16 {green other : UInt32} {transp : Bitfield} : ¬ var.bits_per_pixel ≤ 8 →
    var.bits_per_pixel ≤ 16 → var.xres_virtual ≤ 2560 → Layout16 var green other transp →
    Layout var (var.rgb16 green other transp)
  | rgb32 : ¬ var.bits_per_pixel ≤ 16 → var.bits_per_pixel ≤ 32 →
    Layout var (var.rgb32 (if var.transp.length = 0 then 0 else 8))

theorem hcfb_check_var_layout {var v : Var} (h : hcfb_check_var var = some v) : Layout var v := by
  unfold hcfb_check_var at h
  split at h
  · contradiction
  split at h
  · rename_i h8
    cases h
    exact .clut h8
  rename_i h8
  split at h
  · rename_i h16
    split at h
    · contradiction
    rename_i hwide
    rw [UInt32.not_lt] at hwide
    cases h
    have hmask : (12 &&& 15 : UInt32) = 12 ∧ (16 &&& 15 : UInt32) = 0 := by decide
    -- the lengths of the fields are numerals as soon as that of the green one is known
    by_cases h4 : var.green.length ≤ 4
    · by_cases htransp : var.transp.length = 0
      · simpa [Var.rgb16, h4, htransp] using Layout.rgb16 h8 h16 hwide (.rgb444 h4 htransp)
      · simpa [Var.rgb16, h4, htransp, hmask] using Layout.rgb16 h8 h16 hwide (.argb4444 h4 htransp)
    · by_cases h5 : var.green.length ≤ 5
      · by_cases htransp : var.transp.length = 0
        · simpa [Var.rgb16, h4, h5, htransp] using Layout.rgb16 h8 h16 hwide (.rgb555 h4 h5 htransp)
        · simpa [Var.rgb16, h4, h5, htransp] using Layout.rgb16 h8 h16 hwide (.argb1555 h4 h5 htransp)
      · by_cases htransp : var.transp.length = 0
        · simpa [Var.rgb16, h4, h5, htransp] using Layout.rgb16 h8 h16 hwide (.rgb565 h5 htransp)
        · simpa [Var.rgb16, h4, h5, htransp, hmask] using Layout.rgb16 h8 h16 hwide (.overlap h5 htransp)
  · rename_i h16
    split at h
    · rename_i h32
      cases h
      exact .rgb32 h16 h32
    · contradiction

/-! ### The layouts again -/

theorem Layout.bounds {var v : Var} (h : Layout var v) : v.xoffset = var.xoffset ∧
    v.xres = var.xres ∧ v.xres_virtual = var.xres_virtual ∧ v.yoffset = var.yoffset ∧
    v.yres = var.yres ∧ v.yres_virtual = var.yres_virtual := by
  cases h <;> exact ⟨rfl, rfl, rfl, rfl, rfl, rfl⟩

theorem Layout16.check {var : Var} {green other : UInt32} {transp : Bitfield}
    (h : Layout16 var green other transp) (hwide : ¬ 2560 < var.xres_virtual)
    (hbounds : ¬ (var.xres_virtual < var.xoffset + var.xres ∨
      var.yres_virtual < var.yoffset + var.yres)) :
    hcfb_check_var (var.rgb16 green other transp) = some (var.rgb16 green other transp) := by
  have hbounds' : ¬ ((var.rgb16 green other transp).xres_virtual <
      (var.rgb16 green other transp).xoffset + (var.rgb16 green other transp).xres ∨
      (var.rgb16 green other transp).yres_virtual <
        (var.rgb16 green other transp).yoffset + (var.rgb16 green other transp).yres) := hbounds
  have h8 : ¬ (var.rgb16 green other transp).bits_per_pixel ≤ 8 := by
    show ¬ (16 : UInt32) ≤ 8
    decide
  have h16 : (var.rgb16 green other transp).bits_per_pixel ≤ 16 := UInt32.le_refl 16
  have hwide' : ¬ 2560 < (var.rgb16 green other transp).xres_virtual := hwide
  rw [hcfb_check_var, if_neg hbounds', if_neg h8, if_pos h16, if_neg hwide']
  have hmask : (12 &&& 15 : UInt32) = 12 ∧ (15 &&& 15 : UInt32) = 15 ∧
      (16 &&& 15 : UInt32) = 0 := by decide
  cases h <;> simp [Var.rgb16, hmask]

/-- Checking again changes nothing. -/
theorem hcfb_check_var_idem {var v : Var} (h : hcfb_check_var var = some v) :
    hcfb_check_var v = some v := by
  have hlayout := hcfb_check_var_layout h
  obtain ⟨-, hx, hy⟩ := hcfb_check_var_some h
  have hbounds : ¬ (v.xres_virtual < v.xoffset + v.xres ∨ v.yres_virtual < v.yoffset + v.yres) :=
    not_or.mpr ⟨hx, hy⟩
  cases hlayout with
  | clut h8 =>
    rw [hcfb_check_var, if_neg hbounds]
    rfl
  | rgb16 h8 h16 hwide hfields => exact hfields.check (UInt32.not_lt.mpr hwide) hbounds
  | rgb32 h16 h32 =>
    rw [hcfb_check_var, if_neg hbounds]
    by_cases htransp : var.transp.length = 0
    · rw [if_pos htransp]
      rfl
    · rw [if_neg htransp]
      rfl

/-- The fields are apart, except in the layout that has no bit left. -/
theorem Layout16.fieldsApart_iff {var : Var} {green other : UInt32} {transp : Bitfield}
    (h : Layout16 var green other transp) :
    (var.rgb16 green other transp).FieldsApart ↔
      (5 < var.green.length → var.transp.length = 0) := by
  have hle {n m : UInt32} (hn : n ≤ m) : ¬ m < n := UInt32.not_lt.mpr hn
  cases h with
  | rgb444 h4 htransp =>
    have hapart : Apart 16 [⟨8, 4, 0⟩, ⟨4, 4, 0⟩, ⟨0, 4, 0⟩, ⟨0, 0, 0⟩] := by decide
    exact ⟨fun _ _ => htransp, fun _ => hapart⟩
  | argb4444 h4 htransp =>
    have hapart : Apart 16 [⟨8, 4, 0⟩, ⟨4, 4, 0⟩, ⟨0, 4, 0⟩, ⟨12, 4, 0⟩] := by decide
    exact ⟨fun _ h5 => absurd h5 (hle (UInt32.le_trans h4 (by decide))), fun _ => hapart⟩
  | rgb555 h4 h5 htransp =>
    have hapart : Apart 16 [⟨10, 5, 0⟩, ⟨5, 5, 0⟩, ⟨0, 5, 0⟩, ⟨0, 0, 0⟩] := by decide
    exact ⟨fun _ _ => htransp, fun _ => hapart⟩
  | argb1555 h4 h5 htransp =>
    have hapart : Apart 16 [⟨10, 5, 0⟩, ⟨5, 5, 0⟩, ⟨0, 5, 0⟩, ⟨15, 1, 0⟩] := by decide
    exact ⟨fun _ h5' => absurd h5' (hle h5), fun _ => hapart⟩
  | rgb565 h5 htransp =>
    have hapart : Apart 16 [⟨11, 5, 0⟩, ⟨5, 6, 0⟩, ⟨0, 5, 0⟩, ⟨0, 0, 0⟩] := by decide
    exact ⟨fun _ _ => htransp, fun _ => hapart⟩
  | overlap h5 htransp =>
    have hapart : ¬ Apart 16 [⟨11, 5, 0⟩, ⟨5, 6, 0⟩, ⟨0, 5, 0⟩, ⟨0, 16, 0⟩] := by decide
    exact ⟨fun h => absurd h hapart, fun hno => absurd (hno (UInt32.not_le.mp h5)) htransp⟩

theorem Layout.fieldsApart_iff {var v : Var} (h : Layout var v) :
    v.FieldsApart ↔ (8 < var.bits_per_pixel → var.bits_per_pixel ≤ 16 →
      5 < var.green.length → var.transp.length = 0) := by
  cases h with
  | clut h8 =>
    have hapart : Apart 8 [⟨0, 8, 0⟩, ⟨0, 0, 0⟩, ⟨0, 0, 0⟩, ⟨0, 0, 0⟩] := by decide
    exact ⟨fun _ hlt => absurd h8 (UInt32.not_le.mpr hlt), fun _ => hapart⟩
  | rgb16 h8 h16 hwide hfields =>
    rw [hfields.fieldsApart_iff]
    exact ⟨fun hno _ _ => hno, fun hno => hno (UInt32.not_le.mp h8) h16⟩
  | rgb32 h16 h32 =>
    have hopaque : Apart 32 [⟨16, 8, 0⟩, ⟨8, 8, 0⟩, ⟨0, 8, 0⟩, ⟨24, 0, 0⟩] := by decide
    have halpha : Apart 32 [⟨16, 8, 0⟩, ⟨8, 8, 0⟩, ⟨0, 8, 0⟩, ⟨24, 8, 0⟩] := by decide
    refine ⟨fun _ _ hle => absurd hle h16, fun _ => ?_⟩
    split
    · exact hopaque
    · exact halpha

/-- The visible area of accepted settings is inside the virtual one as soon as the sums fit. -/
theorem inside_iff {var v : Var} (h : hcfb_check_var var = some v) :
    v.Inside ↔ var.xoffset.toNat + var.xres.toNat < 4294967296 ∧
      var.yoffset.toNat + var.yres.toNat < 4294967296 := by
  obtain ⟨-, hx, hy⟩ := hcfb_check_var_some h
  obtain ⟨hxo, hxr, hxv, hyo, hyr, hyv⟩ := (hcfb_check_var_layout h).bounds
  have hxlt := v.xres_virtual.toNat_lt
  have hylt := v.yres_virtual.toNat_lt
  rw [UInt32.lt_iff_toNat_lt, UInt32.toNat_add] at hx hy
  rw [← hxo, ← hxr, ← hyo, ← hyr]
  constructor
  · rintro ⟨hinx, hiny⟩
    omega
  · rintro ⟨hinx, hiny⟩
    exact ⟨by omega, by omega⟩

/-- Settings that are the current ones are not looked at. -/
theorem fb_set_var_self (s : Fb) (mem : Option UInt32) : s.fb_set_var s.var mem = (s, true) := by
  rw [Fb.fb_set_var, if_pos rfl]

/-- Accepted settings come out normalised exactly when the request is representable. -/
theorem normalised_iff {var v : Var} (h : hcfb_check_var var = some v) :
    v.Normalised ↔ var.Representable := by
  constructor
  · intro hn
    obtain ⟨hx, hy⟩ := (inside_iff h).mp hn.visible
    exact ⟨hx, hy, (hcfb_check_var_layout h).fieldsApart_iff.mp hn.fields⟩
  · intro hr
    refine ⟨(hcfb_check_var_layout h).fieldsApart_iff.mpr hr.transp,
      (inside_iff h).mpr ⟨hr.x, hr.y⟩, hcfb_check_var_idem h, ?_⟩
    rintro s mem rfl
    exact fb_set_var_self s mem

/-- The settings of the default screen with 16 bits a pixel. -/
def exampleVar (green transp : UInt32) : Var where
  xres := 1280
  yres := 720
  xres_virtual := 1280
  yres_virtual := 720
  xoffset := 0
  yoffset := 0
  bits_per_pixel := 16
  vmode := 0
  red := ⟨16, 8, 0⟩
  green := ⟨8, green, 0⟩
  blue := ⟨0, 8, 0⟩
  transp := ⟨24, transp, 0⟩

theorem normalised_argb1555 :
    hcfb_check_var (exampleVar 5 1) = some ((exampleVar 5 1).rgb16 5 5 ⟨15, 1, 0⟩) ∧
      (((exampleVar 5 1).rgb16 5 5 ⟨15, 1, 0⟩).Normalised ↔ (exampleVar 5 1).Representable) ∧
      (exampleVar 5 1).Representable :=
  ⟨by decide, normalised_iff (by decide), by decide⟩

/-- The transparency field of RGB565 lies over the three colours. -/
theorem normalised_fails : ∃ v, hcfb_check_var (exampleVar 6 1) = some v ∧ ¬ v.Normalised := by
  refine ⟨(exampleVar 6 1).rgb16 6 5 ⟨0, 16, 0⟩, by decide, fun hn => ?_⟩
  have hapart : ¬ Apart 16 [⟨11, 5, 0⟩, ⟨5, 6, 0⟩, ⟨0, 5, 0⟩, ⟨0, 16, 0⟩] := by decide
  exact hapart hn.fields

end Hcrtos.Native.Hcfb
