import Hcrtos.Native.FbFile

/-!
# Colour maps

`fbcmap.c` and `hcfb_setcmap`. The driver keeps two palettes of 256 entries of four bytes, one
behind the other: `palette_hw`, which the display reads, and `palette_sw`. The frame buffer keeps
the colours in a colour map of its own.
-/

namespace Hcrtos.Native.Hcfb

open WordMemory

/-- `struct fb_cmap`: the colours of `len` entries from `start` on. -/
structure Cmap where
  start : UInt32
  len : UInt32
  red : Nat → UInt16
  green : Nat → UInt16
  blue : Nat → UInt16
  transp : Option (Nat → UInt16)

/-- `hcfb_palette_type_e`. -/
inductive PaletteType where
  | RGB
  | YCBCR

/-- `hcfb_alpha_range_e`. -/
inductive AlphaRange where
  | ALPHA_255
  | ALPHA_127
  | ALPHA_15

/-- `hcfb_rgb_order_e`. -/
inductive RgbOrder where
  | ARGB
  | ABGR
  | RGBA
  | BGRA

/-- The frame buffer with its palettes. `alloc_palette` takes 2048 bytes, and the colour map is
    that of `fb_alloc_cmap(&info->cmap, 256, 1)`. -/
structure PaletteInfo where
  info : Info
  palette_hw : UInt32
  palette_ncolors_sw : UInt16
  palette_type_sw : PaletteType
  palette_alpha_range_sw : AlphaRange
  palette_rgb_order_sw : RgbOrder
  cmap : Cmap
  placed : palette_hw.toNat + 2048 ≤ 4294967296
  cmap_start : cmap.start = 0
  cmap_len : cmap.len = 256

def PaletteInfo.palette_sw (s : PaletteInfo) : UInt32 := s.palette_hw + 1024

/-- The four bytes that an entry is packed into: the low byte of each colour. -/
def Cmap.entry (c : Cmap) (i : Nat) : Nat → UInt8
  | 0 => (c.blue i).toUInt8
  | 1 => (c.green i).toUInt8
  | 2 => (c.red i).toUInt8
  | _ =>
    match c.transp with
    | some transp => (transp i).toUInt8
    | none => 0xff

/-- The loop of `hcfb_setcmap` over the first `n` entries. -/
def Cmap.setEntries (c : Cmap) (m : Mem) (palette : UInt32) : Nat → Mem
  | 0 => m
  | n + 1 => patch (c.setEntries m palette n) (palette + UInt32.ofNat (4 * n)) 4 (c.entry n)

/-- `hcfb_setcmap`. -/
def PaletteInfo.hcfb_setcmap (s : PaletteInfo) (c : Cmap) : PaletteInfo :=
  let m := c.setEntries s.info.memory s.palette_sw c.len.toNat
  let m := patch m s.palette_hw 1024 fun i => m (s.palette_sw + UInt32.ofNat i)
  { s with
    info := { s.info with memory := m, fb := s.info.fb.gma_dmba_update }
    palette_ncolors_sw := c.len.toUInt16
    palette_type_sw := .RGB
    palette_alpha_range_sw := .ALPHA_255
    palette_rgb_order_sw := .ARGB }

/-- `memcpy(dst + dstoff, src + srcoff, size)` of `n` colours. -/
def copyColours (dst src : Nat → UInt16) (dstoff srcoff n : Nat) : Nat → UInt16 := fun j =>
  if dstoff ≤ j ∧ j < dstoff + n then src (srcoff + (j - dstoff)) else dst j

/-- The map with `n` colours of `src` from `srcoff` on, at `dstoff`. -/
def Cmap.copyFrom (dst src : Cmap) (dstoff srcoff n : Nat) : Cmap := { dst with
  red := copyColours dst.red src.red dstoff srcoff n
  green := copyColours dst.green src.green dstoff srcoff n
  blue := copyColours dst.blue src.blue dstoff srcoff n
  transp := match src.transp, dst.transp with
    | some transp, some old => some (copyColours old transp dstoff srcoff n)
    | _, old => old }

/-- `fb_copy_cmap`: the map `dst` afterwards, unless the maps have no entry in common. -/
def fb_copy_cmap (src dst : Cmap) : Option Cmap :=
  let fromoff := if src.start < dst.start then dst.start - src.start else 0
  let tooff := if src.start < dst.start then 0 else src.start - dst.start
  if src.len ≤ fromoff ∨ dst.len ≤ tooff then none
  else
    let size := if dst.len - tooff < src.len - fromoff then dst.len - tooff else src.len - fromoff
    if size = 0 then none
    else
      -- the size is counted in bytes
      some (dst.copyFrom src tooff.toNat fromoff.toNat ((size * 2).toNat / 2))

theorem fb_copy_cmap_shape {src dst c : Cmap} (h : fb_copy_cmap src dst = some c) :
    c.start = dst.start ∧ c.len = dst.len := by
  simp only [fb_copy_cmap, Option.ite_none_left_eq_some, Option.some.injEq] at h
  obtain ⟨-, -, rfl⟩ := h
  exact ⟨rfl, rfl⟩

/-- `fb_set_cmap`. -/
def PaletteInfo.fb_set_cmap (s : PaletteInfo) (c : Cmap) : PaletteInfo × Int :=
  -- `start` is an `int`
  if c.start.toInt32 < 0 then (s, -EINVAL)
  else
    let t := s.hcfb_setcmap c
    match h : fb_copy_cmap c t.cmap with
    | none => (t, 0)
    | some cmap =>
      ({ t with
        cmap := cmap
        cmap_start := (fb_copy_cmap_shape h).1.trans t.cmap_start
        cmap_len := (fb_copy_cmap_shape h).2.trans t.cmap_len }, 0)

/-- `fb_set_user_cmap`. -/
def PaletteInfo.fb_set_user_cmap (s : PaletteInfo) (c : Cmap) : PaletteInfo × Int :=
  let size := (c.len * 2).toInt32
  if size < 0 ∨ size.toUInt32 < c.len then (s, -EINVAL) else s.fb_set_cmap c

end Hcrtos.Native.Hcfb
