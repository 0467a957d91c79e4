import Hcrtos.ForStd.Raster
import Hcrtos.ForStd.WordMemory

/-!
# Frame buffer

`hc16xx_fb.c` and the calls of `fb.c` on it. Every call programs the display by handing it a
header of the picture to scan out; `Fb.frames` records them, the latest one first. What the
allocator answers is part of the call. Of the header only the fields that place the picture
are kept, not those of the palette and of the scaling filter.
-/

namespace Hcrtos.Native.Hcfb

/-! ### Screen information -/

/-- `struct fb_bitfield`. -/
structure Bitfield where
  offset : UInt32
  length : UInt32
  msb_right : UInt32
  deriving DecidableEq

/-- `struct fb_var_screeninfo`. -/
structure Var where
  xres : UInt32
  yres : UInt32
  xres_virtual : UInt32
  yres_virtual : UInt32
  xoffset : UInt32
  yoffset : UInt32
  bits_per_pixel : UInt32
  vmode : UInt32
  red : Bitfield
  green : Bitfield
  blue : Bitfield
  transp : Bitfield
  deriving DecidableEq

def FB_VMODE_YWRAP : UInt32 := 256

/-- Whether the offset wraps around. -/
def Var.ywrap (var : Var) : Bool := var.vmode &&& FB_VMODE_YWRAP ≠ 0

/-- The pan and wrap steps of `hcfb_set_default_fix`. -/
def xpanstep : UInt32 := 1
def ypanstep : UInt32 := 1
def ywrapstep : UInt32 := 1

/-- The members of `hcfb_color_fmt_e` that the driver selects. -/
inductive ColorFmt where
  | RGB888
  | ARGB8888
  | RGB444
  | ARGB4444
  | ARGB1555
  | RGB565
  | CLUT8

/-- The bytes of a pixel. -/
def ColorFmt.bytes : ColorFmt → Nat
  | .CLUT8 => 1
  | .RGB444 | .ARGB4444 | .ARGB1555 | .RGB565 => 2
  | .RGB888 | .ARGB8888 => 4

/-- `HCFB_BUFFER_SOURCE_*`. -/
inductive BufferSource where
  | system
  | mmz0
  | none
  | static
  deriving DecidableEq

/-! ### State -/

/-- The scale factors. The divisions by them stop the system when one of them is zero. -/
structure Scale where
  h_div : UInt16
  v_div : UInt16
  h_mul : UInt16
  v_mul : UInt16
  ne_zero : h_div ≠ 0 ∧ v_div ≠ 0 ∧ h_mul ≠ 0 ∧ v_mul ≠ 0

/-- The fields of `gma_header_t` that place the picture. -/
structure Header where
  gma_mode : ColorFmt
  sx : UInt16
  ex : UInt16
  sy : UInt16
  ey : UInt16
  src_w : UInt16
  src_h : UInt16
  pitch : UInt16
  bitmap_addr : UInt32

/-- A header handed to the display, with the buffer, the offset in it and the length of the
    buffer at that time. -/
structure Frame where
  header : Header
  fb_mem : UInt32
  off_pitch : UInt32
  fb_len : UInt32

/-- `struct fb_info` and its `struct hcfb_device`. -/
structure Fb where
  var : Var
  line_length : UInt32
  hwinited : Bool
  fb_mem : Option UInt32
  fb_len : UInt32
  off_pitch : UInt32
  fb_static_phys : UInt32
  fb_static_len : UInt32
  extra_fb_len : UInt32
  buffer_source : BufferSource
  scale : Scale
  left : UInt16
  top : UInt16
  sx : UInt16
  ex : UInt16
  sy : UInt16
  ey : UInt16
  src_w : UInt16
  src_h : UInt16
  pitch : UInt16
  bits_per_pixel : UInt16
  green_length : UInt16
  transp_length : UInt16
  color_format : ColorFmt
  gma_onoff : Bool
  frames : List Frame

/-! ### The driver -/

/-- `PHY_ADDR`. -/
def PHY_ADDR (p : UInt32) : UInt32 := p &&& 0x1FFFFFFF

/-- `MIPS_CACHED_ADDR`. -/
def MIPS_CACHED_ADDR (p : UInt32) : UInt32 := (p ||| 0x80000000) &&& 0x9FFFFFFF

/-- `hcfb_check_var`: the settings as the hardware supports them, unless they are refused. -/
def hcfb_check_var (var : Var) : Option Var :=
  if var.xres_virtual < var.xoffset + var.xres ∨ var.yres_virtual < var.yoffset + var.yres then
    none
  else if var.bits_per_pixel ≤ 8 then
    some { var with
      bits_per_pixel := 8
      red := ⟨0, 8, 0⟩
      green := ⟨0, 0, 0⟩
      blue := ⟨0, 0, 0⟩
      transp := ⟨0, 0, 0⟩ }
  else if var.bits_per_pixel ≤ 16 then
    if 2560 < var.xres_virtual then none
    else
      let length : UInt32 :=
        if var.green.length ≤ 4 then 4 else if var.green.length ≤ 5 then 5 else 6
      let other := if length = 6 then 5 else length
      let blue : Bitfield := ⟨0, other, 0⟩
      let green : Bitfield := ⟨blue.offset + blue.length, length, 0⟩
      let red : Bitfield := ⟨green.offset + green.length, other, 0⟩
      let transp : Bitfield :=
        if var.transp.length = 0 then ⟨0, 0, 0⟩
        else
          let offset := (red.offset + red.length) &&& 0xF
          ⟨offset, 16 - offset, 0⟩
      some { var with
        bits_per_pixel := 16, red := red, green := green, blue := blue, transp := transp }
  else if var.bits_per_pixel ≤ 32 then
    some { var with
      bits_per_pixel := 32
      red := ⟨16, 8, 0⟩
      green := ⟨8, 8, 0⟩
      blue := ⟨0, 8, 0⟩
      transp := ⟨24, if var.transp.length = 0 then 0 else 8, 0⟩ }
  else none

/-- `hcfb_set_color_format`; a format that it refuses leaves the old one. -/
def hcfb_set_color_format (old : ColorFmt) (var : Var) : ColorFmt :=
  if var.bits_per_pixel = 8 then .CLUT8
  else if var.bits_per_pixel = 16 then
    if var.green.length = 6 then .RGB565
    else if var.green.length = 5 then .ARGB1555
    else if var.transp.length = 0 then .RGB444
    else if var.transp.length = 4 then .ARGB4444
    else old
  else if var.bits_per_pixel = 32 then
    if var.transp.length = 8 then .ARGB8888
    else if var.transp.length = 0 then .RGB888
    else old
  else old

/-- A line of the virtual screen, in bytes. -/
def Var.lineBytes (var : Var) : UInt32 := var.xres_virtual * (var.bits_per_pixel >>> 3)

section

variable (s : Fb)

def Fb.gma_show_onoff (on : Bool) : Fb := { s with gma_onoff := on }

/-- The position on the screen of a picture of `w` by `h` pixels at `x`, `y`. -/
def Fb.place (x y w h : UInt32) : Fb :=
  let h_mul := s.scale.h_mul.toUInt32
  let h_div := s.scale.h_div.toUInt32
  let v_mul := s.scale.v_mul.toUInt32
  let v_div := s.scale.v_div.toUInt32
  { s with
    sx := (x * h_mul / h_div).toUInt16
    sy := (y * v_mul / v_div).toUInt16
    ex := ((x + w) * h_mul / h_div).toUInt16 - 1
    ey := ((y + h) * v_mul / v_div).toUInt16 - 1 }

/-- `hcfb_update`. -/
def Fb.hcfb_update (var : Var) : Fb :=
  let rows :=
    if var.yres ≤ var.yres_virtual - var.yoffset then var.yres
    else var.yres_virtual - var.yoffset
  let s := { s with
    bits_per_pixel := var.bits_per_pixel.toUInt16
    green_length := var.green.length.toUInt16
    transp_length := var.transp.length.toUInt16
    pitch := var.lineBytes.toUInt16
    src_w := var.xres.toUInt16
    src_h := rows.toUInt16 }
  s.place s.left.toUInt32 s.top.toUInt32 s.src_w.toUInt32 s.src_h.toUInt32

/-- The header of the picture at `off_pitch` in the buffer at `mem`. The fields are narrower
    than those of the driver. -/
def Fb.header (mem : UInt32) : Header where
  gma_mode := s.color_format
  sx := s.sx % 4096
  ex := s.ex % 8192
  sy := s.sy % 4096
  ey := s.ey % 4096
  src_w := s.src_w % 4096
  src_h := s.src_h % 4096
  pitch := s.pitch % 16384
  bitmap_addr := PHY_ADDR (mem + s.off_pitch)

/-- `gma_dmba_update`. -/
def Fb.gma_dmba_update : Fb :=
  match s.fb_mem with
  | none => s
  | some mem => { s with frames := ⟨s.header mem, mem, s.off_pitch, s.fb_len⟩ :: s.frames }

/-- The length of the buffer for the virtual screen. -/
def Fb.layer_size : UInt32 :=
  s.var.xres_virtual * s.var.yres_virtual * (s.var.bits_per_pixel >>> 3) + s.extra_fb_len

/-- The part of `hcfb_alloc_mem` that gives the old buffer back. -/
def Fb.dropMem : Fb := if s.fb_mem.isSome then { s with fb_mem := none, fb_len := 0 } else s

/-- `hcfb_alloc_mem`, with whether it succeeds. `mem` is what `malloc` or `mmz_malloc`
    answers. -/
def Fb.hcfb_alloc_mem (mem : Option UInt32) : Fb × Bool :=
  let pitch := s.var.lineBytes.toUInt16
  let s := { s with pitch := pitch, line_length := pitch.toUInt32 }
  if s.buffer_source = .none ∨ s.fb_mem.isSome ∧ s.layer_size = s.fb_len then (s, true)
  else
    let t := s.dropMem
    if s.buffer_source = .static then
      ({ t with fb_mem := some (MIPS_CACHED_ADDR s.fb_static_phys), fb_len := s.fb_static_len },
        true)
    else
      match mem with
      | none => (t, false)
      | some p => ({ t with fb_mem := some p, fb_len := s.layer_size }, true)

/-- `hcfb_hwinit`. -/
def Fb.hcfb_hwinit : Fb :=
  let var := s.var
  let s := { s with
    color_format := hcfb_set_color_format s.color_format var
    bits_per_pixel := var.bits_per_pixel.toUInt16
    green_length := var.green.length.toUInt16
    transp_length := var.transp.length.toUInt16
    pitch := var.lineBytes.toUInt16
    src_w := var.xres.toUInt16
    src_h := var.yres.toUInt16 }
  s.place 0 0 var.xres var.yres

/-- `hcfb_open`. -/
def Fb.hcfb_open (mem : Option UInt32) : Fb × Bool :=
  match s.hcfb_alloc_mem mem with
  | (s, false) => (s, false)
  | (s, true) =>
    let s := if s.hwinited then s else { s.hcfb_hwinit with hwinited := true }
    (s.gma_dmba_update, true)

/-- The test of `hcfb_set_par` for settings that the hardware has already. -/
def Fb.sameMode (var : Var) : Bool :=
  s.hwinited && s.bits_per_pixel.toUInt32 = var.bits_per_pixel && s.src_w.toUInt32 = var.xres &&
    s.src_h.toUInt32 = var.yres && s.green_length.toUInt32 = var.green.length &&
    s.transp_length.toUInt32 = var.transp.length

/-- `hcfb_set_par`, with whether it succeeds. -/
def Fb.hcfb_set_par (mem : Option UInt32) : Fb × Bool :=
  let onoff := s.gma_onoff
  let turnOn (s : Fb) := if onoff && !s.var.ywrap then s.gma_show_onoff true else s
  let s := { s with line_length := s.var.lineBytes }
  if s.sameMode s.var then (turnOn s, true)
  else
    let s := if s.hwinited && onoff then s.gma_show_onoff false else s
    let s := { s with color_format := hcfb_set_color_format s.color_format s.var }
    match s.hcfb_alloc_mem mem with
    | (s, false) => (s, false)
    | (s, true) => (turnOn (s.hcfb_update s.var).gma_dmba_update, true)

/-- `hcfb_pan_display`. -/
def Fb.hcfb_pan_display (var : Var) : Fb :=
  let s := { s with
    off_pitch := s.line_length * var.yoffset +
      var.xoffset * (s.bits_per_pixel.toUInt32 >>> 3)
    var := { s.var with xoffset := var.xoffset, yoffset := var.yoffset } }
  (s.hcfb_update s.var).gma_dmba_update

/-! ### Calls -/

/-- The offsets that `fb_pan_display` refuses. -/
def Fb.panRefused (var : Var) : Bool :=
  let yres := if 0 < var.yoffset ∧ var.ywrap then 0 else s.var.yres
  let ystep := if var.ywrap then ywrapstep else ypanstep
  0 < var.yoffset ∧ (ystep = 0 ∨ var.yoffset % ystep ≠ 0) ∨
    0 < var.xoffset ∧ (xpanstep = 0 ∨ var.xoffset % xpanstep ≠ 0) ∨
    s.var.yres_virtual - yres < var.yoffset ∨
    s.var.xres_virtual - s.var.xres < var.xoffset

/-- `fb_pan_display`, with whether it succeeds. -/
def Fb.fb_pan_display (var : Var) : Fb × Bool :=
  if s.panRefused var then (s, false)
  else
    let s := s.hcfb_pan_display var
    let vmode :=
      if var.ywrap then s.var.vmode ||| FB_VMODE_YWRAP else s.var.vmode &&& ~~~FB_VMODE_YWRAP
    ({ s with var := { s.var with vmode := vmode } }, true)

/-- `fb_set_var`, with whether it succeeds. Setting the colour map programs the display once
    more. -/
def Fb.fb_set_var (var : Var) (mem : Option UInt32) : Fb × Bool :=
  if s.var = var then (s, true)
  else
    match hcfb_check_var var with
    | none => (s, false)
    | some var =>
      match Fb.hcfb_set_par { s with var := var } mem with
      | (t, false) => ({ t with var := s.var }, false)
      | (t, true) => ((t.fb_pan_display t.var).1.gma_dmba_update, true)

/-- The scale factors as `hcfb_set_scale` stores them; `none` when it divides by zero. -/
def scaleOf (h_div v_div h_mul v_mul : UInt16) : Option Scale :=
  let (h_div, h_mul) := if h_mul = h_div then (1, 1) else (h_div, h_mul)
  let (v_div, v_mul) := if v_mul = v_div then (1, 1) else (v_div, v_mul)
  if h : h_div ≠ 0 ∧ v_div ≠ 0 ∧ h_mul ≠ 0 ∧ v_mul ≠ 0 then
    some ⟨h_div, v_div, h_mul, v_mul, h⟩
  else none

/-- `hcfb_set_scale`. -/
def Fb.hcfb_set_scale (scale : Scale) : Fb :=
  (Fb.hcfb_update { s with scale := scale } s.var).gma_dmba_update

/-- `hcfb_set_left_top`. -/
def Fb.hcfb_set_left_top (left top : UInt16) : Fb := { s with left := left, top := top }

end

/-- The calls on the device. All but the first need an open file. -/
inductive Call where
  | openDev (mem : Option UInt32)
  | setVar (var : Var) (mem : Option UInt32)
  | pan (var : Var)
  | setScale (h_div v_div h_mul v_mul : UInt16)
  | setLeftTop (left top : UInt16)
  | blank (on : Bool)

/-- The step function. -/
def step (s : Fb) : Call → Option Fb
  | .openDev mem => some (s.hcfb_open mem).1
  | .setVar var mem => if s.hwinited then some (s.fb_set_var var mem).1 else none
  | .pan var => if s.hwinited then some (s.fb_pan_display var).1 else none
  | .setScale h_div v_div h_mul v_mul =>
    if s.hwinited then (scaleOf h_div v_div h_mul v_mul).map s.hcfb_set_scale else none
  | .setLeftTop left top => if s.hwinited then some (s.hcfb_set_left_top left top) else none
  | .blank on => if s.hwinited then some (s.gma_show_onoff on) else none

/-! ### Probe -/

/-- The properties of the device tree node. -/
structure Node where
  bits_per_pixel : Option UInt32
  xres : Option UInt32
  yres : Option UInt32
  xres_virtual : Option UInt32
  yres_virtual : Option UInt32
  xoffset : Option UInt32
  yoffset : Option UInt32
  extra_buffer_size : Option UInt32
  h_div : Option UInt32
  v_div : Option UInt32
  h_mul : Option UInt32
  v_mul : Option UInt32
  buffer_phy_static : Option UInt32
  buffer_static_len : Option UInt32
  buffer_source : Option String

/-- `hcfb_set_default_var`, with the properties of the node. -/
def Node.var (np : Node) : Var where
  xres := np.xres.getD 1280
  yres := np.yres.getD 720
  xres_virtual := np.xres_virtual.getD 1280
  yres_virtual := np.yres_virtual.getD 720
  xoffset := np.xoffset.getD 0
  yoffset := np.yoffset.getD 0
  bits_per_pixel := np.bits_per_pixel.getD 32
  vmode := 0
  red := ⟨16, 8, 0⟩
  green := ⟨8, 8, 0⟩
  blue := ⟨0, 8, 0⟩
  transp := ⟨24, 8, 0⟩

/-- The source of the buffer: the system, unless the node names another one. -/
def Node.source (np : Node) : BufferSource :=
  match np.buffer_source with
  | some name =>
    if name = "system" then .system
    else if name = "mmz0" then .mmz0
    else if name = "static" then .static
    else if name = "none" then .none
    else .system
  | none => .system

/-- The start of the static buffer, on a page. -/
def Node.static_phys (np : Node) : UInt32 :=
  ((np.buffer_phy_static.getD 0) + 4096 - 1) &&& ~~~4095

/-- The device before its scale is set. -/
def Node.device (np : Node) (var : Var) (scale : Scale) : Fb where
  var := var
  line_length := 0
  hwinited := false
  fb_mem := none
  fb_len := 0
  off_pitch := 0
  fb_static_phys := np.static_phys
  fb_static_len := np.buffer_static_len.getD 0 - (np.static_phys - np.buffer_phy_static.getD 0)
  extra_fb_len := np.extra_buffer_size.getD 0
  buffer_source := np.source
  scale := scale
  left := 0
  top := 0
  sx := 0
  ex := 0
  sy := 0
  ey := 0
  src_w := 0
  src_h := 0
  pitch := 0
  bits_per_pixel := 0
  green_length := 0
  transp_length := 0
  color_format := .RGB888
  gma_onoff := false
  frames := []

/-- `hcfb_probe`; `none` when no device is registered. The buffer does not exist yet when the
    scale is set, so nothing is programmed. -/
def hcfb_probe (np : Node) (mem : Option UInt32) : Option Fb :=
  (hcfb_check_var np.var).bind fun var =>
    (scaleOf (np.h_div.getD 1).toUInt16 (np.v_div.getD 1).toUInt16 (np.h_mul.getD 1).toUInt16
        (np.v_mul.getD 1).toUInt16).bind fun scale =>
      match ((np.device var scale).hcfb_set_scale scale).hcfb_alloc_mem mem with
      | (_, false) => none
      | (s, true) => some s

/-! ### Scaling

`hcfb_set_scale` with the part of the header that `Header` leaves out: whether the picture is
scaled, and the steps through it, in 4 bits and a fraction of 12. The device has two headers,
which it fills in turn, and without scaling the steps in them stay as they are.
-/

/-- `SCALE_DIR_*`. -/
inductive ScaleDir where
  | off
  | up
  | down
  deriving DecidableEq

/-- The fields of `gma_header_t` about scaling. -/
structure ScaleHeader where
  scale_on : Bool
  edge_preserve_on : Bool
  inc_h_int : UInt16
  inc_h_frag : UInt16
  inc_v_int : UInt16
  inc_v_frag : UInt16

/-- The device with the fields about scaling, and the headers given to the display, the latest one
    first. -/
structure Scaler where
  fb : Fb
  scale_dir : ScaleDir
  scale_ep_on : Bool
  h_scale : UInt16
  v_scale : UInt16
  block : Bool → ScaleHeader
  sw_block_id : Bool
  scaled : List ScaleHeader

/-- The direction that `hcfb_set_scale` finds for a factor. -/
def dirOf (mul div : UInt16) : ScaleDir :=
  if mul = div then .off else if div < mul then .up else .down

/-- `h_scale_dir |= v_scale_dir`, and what it is taken for. Up in one direction and down in the
    other is up. -/
def ScaleDir.or : ScaleDir → ScaleDir → ScaleDir
  | .off, dir => dir
  | dir, .off => dir
  | .down, .down => .down
  | _, _ => .up

/-- The step `div * 4096 / mul`, in 32 bits, and stored in 16. -/
def stepOf (div mul : UInt16) : UInt16 := (div.toUInt32 * 4096 / mul.toUInt32).toUInt16

/-- The scaling part of `gma_dmba_update`. -/
def Scaler.fill (s : Scaler) (header : ScaleHeader) : ScaleHeader :=
  match s.scale_dir with
  | .off => { header with scale_on := false }
  | dir =>
    { inc_h_frag := s.h_scale &&& 0xfff
      inc_h_int := (s.h_scale >>> 12) &&& 0xf
      inc_v_frag := s.v_scale &&& 0xfff
      inc_v_int := (s.v_scale >>> 12) &&& 0xf
      scale_on := true
      edge_preserve_on := dir = ScaleDir.up ∧ s.scale_ep_on }

/-- `gma_dmba_update`. -/
def Scaler.gma_dmba_update (s : Scaler) : Scaler :=
  if s.fb.fb_mem = none then s
  else
    let header := s.fill (s.block s.sw_block_id)
    { s with
      fb := s.fb.gma_dmba_update
      block := fun id => if id = s.sw_block_id then header else s.block id
      sw_block_id := !s.sw_block_id
      scaled := header :: s.scaled }

/-- `hcfb_set_scale`; `none` when it divides by zero. -/
def Scaler.hcfb_set_scale (s : Scaler) (h_div v_div h_mul v_mul : UInt16) : Option Scaler :=
  let scale_dir := (dirOf h_mul h_div).or (dirOf v_mul v_div)
  (scaleOf h_div v_div h_mul v_mul).map fun scale =>
    let s := { s with
      scale_dir := scale_dir
      scale_ep_on := scale_dir = ScaleDir.up
      h_scale := stepOf scale.h_div scale.h_mul
      v_scale := stepOf scale.v_div scale.v_mul
      fb := Fb.hcfb_update { s.fb with scale := scale } s.fb.var }
    s.gma_dmba_update

/-! ### Frame buffer memory

What `fb.c` and `hc16xx_fb.c` keep about the memory of the frame buffer beside the settings of
the display: the fixed screen information, the address and the size that files read and write
through, and the memory itself. The calls are those of `Fb`, with that part of the state.
-/

section Memory

open WordMemory

/-- `struct fb_info`, with its device and the memory of the system. -/
structure Info where
  fb : Fb
  smem_start : UInt32
  smem_len : UInt32
  screen_base : Option UInt32
  screen_size : UInt32
  memory : Mem

/-- The length of a line, as `hcfb_alloc_mem` stores it: `pitch` has 16 bits. -/
def Fb.storePitch (s : Fb) : Fb :=
  let pitch := s.var.lineBytes.toUInt16
  { s with pitch := pitch, line_length := pitch.toUInt32 }

/-- What `hcfb_set_par` does to another mode before it allocates. -/
def Fb.prepareMode (s : Fb) : Fb :=
  let onoff := s.gma_onoff
  let s := { s with line_length := s.var.lineBytes }
  let s := if s.hwinited && onoff then s.gma_show_onoff false else s
  { s with color_format := hcfb_set_color_format s.color_format s.var }

/-- `gma_show_onoff` at the end of `hcfb_set_par`. -/
def Fb.showAgain (s : Fb) (onoff : Bool) : Fb :=
  if onoff && !s.var.ywrap then s.gma_show_onoff true else s

section

variable (s : Info)

/-- The part of `hcfb_alloc_mem` that gives the old buffer back. -/
def Info.dropMem : Info :=
  if s.fb.fb_mem.isSome then
    { s with
      fb := s.fb.dropMem
      smem_start := 0
      smem_len := 0
      screen_base := none
      screen_size := 0 }
  else s

/-- The part of `hcfb_alloc_mem` that takes the new buffer. -/
def Info.takeMem (p len : UInt32) : Info where
  fb := { s.fb with fb_mem := some p, fb_len := len }
  smem_start := PHY_ADDR p
  smem_len := len
  screen_base := some p
  screen_size := len
  memory := patch s.memory p len.toNat fun _ => 0

/-- `hcfb_alloc_mem`. -/
def Info.hcfb_alloc_mem (mem : Option UInt32) : Info × Bool :=
  let t := { s with fb := s.fb.storePitch }
  if s.fb.buffer_source = .none ∨ s.fb.fb_mem.isSome ∧ s.fb.layer_size = s.fb.fb_len then (t, true)
  else if s.fb.buffer_source = .static then
    (t.dropMem.takeMem (MIPS_CACHED_ADDR s.fb.fb_static_phys) s.fb.fb_static_len, true)
  else
    match mem with
    | none => (t.dropMem, false)
    | some p => (t.dropMem.takeMem p s.fb.layer_size, true)

/-- `hcfb_set_par`. -/
def Info.hcfb_set_par (mem : Option UInt32) : Info × Bool :=
  if s.fb.sameMode s.fb.var then
    let fb := { s.fb with line_length := s.fb.var.lineBytes }
    ({ s with fb := fb.showAgain s.fb.gma_onoff }, true)
  else
    match Info.hcfb_alloc_mem { s with fb := s.fb.prepareMode } mem with
    | (t, false) => (t, false)
    | (t, true) =>
      let fb := (t.fb.hcfb_update t.fb.var).gma_dmba_update
      ({ t with fb := fb.showAgain s.fb.gma_onoff }, true)

/-- `fb_set_var`. -/
def Info.fb_set_var (var : Var) (mem : Option UInt32) : Info × Bool :=
  if s.fb.var = var then (s, true)
  else
    match hcfb_check_var var with
    | none => (s, false)
    | some var =>
      match Info.hcfb_set_par { s with fb := { s.fb with var := var } } mem with
      | (t, false) => ({ t with fb := { t.fb with var := s.fb.var } }, false)
      | (t, true) => ({ t with fb := (t.fb.fb_pan_display t.fb.var).1.gma_dmba_update }, true)

end

end Memory

end Hcrtos.Native.Hcfb
