import Hcrtos.Native.Hcfb
import Hcrtos.Spec.HcfbContainment

/-!
# Scaling, exactly

A picture of `w` pixels at `x`, scaled by `mul / div`, ends at `(x + w) * mul / div - 1` on the
screen, and the display steps through it by `4096 * div / mul`. The driver computes the edge in 32
bits, keeps 16 of them and gives the display 13 or 12, and it keeps 16 bits of the step. Nothing
checks the factors.

## Key results

- `edge_exact_iff`, `step_exact_iff`: when an edge and a step survive
- `axisExact_iff`: one direction
- `scaledExactly_iff`: the ratios and geometries that are programmed exactly
- `scaledExactly_fails`: a multiplier of zero, and a reduction to a sixteenth
-/

namespace Hcrtos.Native.Hcfb

/-- One direction of the picture as it is programmed: from `start` to `stop`, by steps of `step`
    if it is scaled. -/
structure AxisExact (x w mul div : Nat) (scaled : Bool) (step start stop : Nat) : Prop where
  increment : scaled = true → step = 4096 * div / mul
  ends : stop + 1 = (x + w) * mul / div
  ordered : start ≤ stop

/-- The ratio is above a sixteenth, and the edge is one of `limit` values and behind the start,
    of which 12 bits are programmed. The size has 16 bits, or else what is left of it gives an
    edge of 0, which wraps to the very limit. -/
structure AxisFits (limit x w mul div : Nat) : Prop where
  ratio : div < 16 * mul
  ends : (x + w) * mul / div ≤ limit
  ordered : x * mul / div % 4096 < (x + w) * mul / div
  size : w < 65536 ∨ (x + w) * mul / div = limit ∧ (x + w % 65536) * mul < div

/-- The edge that is programmed. -/
def edge (limit x w mul div : Nat) : Nat :=
  ((x + w % 65536) * mul % 4294967296 / div % 65536 + 65535) % 65536 % limit

theorem edge_exact_iff {limit x w mul div : Nat} (hmul : 0 < mul) (hdiv : 0 < div)
    (hword : div < 65536) (hlimit : limit = 8192 ∨ limit = 4096) :
    edge limit x w mul div + 1 = (x + w) * mul / div ↔
      0 < (x + w) * mul / div ∧ (x + w) * mul / div ≤ limit ∧
        (w < 65536 ∨ (x + w) * mul / div = limit ∧ (x + w % 65536) * mul < div) := by
  have hlt : edge limit x w mul div < limit := Nat.mod_lt _ (by omega)
  by_cases hle : (x + w) * mul / div ≤ limit
  swap
  · exact ⟨fun h => absurd h (by omega), fun h => absurd h.2.1 hle⟩
  -- up to the limit, the products are words
  have hprod : (x + w) * mul < 4294967296 := by
    have hsucc := Nat.lt_mul_div_succ ((x + w) * mul) hdiv
    have hbound : div * ((x + w) * mul / div + 1) ≤ 65535 * 8193 :=
      Nat.mul_le_mul (by omega) (by omega)
    omega
  have hpart : (x + w % 65536) * mul ≤ (x + w) * mul :=
    Nat.mul_le_mul_right mul (Nat.add_le_add_left (Nat.mod_le w 65536) x)
  have hquot : (x + w % 65536) * mul / div ≤ (x + w) * mul / div := Nat.div_le_div_right hpart
  have hzero : (x + w % 65536) * mul < div ↔ (x + w % 65536) * mul / div = 0 := by
    rw [Nat.div_eq_zero_iff]
    omega
  have hedge : edge limit x w mul div =
      ((x + w % 65536) * mul / div + 65535) % 65536 % limit := by
    rw [edge, Nat.mod_eq_of_lt (by omega : (x + w % 65536) * mul < 4294967296),
      Nat.mod_eq_of_lt (by omega : (x + w % 65536) * mul / div < 65536)]
  rw [hzero, hedge]
  by_cases hsize : w < 65536
  · rw [Nat.mod_eq_of_lt hsize]
    rcases hlimit with rfl | rfl <;> omega
  · -- the pixels that are lost are worth at least one on the screen
    have hlost : (x + w % 65536) * mul / div + 1 ≤ (x + w) * mul / div := by
      have hmore : (x + w % 65536) * mul + div ≤ (x + w) * mul := by
        have hdist : (x + w % 65536 + 65536) * mul ≤ (x + w) * mul :=
          Nat.mul_le_mul_right mul (by omega)
        have hpixels : 65536 * 1 ≤ 65536 * mul := Nat.mul_le_mul_left 65536 hmul
        rw [Nat.add_mul] at hdist
        omega
      calc (x + w % 65536) * mul / div + 1 = ((x + w % 65536) * mul + div) / div :=
            (Nat.add_div_right _ hdiv).symm
        _ ≤ (x + w) * mul / div := Nat.div_le_div_right hmore
    rw [or_iff_right hsize]
    generalize (x + w % 65536) * mul / div = part at *
    generalize (x + w) * mul / div = whole at *
    rcases Nat.eq_zero_or_pos part with rfl | hpos <;> rcases hlimit with rfl | rfl <;> omega

theorem step_exact_iff {mul div : Nat} (hmul : 0 < mul) :
    4096 * div / mul % 65536 = 4096 * div / mul ↔ div < 16 * mul := by
  have hlt : 4096 * div / mul < 65536 ↔ 4096 * div < 65536 * mul := Nat.div_lt_iff_lt_mul hmul
  rw [Nat.mod_eq_iff_lt (by decide), hlt]
  omega

/-- One direction is exact when it fits the fields. -/
theorem axisExact_iff {limit x w mul div step : Nat} {scaled : Bool} (hmul : 0 < mul)
    (hdiv : 0 < div) (hword : div < 65536) (hlimit : limit = 8192 ∨ limit = 4096)
    (hoff : scaled = false → mul = 1 ∧ div = 1)
    (hon : scaled = true → step = 4096 * div / mul % 65536) :
    AxisExact x w mul div scaled step (x * mul / div % 4096) (edge limit x w mul div) ↔
      AxisFits limit x w mul div := by
  have hedge := @edge_exact_iff limit x w mul div hmul hdiv hword hlimit
  have hstep := @step_exact_iff mul div hmul
  constructor
  · intro h
    obtain ⟨-, hend, hsize⟩ := hedge.mp h.ends
    have hordered := h.ordered
    have hends := h.ends
    refine ⟨?_, hend, by omega, hsize⟩
    cases scaled with
    | true => exact hstep.mp ((hon rfl).symm.trans (h.increment rfl))
    | false =>
      obtain ⟨rfl, rfl⟩ := hoff rfl
      decide
  · intro h
    have hordered := h.ordered
    have hends := hedge.mpr ⟨by omega, h.ends, h.size⟩
    exact ⟨fun hs => (hon hs).trans (hstep.mpr h.ratio), hends, by omega⟩

/-! ### The fields of the header -/

theorem toNat_stepOf {div mul : UInt16} : (stepOf div mul).toNat =
    4096 * div.toNat / mul.toNat % 65536 := by
  have hlt := div.toNat_lt
  have hprod : (div.toUInt32 * 4096).toNat = 4096 * div.toNat := by
    rw [UInt32.toNat_mul, UInt16.toNat_toUInt32]
    show div.toNat * 4096 % 4294967296 = 4096 * div.toNat
    omega
  rw [stepOf, UInt32.toNat_toUInt16, UInt32.toNat_div, hprod, UInt16.toNat_toUInt32]

/-- The integer part and the fraction of a step. -/
theorem toNat_int_frag (v : UInt16) :
    ((v >>> 12) &&& 0xf).toNat * 4096 + (v &&& 0xfff).toNat = v.toNat := by
  have hlt := v.toNat_lt
  have hint : ((v >>> 12) &&& 0xf).toNat = v.toNat / 4096 % 16 := by
    rw [UInt16.toNat_and, UInt16.toNat_shiftRight]
    exact (Nat.and_two_pow_sub_one_eq_mod _ 4).trans (by
      rw [show (12 : UInt16).toNat % 16 = 12 from rfl, Nat.shiftRight_eq_div_pow])
  have hfrag : (v &&& 0xfff).toNat = v.toNat % 4096 := by
    rw [UInt16.toNat_and]
    exact Nat.and_two_pow_sub_one_eq_mod _ 12
  rw [hint, hfrag]
  omega

theorem toNat_scaled_start (x mul div : UInt16) :
    ((x.toUInt32 * mul.toUInt32 / div.toUInt32).toUInt16 % 4096).toNat =
      x.toNat * mul.toNat / div.toNat % 4096 := by
  have hprod : x.toNat * mul.toNat < 4294967296 := by
    have hx := x.toNat_lt
    have hmul := mul.toNat_lt
    have := Nat.mul_le_mul (Nat.le_of_lt_succ hx) (Nat.le_of_lt_succ hmul)
    omega
  rw [UInt16.toNat_mod, UInt32.toNat_toUInt16, UInt32.toNat_div, UInt32.toNat_mul,
    UInt16.toNat_toUInt32, UInt16.toNat_toUInt32, UInt16.toNat_toUInt32, Nat.mod_eq_of_lt hprod]
  exact Nat.mod_mod_of_dvd _ (by decide)

theorem toNat_edge (x mul div : UInt16) (w : UInt32) :
    (((x.toUInt32 + w.toUInt16.toUInt32) * mul.toUInt32 / div.toUInt32).toUInt16 - 1).toNat =
      ((x.toNat + w.toNat % 65536) * mul.toNat % 4294967296 / div.toNat % 65536 + 65535) %
        65536 := by
  have hx := x.toNat_lt
  have hsum : (x.toUInt32 + w.toUInt16.toUInt32).toNat = x.toNat + w.toNat % 65536 := by
    rw [UInt32.toNat_add, UInt16.toNat_toUInt32, UInt16.toNat_toUInt32, UInt32.toNat_toUInt16]
    exact Nat.mod_eq_of_lt (by omega)
  rw [UInt16.toNat_sub, UInt32.toNat_toUInt16, UInt32.toNat_div, UInt32.toNat_mul, hsum,
    UInt16.toNat_toUInt32, UInt16.toNat_toUInt32, Nat.add_comm]
  rfl

/-- The rows that `hcfb_update` finds below the offset. -/
def Var.rows (v : Var) : UInt32 :=
  if v.yres ≤ v.yres_virtual - v.yoffset then v.yres else v.yres_virtual - v.yoffset

section

variable (s : Fb) (scale : Scale) (mem : UInt32)

/-- The device with new factors, as `hcfb_set_scale` updates it. -/
def Fb.rescaled : Fb := Fb.hcfb_update { s with scale := scale } s.var

theorem rescaled_sx : ((s.rescaled scale).header mem).sx.toNat =
    s.left.toNat * scale.h_mul.toNat / scale.h_div.toNat % 4096 := toNat_scaled_start _ _ _

theorem rescaled_sy : ((s.rescaled scale).header mem).sy.toNat =
    s.top.toNat * scale.v_mul.toNat / scale.v_div.toNat % 4096 := toNat_scaled_start _ _ _

theorem rescaled_ex : ((s.rescaled scale).header mem).ex.toNat =
    edge 8192 s.left.toNat s.var.xres.toNat scale.h_mul.toNat scale.h_div.toNat := by
  have hedge := toNat_edge s.left scale.h_mul scale.h_div s.var.xres
  show ((((s.left.toUInt32 + s.var.xres.toUInt16.toUInt32) * scale.h_mul.toUInt32 /
    scale.h_div.toUInt32).toUInt16 - 1) % 8192).toNat = _
  rw [UInt16.toNat_mod, hedge]
  rfl

theorem rescaled_ey : ((s.rescaled scale).header mem).ey.toNat =
    edge 4096 s.top.toNat s.var.rows.toNat scale.v_mul.toNat scale.v_div.toNat := by
  have hedge := toNat_edge s.top scale.v_mul scale.v_div s.var.rows
  show ((((s.top.toUInt32 + s.var.rows.toUInt16.toUInt32) * scale.v_mul.toUInt32 /
    scale.v_div.toUInt32).toUInt16 - 1) % 4096).toNat = _
  rw [UInt16.toNat_mod, hedge]
  rfl

end

/-! ### Setting a scale -/

/-- The ratio is that of the user, and no division is by zero. What the display is given, if there
    is a picture, is exact in both directions. -/
def ScaledExactly (s : Scaler) (h_div v_div h_mul v_mul : UInt16) : Prop :=
  ∃ scale t, scaleOf h_div v_div h_mul v_mul = some scale ∧
    s.hcfb_set_scale h_div v_div h_mul v_mul = some t ∧
    (s.fb.fb_mem ≠ none → ∃ frame header, t.fb.frames.head? = some frame ∧
      t.scaled.head? = some header ∧
      AxisExact s.fb.left.toNat s.fb.var.xres.toNat scale.h_mul.toNat scale.h_div.toNat
        header.scale_on (header.inc_h_int.toNat * 4096 + header.inc_h_frag.toNat)
        frame.header.sx.toNat frame.header.ex.toNat ∧
      AxisExact s.fb.top.toNat s.fb.var.rows.toNat scale.v_mul.toNat scale.v_div.toNat
        header.scale_on (header.inc_v_int.toNat * 4096 + header.inc_v_frag.toNat)
        frame.header.sy.toNat frame.header.ey.toNat)

/-- No factor is zero, unless the two of a direction are equal, and the ratio and the geometry of a
    picture fit the fields in both directions. -/
def ScaleFits (s : Scaler) (h_div v_div h_mul v_mul : UInt16) : Prop :=
  ∃ scale, scaleOf h_div v_div h_mul v_mul = some scale ∧
    (s.fb.fb_mem ≠ none →
      AxisFits 8192 s.fb.left.toNat s.fb.var.xres.toNat scale.h_mul.toNat scale.h_div.toNat ∧
      AxisFits 4096 s.fb.top.toNat s.fb.var.rows.toNat scale.v_mul.toNat scale.v_div.toNat)

/-- The factors that are divided by. -/
theorem scaleOf_isSome_iff (h_div v_div h_mul v_mul : UInt16) :
    (scaleOf h_div v_div h_mul v_mul).isSome ↔
      (h_mul = h_div ∨ h_div ≠ 0 ∧ h_mul ≠ 0) ∧ (v_mul = v_div ∨ v_div ≠ 0 ∧ v_mul ≠ 0) := by
  unfold scaleOf
  by_cases hh : h_mul = h_div <;> by_cases hv : v_mul = v_div <;> simp [hh, hv]; tauto

/-- The factors that are stored have the ratio of those of the user. -/
theorem scaleOf_ratio {h_div v_div h_mul v_mul : UInt16} {scale : Scale}
    (h : scaleOf h_div v_div h_mul v_mul = some scale) :
    h_div.toNat * scale.h_mul.toNat = h_mul.toNat * scale.h_div.toNat ∧
      v_div.toNat * scale.v_mul.toNat = v_mul.toNat * scale.v_div.toNat := by
  unfold scaleOf at h
  by_cases hh : h_mul = h_div <;> by_cases hv : v_mul = v_div <;> simp [hh, hv] at h
  all_goals
    obtain ⟨-, rfl⟩ := h
    simp [hh, hv, Nat.mul_comm]

theorem dirOf_eq_off_iff (mul div : UInt16) : dirOf mul div = .off ↔ mul = div := by
  rw [dirOf]
  split
  · simp_all
  · split <;> simp_all

theorem or_eq_off_iff (h v : ScaleDir) : h.or v = .off ↔ h = .off ∧ v = .off := by
  cases h <;> cases v <;> decide

/-- Without scaling, both directions are one to one. -/
theorem scaleOf_off {h_div v_div h_mul v_mul : UInt16} {scale : Scale}
    (h : scaleOf h_div v_div h_mul v_mul = some scale)
    (hoff : (dirOf h_mul h_div).or (dirOf v_mul v_div) = .off) :
    (scale.h_mul = 1 ∧ scale.h_div = 1) ∧ scale.v_mul = 1 ∧ scale.v_div = 1 := by
  rw [or_eq_off_iff, dirOf_eq_off_iff, dirOf_eq_off_iff] at hoff
  obtain ⟨rfl, rfl⟩ := hoff
  simp [scaleOf] at h
  subst h
  exact ⟨⟨rfl, rfl⟩, rfl, rfl⟩

/-- The fields about scaling, once there is a direction. -/
theorem fill_of_ne_off {s : Scaler} (h : s.scale_dir ≠ .off) (header : ScaleHeader) :
    (s.fill header).scale_on = true ∧
      (s.fill header).inc_h_int.toNat * 4096 + (s.fill header).inc_h_frag.toNat =
        s.h_scale.toNat ∧
      (s.fill header).inc_v_int.toNat * 4096 + (s.fill header).inc_v_frag.toNat =
        s.v_scale.toNat := by
  rw [Scaler.fill]
  split
  · contradiction
  · exact ⟨rfl, toNat_int_frag _, toNat_int_frag _⟩

theorem fill_scale_on_iff (s : Scaler) (header : ScaleHeader) :
    (s.fill header).scale_on = false ↔ s.scale_dir = .off := by
  constructor
  · intro h
    by_contra hne
    rw [(fill_of_ne_off hne header).1] at h
    contradiction
  · intro h
    rw [Scaler.fill, h]

/-- The device when new factors have been stored. -/
def Scaler.stored (s : Scaler) (dir : ScaleDir) (scale : Scale) : Scaler := { s with
  scale_dir := dir
  scale_ep_on := dir = ScaleDir.up
  h_scale := stepOf scale.h_div scale.h_mul
  v_scale := stepOf scale.v_div scale.v_mul
  fb := s.fb.rescaled scale }

theorem hcfb_set_scale_eq {s : Scaler} {h_div v_div h_mul v_mul : UInt16} {scale : Scale}
    (h : scaleOf h_div v_div h_mul v_mul = some scale) :
    s.hcfb_set_scale h_div v_div h_mul v_mul =
      some (s.stored ((dirOf h_mul h_div).or (dirOf v_mul v_div)) scale).gma_dmba_update := by
  rw [Scaler.hcfb_set_scale, h]
  rfl

/-- What is given to the display, if there is a picture. -/
theorem gma_dmba_update_head {s : Scaler} {mem : UInt32} (h : s.fb.fb_mem = some mem) :
    (∃ frame, s.gma_dmba_update.fb.frames.head? = some frame ∧ frame.header = s.fb.header mem) ∧
      s.gma_dmba_update.scaled.head? = some (s.fill (s.block s.sw_block_id)) := by
  have hne : ¬ s.fb.fb_mem = none := by
    rw [h]
    exact Option.some_ne_none mem
  rw [Scaler.gma_dmba_update, if_neg hne]
  refine ⟨?_, rfl⟩
  dsimp only
  rw [gma_dmba_update_some h]
  exact ⟨_, rfl, rfl⟩

/-- The ratios and geometries that are programmed exactly. -/
theorem scaledExactly_iff (s : Scaler) (h_div v_div h_mul v_mul : UInt16) :
    ScaledExactly s h_div v_div h_mul v_mul ↔ ScaleFits s h_div v_div h_mul v_mul := by
  have hone : (1 : UInt16).toNat = 1 := rfl
  -- with given factors, the two properties are those of the two directions
  have hiff : ∀ scale, scaleOf h_div v_div h_mul v_mul = some scale →
      ∃ t, s.hcfb_set_scale h_div v_div h_mul v_mul = some t ∧ ∀ mem, s.fb.fb_mem = some mem →
        ∃ frame header, t.fb.frames.head? = some frame ∧ t.scaled.head? = some header ∧
        (AxisExact s.fb.left.toNat s.fb.var.xres.toNat scale.h_mul.toNat scale.h_div.toNat
            header.scale_on (header.inc_h_int.toNat * 4096 + header.inc_h_frag.toNat)
            frame.header.sx.toNat frame.header.ex.toNat ↔
          AxisFits 8192 s.fb.left.toNat s.fb.var.xres.toNat scale.h_mul.toNat
            scale.h_div.toNat) ∧
        (AxisExact s.fb.top.toNat s.fb.var.rows.toNat scale.v_mul.toNat scale.v_div.toNat
            header.scale_on (header.inc_v_int.toNat * 4096 + header.inc_v_frag.toNat)
            frame.header.sy.toNat frame.header.ey.toNat ↔
          AxisFits 4096 s.fb.top.toNat s.fb.var.rows.toNat scale.v_mul.toNat
            scale.v_div.toNat) := by
    intro scale hscale
    refine ⟨_, hcfb_set_scale_eq hscale, fun mem hmem => ?_⟩
    generalize hdir : (dirOf h_mul h_div).or (dirOf v_mul v_div) = dir
    obtain ⟨⟨frame, hframe, hheader⟩, hscaled⟩ :=
      @gma_dmba_update_head (s.stored dir scale) mem hmem
    refine ⟨frame, _, hframe, hscaled, ?_⟩
    have hpos : ∀ {n : UInt16}, n ≠ 0 → 0 < n.toNat := fun hne =>
      Nat.pos_of_ne_zero fun hzero => hne (UInt16.toNat_inj.mp hzero)
    obtain ⟨hhd, hvd, hhm, hvm⟩ := scale.ne_zero
    have hoff := fill_scale_on_iff (s.stored dir scale) ((s.stored dir scale).block
      (s.stored dir scale).sw_block_id)
    have hon := fun hne => @fill_of_ne_off (s.stored dir scale) hne ((s.stored dir scale).block
      (s.stored dir scale).sw_block_id)
    generalize (s.stored dir scale).fill ((s.stored dir scale).block
      (s.stored dir scale).sw_block_id) = header at hoff hon
    have hhead : frame.header = (s.fb.rescaled scale).header mem := hheader
    rw [hhead, rescaled_sx, rescaled_sy, rescaled_ex, rescaled_ey]
    have hone' : header.scale_on = false →
        (scale.h_mul = 1 ∧ scale.h_div = 1) ∧ scale.v_mul = 1 ∧ scale.v_div = 1 :=
      fun h => scaleOf_off hscale (hdir.trans (hoff.mp h))
    have hne : header.scale_on = true → dir ≠ .off := fun h hd => by
      rw [hoff.mpr hd] at h
      exact Bool.false_ne_true h
    have hhword : scale.h_div.toNat < 65536 := scale.h_div.toNat_lt
    have hvword : scale.v_div.toNat < 65536 := scale.v_div.toNat_lt
    constructor
    · refine axisExact_iff (hpos hhm) (hpos hhd) hhword (.inl rfl) (fun h => ?_) fun h => ?_
      · obtain ⟨⟨hm, hd⟩, -⟩ := hone' h
        rw [hm, hd]
        exact ⟨rfl, rfl⟩
      · exact (hon (hne h)).2.1.trans toNat_stepOf
    · refine axisExact_iff (hpos hvm) (hpos hvd) hvword (.inr rfl) (fun h => ?_) fun h => ?_
      · obtain ⟨-, hm, hd⟩ := hone' h
        rw [hm, hd]
        exact ⟨rfl, rfl⟩
      · exact (hon (hne h)).2.2.trans toNat_stepOf
  constructor
  · rintro ⟨scale, t, hscale, ht, hexact⟩
    refine ⟨scale, hscale, fun hmem => ?_⟩
    obtain ⟨mem, hsome⟩ := Option.ne_none_iff_exists'.mp hmem
    obtain ⟨t', ht', hall⟩ := hiff scale hscale
    obtain rfl : t = t' := Option.some.inj (ht.symm.trans ht')
    obtain ⟨frame, header, hframe, hheader, hh, hv⟩ := hall mem hsome
    obtain ⟨frame', header', hframe', hheader', hx, hy⟩ := hexact hmem
    obtain rfl : frame = frame' := Option.some.inj (hframe.symm.trans hframe')
    obtain rfl : header = header' := Option.some.inj (hheader.symm.trans hheader')
    exact ⟨hh.mp hx, hv.mp hy⟩
  · rintro ⟨scale, hscale, hfits⟩
    obtain ⟨t, ht, hall⟩ := hiff scale hscale
    refine ⟨scale, t, hscale, ht, fun hmem => ?_⟩
    obtain ⟨mem, hsome⟩ := Option.ne_none_iff_exists'.mp hmem
    obtain ⟨frame, header, hframe, hheader, hh, hv⟩ := hall mem hsome
    obtain ⟨hx, hy⟩ := hfits hmem
    exact ⟨frame, header, hframe, hheader, hh.mpr hx, hv.mpr hy⟩

/-- A device that has been probed, before anything is scaled. -/
def exampleScaler (fb : Fb) : Scaler where
  fb := fb
  scale_dir := .off
  scale_ep_on := false
  h_scale := 4096
  v_scale := 4096
  block _ := ⟨false, false, 0, 0, 0, 0⟩
  sw_block_id := false
  scaled := []

/-- A multiplier of zero divides by zero. A reduction to a sixteenth steps by nothing. -/
theorem scaledExactly_fails : ∃ s, hcfb_probe defaultNode (some 0x80100000) = some s ∧
    (exampleScaler s).hcfb_set_scale 1 1 0 1 = none ∧
    ¬ ScaledExactly (exampleScaler s) 1 1 0 1 ∧ ¬ ScaledExactly (exampleScaler s) 16 1 1 1 := by
  have hmem : ∃ s, hcfb_probe defaultNode (some 0x80100000) = some s ∧ s.fb_mem ≠ none :=
    ⟨_, rfl, by decide⟩
  obtain ⟨s, hs, hmem⟩ := hmem
  refine ⟨s, hs, rfl, ?_, ?_⟩
  · intro h
    obtain ⟨scale, -, hscale, -⟩ := h
    have hnone : scaleOf 1 1 0 1 = none := by decide
    rw [hnone] at hscale
    contradiction
  · rw [scaledExactly_iff]
    intro h
    obtain ⟨scale, hscale, hfits⟩ := h
    obtain rfl : ⟨16, 1, 1, 1, by decide⟩ = scale := Option.some.inj hscale
    have hratio : 16 < 16 * 1 := (hfits hmem).1.ratio
    omega

end Hcrtos.Native.Hcfb
