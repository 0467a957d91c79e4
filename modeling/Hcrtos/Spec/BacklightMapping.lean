import Hcrtos.ForStd.Nearest
import Hcrtos.Native.Backlight

/-!
# From percentages to high times

A brightness takes the entry of the table whose percentage is nearest, and with a period the high
time of that share of the scale. The percentage that is reported afterwards is the label of the
entry, so that it finds the entry again. All products have 32 bits, and the one with the period is
the first to lose some.

## Key results

- `search_nearest`, `level_to_duty_nearest`: the loop finds the nearest entry
- `level_to_duty_idem`: a reported percentage stands for the duty it was computed from
- `given_iff`: what the PWM is given
- `product_of_fits`, `high_mono_of_fits`: the products and their order, if they fit
- `ordered_of_full`: up to a scale of 42735992 the high times are in the order of the percentages
- `clamp_device`: the probe takes a scale that cuts no entry
- `levelsMapped_iff`: the tables, scales and periods whose high times are right
- `levelsMapped_fails`: a table up to 1000, at 200 Hz
-/

namespace Hcrtos.Native.Backlight

open Nearest

/-! ### The search -/

/-- The distance that the loop computes. -/
theorem toNat_delta (p level : UInt32) :
    (if p > level then p - level else level - p).toNat = Nat.dist p.toNat level.toNat := by
  have hp := p.toNat_lt
  have hl := level.toNat_lt
  unfold Nat.dist
  split
  · next h =>
    have hlt : level.toNat < p.toNat := h
    rw [UInt32.toNat_sub_of_le _ _ (UInt32.le_of_lt h)]
    omega
  · next h =>
    have hle : p.toNat ≤ level.toNat := UInt32.not_lt.mp h
    rw [UInt32.toNat_sub_of_le _ _ (UInt32.not_lt.mp h)]
    omega

/-- The loop carries the nearest entry so far, and its distance. -/
theorem search_foldl {percent : UInt32 → UInt32} {level x best_delta : UInt32}
    {pre rest : List UInt32} {best : Nat} (hbest : (pre ++ rest)[best]? = some x)
    (hdelta : best_delta.toNat = Nat.dist (percent x).toNat level.toNat) :
    (pre ++ rest)[search percent level rest pre.length best best_delta]? =
      rest.foldl (List.argAux fun y z => Nat.dist (percent y).toNat level.toNat <
        Nat.dist (percent z).toNat level.toNat) (some x) := by
  induction rest generalizing pre best x best_delta with
  | nil => exact hbest
  | cons y rest ih =>
    have happend : pre ++ y :: rest = (pre ++ [y]) ++ rest := by simp
    have hlen : pre.length + 1 = (pre ++ [y]).length := by simp
    have hy := toNat_delta (percent y) level
    unfold search
    rw [List.foldl_cons, List.argAux]
    dsimp only
    by_cases hlt : (if percent y > level then percent y - level else level - percent y) < best_delta
    · have hcloser : Nat.dist (percent y).toNat level.toNat <
          Nat.dist (percent x).toNat level.toNat := by
        rw [← hy, ← hdelta]
        exact hlt
      rw [if_pos hlt, if_pos hcloser, happend, hlen]
      refine ih ?_ hy
      rw [← happend]
      rw [List.getElem?_append_right (Nat.le_refl _), Nat.sub_self]
      rfl
    · have hfarther : ¬ Nat.dist (percent y).toNat level.toNat <
          Nat.dist (percent x).toNat level.toNat := by
        rw [← hy, ← hdelta]
        exact hlt
      rw [if_neg hlt, if_neg hfarther, happend, hlen]
      exact ih (happend ▸ hbest) hdelta

/-- The loop finds the nearest entry. -/
theorem search_nearest {percent : UInt32 → UInt32} {level : UInt32} {levels : List UInt32}
    (hpercent : ∀ x, percent x ≤ 100) (hlevel : level ≤ 100) (hne : levels ≠ []) :
    levels[search percent level levels 0 0 101]? =
      nearest (fun x => (percent x).toNat) levels level.toNat := by
  cases levels with
  | nil => contradiction
  | cons x rest =>
    -- no percentage is 101 away, so that the first entry is taken at least for a while
    have hfirst : (if percent x > level then percent x - level else level - percent x) < 101 := by
      rw [UInt32.lt_iff_toNat_lt, toNat_delta]
      have hx : (percent x).toNat ≤ 100 := hpercent x
      have hl : level.toNat ≤ 100 := hlevel
      show _ < 101
      unfold Nat.dist
      omega
    unfold search
    dsimp only
    rw [if_pos hfirst]
    exact @search_foldl percent level x _ [x] rest 0 rfl (toNat_delta _ _)

/-! ### Duties and percentages -/

section

variable (d : PwmBlData)

theorem full_pos : 0 < d.full.toNat := by
  unfold PwmBlData.full
  split
  · decide
  · next h => exact Nat.pos_of_ne_zero fun hzero => h (UInt32.toNat_inj.mp hzero)

theorem full_of_no_table (h : d.levels = []) : d.full = 100 := by
  unfold PwmBlData.full
  rcases d.no_table h with hz | hh
  · rw [hz]
    rfl
  · rw [hh]
    rfl

theorem clamp_le (duty : UInt32) : d.clamp duty ≤ d.full := by
  unfold PwmBlData.clamp
  split
  · exact UInt32.le_refl _
  · next h => exact UInt32.not_lt.mp h

@[simp] theorem clamp_clamp (duty : UInt32) : d.clamp (d.clamp duty) = d.clamp duty :=
  if_neg (UInt32.not_lt.mpr (clamp_le d duty))

theorem clamp_percent_le (level : UInt32) : backlight_clamp_percent level ≤ 100 := by
  unfold backlight_clamp_percent
  split
  · exact UInt32.le_refl _
  · next h => exact UInt32.not_lt.mp h

theorem clamp_percent_of_le {level : UInt32} (h : level ≤ 100) :
    backlight_clamp_percent level = level := if_neg (UInt32.not_lt.mpr h)

theorem toNat_duty_to_percent (duty : UInt32) : (d.backlight_duty_to_percent duty).toNat =
    ((d.clamp duty).toNat * 100 + d.full.toNat / 2) % 4294967296 / d.full.toNat := by
  have hhalf : (d.full / 2).toNat = d.full.toNat / 2 := UInt32.toNat_div _ _
  rw [PwmBlData.backlight_duty_to_percent, UInt32.toNat_div, UInt32.toNat_add, UInt32.toNat_mul,
    hhalf, Nat.mod_add_mod]
  rfl

/-- Even when the product loses bits, it is no more than 100 percent. -/
theorem duty_to_percent_le (duty : UInt32) : d.backlight_duty_to_percent duty ≤ 100 := by
  have hpos := full_pos d
  have hle : (d.clamp duty).toNat ≤ d.full.toNat := clamp_le d duty
  have hmod := Nat.mod_le ((d.clamp duty).toNat * 100 + d.full.toNat / 2) 4294967296
  rw [UInt32.le_iff_toNat_le, toNat_duty_to_percent]
  exact Nat.le_of_lt_succ ((Nat.div_lt_iff_lt_mul hpos).mpr (by
    show _ < 101 * d.full.toNat
    omega))

/-- The percentage that an entry is looked up by. -/
def PwmBlData.label (x : UInt32) : Nat := (d.backlight_duty_to_percent x).toNat

theorem duty_to_percent_clamp (duty : UInt32) :
    d.backlight_duty_to_percent (d.clamp duty) = d.backlight_duty_to_percent duty := by
  rw [PwmBlData.backlight_duty_to_percent, clamp_clamp]
  rfl

/-- With a table, the duty is that of the nearest entry. -/
theorem level_to_duty_nearest (h : d.levels ≠ []) (level : UInt32) :
    ∃ x ∈ nearest d.label d.levels (backlight_clamp_percent level).toNat,
      d.backlight_level_to_duty level = d.clamp x := by
  have hfound := search_nearest (duty_to_percent_le d) (clamp_percent_le level) h
  obtain ⟨x, hx⟩ := @nearest_isSome _ d.label _ h (backlight_clamp_percent level).toNat
  refine ⟨x, hx, ?_⟩
  rw [PwmBlData.backlight_level_to_duty, if_pos h]
  dsimp only
  rw [List.getD_eq_getElem?_getD, hfound.trans hx]
  rfl

/-- An entry without another of its percentage before it is found by it. -/
theorem level_to_duty_first {x : UInt32} (h : First d.label d.levels x) :
    d.backlight_level_to_duty (d.backlight_duty_to_percent x) = d.clamp x := by
  obtain ⟨y, hy, hduty⟩ := level_to_duty_nearest d (List.ne_nil_of_mem h.1)
    (d.backlight_duty_to_percent x)
  rw [clamp_percent_of_le (duty_to_percent_le d x)] at hy
  obtain rfl : x = y := Option.some.inj ((nearest_of_first h).symm.trans hy)
  exact hduty

/-- Without a table, percentages are duties. -/
theorem level_to_duty_no_table (h : d.levels = []) (level : UInt32) :
    d.backlight_level_to_duty level = backlight_clamp_percent level := by
  have hle : (backlight_clamp_percent level).toNat ≤ 100 := clamp_percent_le level
  rw [PwmBlData.backlight_level_to_duty, if_neg (not_not.mpr h), full_of_no_table d h,
    ← UInt32.toNat_inj, UInt32.toNat_div, UInt32.toNat_add, UInt32.toNat_mul]
  show ((backlight_clamp_percent level).toNat * 100 % 4294967296 + 50) % 4294967296 / 100 = _
  omega

theorem duty_to_percent_no_table (h : d.levels = []) {duty : UInt32} (hle : duty ≤ 100) :
    d.backlight_duty_to_percent duty = duty := by
  have hn : duty.toNat ≤ 100 := hle
  rw [← UInt32.toNat_inj, toNat_duty_to_percent, PwmBlData.clamp, full_of_no_table d h,
    if_neg (UInt32.not_lt.mpr hle)]
  show (duty.toNat * 100 + 50) % 4294967296 / 100 = _
  omega

/-- The percentage of a duty gives the duty again. -/
theorem level_to_duty_idem (level : UInt32) :
    d.backlight_level_to_duty (d.backlight_duty_to_percent (d.backlight_level_to_duty level)) =
      d.backlight_level_to_duty level := by
  by_cases h : d.levels = []
  · rw [level_to_duty_no_table d h level, duty_to_percent_no_table d h (clamp_percent_le level),
      level_to_duty_no_table d h, clamp_percent_of_le (clamp_percent_le level)]
  · obtain ⟨x, hx, hduty⟩ := level_to_duty_nearest d h level
    rw [hduty, duty_to_percent_clamp]
    exact level_to_duty_first d (first_of_nearest hx)

theorem clamp_percent_mono {level level' : UInt32} (hle : level ≤ level') :
    backlight_clamp_percent level ≤ backlight_clamp_percent level' := by
  have hn : level.toNat ≤ level'.toNat := hle
  unfold backlight_clamp_percent
  split <;> split
  · exact UInt32.le_refl _
  · next h h' =>
    have hgt : 100 < level.toNat := h
    have hngt : ¬ 100 < level'.toNat := h'
    omega
  · next h _ => exact UInt32.not_lt.mp h
  · exact hle

/-! ### High times -/

/-- The high time is the quotient of the integers exactly if the product has 32 bits: any bit that
    is lost is worth at least one. -/
theorem duty_ns_exact_iff (level : UInt32) :
    (d.duty_ns level).toNat =
        d.period_ns.toNat * (d.backlight_level_to_duty level).toNat / d.full.toNat ↔
      d.period_ns.toNat * (d.backlight_level_to_duty level).toNat < 4294967296 := by
  have hpos := full_pos d
  have hlt := d.full.toNat_lt
  rw [PwmBlData.duty_ns, UInt32.toNat_div, UInt32.toNat_mul]
  generalize d.period_ns.toNat * (d.backlight_level_to_duty level).toNat = product
  constructor
  · intro h
    by_contra hge
    have hlost : product % 4294967296 + d.full.toNat ≤ product := by omega
    have hmore : product % 4294967296 / d.full.toNat + 1 ≤ product / d.full.toNat :=
      calc product % 4294967296 / d.full.toNat + 1
          = (product % 4294967296 + d.full.toNat) / d.full.toNat := (Nat.add_div_right _ hpos).symm
        _ ≤ product / d.full.toNat := Nat.div_le_div_right hlost
    rw [h] at hmore
    omega
  · intro h
    rw [Nat.mod_eq_of_lt h]

theorem level_to_duty_le (level : UInt32) : d.backlight_level_to_duty level ≤ d.full := by
  by_cases h : d.levels = []
  · rw [level_to_duty_no_table d h, full_of_no_table d h]
    exact clamp_percent_le level
  · obtain ⟨x, -, hduty⟩ := level_to_duty_nearest d h level
    rw [hduty]
    exact clamp_le d x

theorem duty_ns_clamp (level : UInt32) :
    d.duty_ns (backlight_clamp_percent level) = d.duty_ns level := by
  have hduty : d.backlight_level_to_duty (backlight_clamp_percent level) =
      d.backlight_level_to_duty level := by
    unfold PwmBlData.backlight_level_to_duty
    rw [clamp_percent_of_le (clamp_percent_le level)]
  rw [PwmBlData.duty_ns, hduty]
  rfl

/-- The PWM is there, has a period and can be opened. -/
def PwmBlData.Driven (a : Answer) : Prop :=
  d.pwmbl_path ≠ none ∧ d.period_ns ≠ 0 ∧ a.opened = true

/-- What the PWM is given. -/
theorem set_pwm_duty_given (a : Answer) (level : UInt32) (pwm : PwmInfo) :
    (d.backlight_set_pwm_duty a level).1 = some pwm ↔
      d.Driven a ∧ ⟨d.period_ns, d.duty_ns level, d.polarity⟩ = pwm := by
  unfold PwmBlData.backlight_set_pwm_duty PwmBlData.Driven
  split
  · next h =>
    refine iff_of_false nofun fun hd => ?_
    simp [hd.1.1, hd.1.2.1, hd.1.2.2] at h
  · next h =>
    rw [not_or, not_or, Bool.not_eq_false] at h
    simp [h]

theorem given_iff (a : Answer) (level : UInt32) (pwm : PwmInfo) :
    (d.backlight_apply_level a level).2.1 = some pwm ↔
      d.Driven a ∧ ⟨d.period_ns, d.duty_ns level, d.polarity⟩ = pwm := by
  rw [← duty_ns_clamp d level, ← set_pwm_duty_given]
  have hnone : d.pwmbl_path.isSome = false →
      (d.backlight_set_pwm_duty a (backlight_clamp_percent level)).1 = none := fun h =>
    congrArg Prod.fst (if_pos (.inl (Option.not_isSome_iff_eq_none.mp (by simp [h]))))
  unfold PwmBlData.backlight_apply_level
  generalize backlight_clamp_percent level = level at *
  by_cases hpath : d.pwmbl_path.isSome = true
  · by_cases hzero : level = 0
    · simp [hzero, hpath]
    · simp only [if_neg hzero, if_pos hpath]
      split <;> next heq => rw [heq]
  · rw [hnone (Bool.not_eq_true _ ▸ hpath)]
    by_cases hzero : level = 0 <;> simp [hzero, hpath]

/-- After a success, the brightness that is reported stands for the duty that was set. -/
theorem reported_of_success {a : Answer} {level : UInt32} {d' : PwmBlData} {pwm : PwmInfo}
    (h : d.backlight_apply_level a level = (d', some pwm, true)) :
    d' = { d with duty_cycle := d'.duty_cycle, gpio_status := d'.gpio_status } ∧
      d'.duty_cycle ≤ 100 ∧ d.duty_ns d'.duty_cycle = d.duty_ns level := by
  rw [← duty_ns_clamp d level]
  unfold PwmBlData.backlight_apply_level at h
  generalize backlight_clamp_percent level = level at *
  by_cases hzero : level = 0
  · simp only [if_pos hzero, Prod.mk.injEq] at h
    obtain ⟨rfl, -⟩ := h
    exact ⟨rfl, Nat.zero_le 100, by rw [hzero]⟩
  · rw [if_neg hzero] at h
    split at h
    · split at h
      · cases h
        refine ⟨rfl, duty_to_percent_le d _, ?_⟩
        show d.duty_ns (d.backlight_duty_to_percent (d.backlight_level_to_duty level)) = _
        rw [PwmBlData.duty_ns, level_to_duty_idem]
        rfl
      · cases h
    · cases h

end

/-- The high times are in the order of the percentages, within the period and exact, and the
    brightness that is reported programs its high time again. -/
structure LevelsMapped (d : PwmBlData) : Prop where
  monotone : ∀ {a a' : Answer} {level level' : UInt32} {pwm pwm' : PwmInfo}, level ≤ level' →
    (d.backlight_apply_level a level).2.1 = some pwm →
    (d.backlight_apply_level a' level').2.1 = some pwm' → pwm.duty_ns ≤ pwm'.duty_ns
  within : ∀ {a : Answer} {level : UInt32} {pwm : PwmInfo},
    (d.backlight_apply_level a level).2.1 = some pwm → pwm.duty_ns ≤ d.period_ns
  exact : ∀ {a : Answer} {level : UInt32} {pwm : PwmInfo},
    (d.backlight_apply_level a level).2.1 = some pwm → pwm.duty_ns.toNat =
      d.period_ns.toNat * (d.backlight_level_to_duty level).toNat / d.full.toNat
  again : ∀ {a a' : Answer} {level : UInt32} {d' : PwmBlData} {pwm : PwmInfo},
    d.backlight_apply_level a level = (d', some pwm, true) → a'.opened = true →
    (d'.backlight_write a' d'.backlight_read).2.1 = some pwm

/-- With a table: the product of every entry that can be found fits 32 bits, and such entries are
    in the order of their percentages. -/
structure TableFits (d : PwmBlData) : Prop where
  product : ∀ x, First d.label d.levels x →
    d.period_ns.toNat * (d.clamp x).toNat < 4294967296
  ordered : ∀ x y, First d.label d.levels x → First d.label d.levels y → d.label x < d.label y →
    d.period_ns.toNat * (d.clamp x).toNat / d.full.toNat ≤
      d.period_ns.toNat * (d.clamp y).toNat / d.full.toNat

/-- There is no PWM, or it has no period, or no bit of a product is lost. -/
def MappingFits (d : PwmBlData) : Prop :=
  d.pwmbl_path = none ∨ d.period_ns = 0 ∨ d.levels = [] ∧ d.period_ns.toNat * 100 < 4294967296 ∨
    d.levels ≠ [] ∧ TableFits d

/-- Up to this scale, no percentage loses a bit, and the order is that of the entries. -/
theorem ordered_of_full {d : PwmBlData} (h : d.full.toNat ≤ 42735992) {x y : UInt32}
    (hlt : d.label x < d.label y) : d.period_ns.toNat * (d.clamp x).toNat / d.full.toNat ≤
      d.period_ns.toNat * (d.clamp y).toNat / d.full.toNat := by
  have hx : (d.clamp x).toNat ≤ d.full.toNat := clamp_le d x
  have hy : (d.clamp y).toNat ≤ d.full.toNat := clamp_le d y
  refine Nat.div_le_div_right (Nat.mul_le_mul_left _ ?_)
  by_contra hgt
  rw [PwmBlData.label, PwmBlData.label, toNat_duty_to_percent, toNat_duty_to_percent,
    Nat.mod_eq_of_lt (by omega), Nat.mod_eq_of_lt (by omega)] at hlt
  have hle : ((d.clamp y).toNat * 100 + d.full.toNat / 2) / d.full.toNat ≤
      ((d.clamp x).toNat * 100 + d.full.toNat / 2) / d.full.toNat :=
    Nat.div_le_div_right (by omega)
  omega

/-- When a PWM is given something, the product has 32 bits. -/
theorem product_of_fits {d : PwmBlData} (h : MappingFits d) {a : Answer} (hdriven : d.Driven a)
    (level : UInt32) :
    d.period_ns.toNat * (d.backlight_level_to_duty level).toNat < 4294967296 := by
  rcases h with hpath | hperiod | ⟨htable, hfit⟩ | ⟨htable, hfit⟩
  · exact absurd hpath hdriven.1
  · exact absurd hperiod hdriven.2.1
  · rw [level_to_duty_no_table d htable]
    have hle : (backlight_clamp_percent level).toNat ≤ 100 := clamp_percent_le level
    have := Nat.mul_le_mul_left d.period_ns.toNat hle
    omega
  · obtain ⟨x, hx, hduty⟩ := level_to_duty_nearest d htable level
    rw [hduty]
    exact hfit.product x (first_of_nearest hx)

/-- And the quotients are in the order of the levels. -/
theorem high_mono_of_fits {d : PwmBlData} (h : MappingFits d) {a : Answer} (hdriven : d.Driven a)
    {level level' : UInt32} (hle : level ≤ level') :
    d.period_ns.toNat * (d.backlight_level_to_duty level).toNat / d.full.toNat ≤
      d.period_ns.toNat * (d.backlight_level_to_duty level').toNat / d.full.toNat := by
  rcases h with hpath | hperiod | ⟨htable, -⟩ | ⟨htable, hfit⟩
  · exact absurd hpath hdriven.1
  · exact absurd hperiod hdriven.2.1
  · refine Nat.div_le_div_right (Nat.mul_le_mul_left _ ?_)
    rw [level_to_duty_no_table d htable, level_to_duty_no_table d htable]
    exact clamp_percent_mono hle
  · obtain ⟨x, hx, hduty⟩ := level_to_duty_nearest d htable level
    obtain ⟨y, hy, hduty'⟩ := level_to_duty_nearest d htable level'
    rw [hduty, hduty']
    -- the same percentage is that of the same entry
    rcases Nat.eq_or_lt_of_le (nearest_label_mono hx hy (clamp_percent_mono hle)) with heq | hlt
    · obtain rfl := (first_of_nearest hx).eq (first_of_nearest hy) heq
      exact Nat.le_refl _
    · exact hfit.ordered x y (first_of_nearest hx) (first_of_nearest hy) hlt

/-- With a table, exact high times in the order of the levels are those of every entry that can be
    found: each is found by its own percentage. -/
theorem tableFits_of_levels {d : PwmBlData}
    (hexact : ∀ level, (d.duty_ns level).toNat =
      d.period_ns.toNat * (d.backlight_level_to_duty level).toNat / d.full.toNat)
    (hmono : ∀ {level level'}, level ≤ level' → d.duty_ns level ≤ d.duty_ns level') :
    TableFits d := by
  constructor
  · intro x hx
    have hfit := (duty_ns_exact_iff d _).mp (hexact (d.backlight_duty_to_percent x))
    rw [level_to_duty_first d hx] at hfit
    exact hfit
  · intro x y hx hy hlt
    have hle : d.backlight_duty_to_percent x ≤ d.backlight_duty_to_percent y := Nat.le_of_lt hlt
    have hhigh := UInt32.le_iff_toNat_le.mp (hmono hle)
    rw [hexact, hexact, level_to_duty_first d hx, level_to_duty_first d hy] at hhigh
    exact hhigh

/-- The tables, scales and periods whose high times are right. -/
theorem levelsMapped_iff (d : PwmBlData) : LevelsMapped d ↔ MappingFits d := by
  constructor
  · intro h
    by_cases hpath : d.pwmbl_path = none
    · exact .inl hpath
    by_cases hperiod : d.period_ns = 0
    · exact .inr (.inl hperiod)
    -- a PWM that answers is given everything
    have hgiven := fun level => (given_iff d ⟨true, true, true⟩ level _).mpr
      ⟨⟨hpath, hperiod, rfl⟩, rfl⟩
    by_cases htable : d.levels = []
    · -- the greatest duty is 100
      have hfit := (duty_ns_exact_iff d 100).mp (h.exact (hgiven 100))
      rw [level_to_duty_no_table d htable] at hfit
      exact .inr (.inr (.inl ⟨htable, hfit⟩))
    · exact .inr (.inr (.inr ⟨htable, tableFits_of_levels (fun level => h.exact (hgiven level))
        fun hle => h.monotone hle (hgiven _) (hgiven _)⟩))
  · intro h
    have hexact := fun {a} (hdriven : d.Driven a) level =>
      (duty_ns_exact_iff d level).mpr (product_of_fits h hdriven level)
    constructor
    · intro a a' level level' pwm pwm' hle hpwm hpwm'
      obtain ⟨hdriven, rfl⟩ := (given_iff d a level pwm).mp hpwm
      obtain ⟨-, rfl⟩ := (given_iff d a' level' pwm').mp hpwm'
      show (d.duty_ns level).toNat ≤ (d.duty_ns level').toNat
      rw [hexact hdriven level, hexact hdriven level']
      exact high_mono_of_fits h hdriven hle
    · intro a level pwm hpwm
      obtain ⟨hdriven, rfl⟩ := (given_iff d a level pwm).mp hpwm
      show (d.duty_ns level).toNat ≤ d.period_ns.toNat
      rw [hexact hdriven level]
      refine Nat.div_le_of_le_mul ?_
      rw [Nat.mul_comm]
      exact Nat.mul_le_mul_right _ (level_to_duty_le d level)
    · intro a level pwm hpwm
      obtain ⟨hdriven, rfl⟩ := (given_iff d a level pwm).mp hpwm
      exact hexact hdriven level
    · intro a a' level d' pwm hsuccess hopened
      have hpwm : (d.backlight_apply_level a level).2.1 = some pwm := by rw [hsuccess]
      obtain ⟨hdriven, rfl⟩ := (given_iff d a level pwm).mp hpwm
      obtain ⟨hd', hle, hduty⟩ := reported_of_success d hsuccess
      have hread : d'.backlight_read.toUInt32 = d'.duty_cycle := by
        rw [← UInt32.toNat_inj]
        show d'.duty_cycle.toNat % 256 = d'.duty_cycle.toNat
        have : d'.duty_cycle.toNat ≤ 100 := hle
        omega
      rw [PwmBlData.backlight_write, hread, given_iff]
      generalize d'.duty_cycle = reported at *
      rw [hd']
      refine ⟨⟨hdriven.1, hdriven.2.1, hopened⟩, ?_⟩
      show PwmInfo.mk d.period_ns (d.duty_ns reported) d.polarity = _
      rw [hduty]

/-! ### The probe -/

/-- The search for the scale passes no greater entry. -/
theorem le_scaleFrom {levels : List UInt32} {i : Nat} {found : Nat × UInt32} {x : UInt32}
    (h : x ∈ levels ∨ x ≤ found.2) : x ≤ (scaleFrom levels i found).2 := by
  induction levels generalizing i found with
  | nil => exact h.resolve_left (List.not_mem_nil)
  | cons y rest ih =>
    rw [List.mem_cons] at h
    unfold scaleFrom
    by_cases hgt : y > found.2
    · rw [if_pos hgt]
      refine ih ?_
      rcases h with (rfl | hmem) | hle
      · exact .inr (UInt32.le_refl _)
      · exact .inl hmem
      · exact .inr (UInt32.le_trans hle (UInt32.le_of_lt hgt))
    · rw [if_neg hgt]
      refine ih ?_
      rcases h with (rfl | hmem) | hle
      · exact .inr (UInt32.not_lt.mp hgt)
      · exact .inl hmem
      · exact .inr hle

/-- The probe takes the greatest entry for the scale, so that no entry is cut. -/
theorem clamp_device {np : Node} {period_ns dft_brightness x : UInt32}
    (h : x ∈ (np.device period_ns dft_brightness).levels) :
    (np.device period_ns dft_brightness).clamp x = x := by
  refine if_neg (UInt32.not_lt.mpr ?_)
  by_cases hpwm : np.pwmdev = none
  · have hnil : (np.device period_ns dft_brightness).levels = [] := if_pos hpwm
    rw [hnil] at h
    contradiction
  · have hlevels : (np.device period_ns dft_brightness).levels = np.levels := if_neg hpwm
    have hle := @le_scaleFrom np.levels 0 (1, 0) x (.inl (hlevels ▸ h))
    show x ≤ if np.scale = 0 then 100 else np.scale
    unfold Node.scale
    dsimp only
    rw [if_neg hpwm]
    generalize (scaleFrom np.levels 0 (1, 0)).2 = scale at *
    by_cases hzero : scale = 0
    · rw [if_pos hzero]
      have hx : x.toNat ≤ scale.toNat := hle
      rw [hzero] at hx
      exact Nat.le_trans hx (by decide)
    · rw [if_neg hzero, if_neg hzero]
      exact hle

/-- A node with a table up to 1000 and a frequency of 200 Hz. -/
def exampleNode : Node :=
  ⟨false, some "/dev/pwm0", [0, 1000], true, none, some 200, none, false⟩

/-- Its PWM is on for 705032 of 5000000 ns at 100 percent. -/
theorem levelsMapped_fails : ∃ d, backlight_probe exampleNode ⟨true, true, true⟩ =
      some (d, some ⟨5000000, 705032, false⟩) ∧ d.backlight_read = 100 ∧ ¬ LevelsMapped d := by
  refine ⟨_, rfl, rfl, fun h => ?_⟩
  have hexact := @LevelsMapped.exact _ h ⟨true, true, true⟩ 100 _ rfl
  exact absurd hexact (by decide)

end Hcrtos.Native.Backlight
