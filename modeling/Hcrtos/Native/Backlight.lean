/-!
# The backlight

`backlight.c`: a brightness in percent goes through the table of the device tree to a duty, and
with the scale of the table to the high time of a PWM. The driver keeps the percentage that the
duty stands for and reports it.
-/

namespace Hcrtos.Native.Backlight

/-- `struct pwm_bl_data`, and what the GPIOs were last told. `levels` is empty for a NULL pointer,
    and without a table the scale is 100, or 0 when there is no PWM. -/
structure PwmBlData where
  pwmbl_path : Option String
  levels : List UInt32
  scale : UInt32
  period_ns : UInt32
  polarity : Bool
  duty_cycle : UInt32
  gpio_status : Bool
  no_table : levels = [] → scale = 0 ∨ scale = 100

/-- `struct pwm_info_s`, as it is given to the PWM. -/
structure PwmInfo where
  period_ns : UInt32
  duty_ns : UInt32
  polarity : Bool

/-- What the PWM answers: whether it can be opened, and whether the two requests succeed. -/
structure Answer where
  opened : Bool
  set : Bool
  start : Bool

def backlight_clamp_percent (level : UInt32) : UInt32 := if level > 100 then 100 else level

/-- The loop of `backlight_level_to_duty` over the entries from `i` on. -/
def search (percent : UInt32 → UInt32) (level : UInt32) : List UInt32 → Nat → Nat → UInt32 → Nat
  | [], _, best, _ => best
  | x :: rest, i, best, best_delta =>
    let delta := if percent x > level then percent x - level else level - percent x
    if delta < best_delta then search percent level rest (i + 1) i delta
    else search percent level rest (i + 1) best best_delta

section

variable (d : PwmBlData)

/-- `pbldev->scale ? pbldev->scale : 100`. -/
def PwmBlData.full : UInt32 := if d.scale = 0 then 100 else d.scale

/-- `if (duty > scale) duty = scale;`. -/
def PwmBlData.clamp (duty : UInt32) : UInt32 := if duty > d.full then d.full else duty

def PwmBlData.backlight_duty_to_percent (duty : UInt32) : UInt32 :=
  (d.clamp duty * 100 + d.full / 2) / d.full

def PwmBlData.backlight_level_to_duty (level : UInt32) : UInt32 :=
  let level := backlight_clamp_percent level
  if d.levels ≠ [] then
    let best := search d.backlight_duty_to_percent level d.levels 0 0 101
    d.clamp (d.levels.getD best 0)
  else (level * d.full + 50) / 100

/-- The high time, a product of 32 bits. -/
def PwmBlData.duty_ns (level : UInt32) : UInt32 :=
  d.period_ns * d.backlight_level_to_duty level / d.full

/-- `backlight_set_pwm_duty`: what the PWM is given, and whether all went well. -/
def PwmBlData.backlight_set_pwm_duty (a : Answer) (level : UInt32) : Option PwmInfo × Bool :=
  if d.pwmbl_path = none ∨ d.period_ns = 0 ∨ a.opened = false then (none, false)
  else
    -- the start is only asked for when the setting was accepted
    (some ⟨d.period_ns, d.duty_ns level, d.polarity⟩, a.set && a.start)

/-- `backlight_apply_level`: the device, what the PWM is given, and whether it returns 0. -/
def PwmBlData.backlight_apply_level (a : Answer) (level : UInt32) :
    PwmBlData × Option PwmInfo × Bool :=
  let level := backlight_clamp_percent level
  if level = 0 then
    let pwm := if d.pwmbl_path.isSome then (d.backlight_set_pwm_duty a 0).1 else none
    ({ d with duty_cycle := 0, gpio_status := false }, pwm, true)
  else if d.pwmbl_path.isSome then
    match d.backlight_set_pwm_duty a level with
    | (pwm, true) =>
      ({ d with duty_cycle := d.backlight_duty_to_percent (d.backlight_level_to_duty level) },
        pwm, true)
    | (pwm, false) => ({ d with duty_cycle := 100, gpio_status := true }, pwm, false)
  else ({ d with duty_cycle := 100, gpio_status := true }, none, true)

/-- `backlight_write` of one byte. -/
def PwmBlData.backlight_write (a : Answer) (level : UInt8) : PwmBlData × Option PwmInfo × Bool :=
  d.backlight_apply_level a level.toUInt32

/-- `backlight_read`: the byte that is reported. -/
def PwmBlData.backlight_read : UInt8 := d.duty_cycle.toUInt8

end

/-! ### Probe -/

/-- The properties of the device tree node, and whether there is memory for the table. -/
structure Node where
  gpios : Bool
  pwmdev : Option String
  brightness_levels : List UInt32
  allocated : Bool
  default_brightness_level : Option UInt32
  frequency : Option UInt32
  polarity : Option UInt32
  default_off : Bool

/-- The search for the greatest entry: its index and the scale. -/
def scaleFrom : List UInt32 → Nat → Nat × UInt32 → Nat × UInt32
  | [], _, found => found
  | x :: rest, i, (index, scale) =>
    if x > scale then scaleFrom rest (i + 1) (i, x) else scaleFrom rest (i + 1) (index, scale)

/-- The table that is kept. -/
def Node.levels (np : Node) : List UInt32 := if np.allocated then np.brightness_levels else []

/-- The scale. -/
def Node.scale (np : Node) : UInt32 :=
  let scale := (scaleFrom np.levels 0 (1, 0)).2
  if np.pwmdev = none then 0 else if scale = 0 then 100 else scale

/-- The device before its brightness is set. -/
def Node.device (np : Node) (period_ns dft_brightness : UInt32) : PwmBlData where
  pwmbl_path := np.pwmdev
  levels := if np.pwmdev = none then [] else np.levels
  scale := np.scale
  period_ns := period_ns
  polarity := match np.polarity with | some p => p != 0 | none => false
  duty_cycle := dft_brightness
  gpio_status := false
  no_table h := by
    unfold Node.scale
    by_cases hpwm : np.pwmdev = none
    · exact .inl (if_pos hpwm)
    · rw [if_neg hpwm] at h
      right
      rw [h, if_neg hpwm]
      rfl

/-- The default brightness of a device with a PWM; `none` when it reads an entry that the table
    does not have. -/
def Node.dft_brightness (np : Node) : Option UInt32 :=
  let d := np.device 0 0
  match np.default_brightness_level with
  | some level =>
    if np.levels ≠ [] then
      let index := if level.toNat ≥ np.levels.length then np.levels.length - 1 else level.toNat
      np.levels[index]?.map d.backlight_duty_to_percent
    else some (backlight_clamp_percent level)
  | none =>
    if np.levels ≠ [] then
      np.levels[(scaleFrom np.levels 0 (1, 0)).1]?.map d.backlight_duty_to_percent
    else some 100

/-- The period; `none` for a frequency of zero. -/
def Node.period_ns (np : Node) : Option UInt32 :=
  match np.frequency with
  | some frequency => if frequency = 0 then none else some (1000000000 / frequency)
  | none => some 0

/-- `backlight_probe` of a node: the device that is registered, and what the PWM is given. -/
def backlight_probe (np : Node) (a : Answer) : Option (PwmBlData × Option PwmInfo) :=
  let brightness := if np.pwmdev = none then some (if np.gpios then 1 else 0) else np.dft_brightness
  let period := if np.pwmdev = none then some 0 else np.period_ns
  brightness.bind fun brightness => period.map fun period_ns =>
    let d := np.device period_ns brightness
    if np.default_off then (d, none)
    else
      let (d, pwm, _) := d.backlight_apply_level a brightness
      (d, pwm)

end Hcrtos.Native.Backlight
