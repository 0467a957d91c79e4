import Hcrtos.Native.Pwm

/-!
# Channels of the PWM

A stop touches its own channel only. A start writes the divider of all channels, and on the HC15XX
it also enables channel 0, so it leaves the others alone exactly if the divider is the one in
force, or has nothing to scale, and channel 0 needs no enabling.

## Key results

- `findDiv_first`, `divider_eq`: the divider that a period needs
- `output_start`: the other channels after a start
- `output_eq_iff`: when the output of a channel is the same in two settings
- `independent_iff`, `meets_independent_iff`: the calls that leave the other channels alone
- `independent_fails`: a start that does not
-/

namespace Hcrtos.Native.Pwm

open Lts

/-! ### The divider -/

/-- The loop stops at the first divider that is large enough. -/
theorem findDiv_first {period fuel div n : Nat} (hn : div ≤ n) (hword : n < 4294967296)
    (hfuel : n < div + fuel) (hstop : period < n * 37 * 65535 % 2 ^ 32)
    (hsmall : ∀ d, div ≤ d → d < n → d * 37 * 65535 % 2 ^ 32 ≤ period) :
    findDiv period fuel div = some n := by
  induction fuel generalizing div with
  | zero => omega
  | succ fuel ih =>
    unfold findDiv
    rcases Nat.eq_or_lt_of_le hn with rfl | hlt
    · rw [if_pos hstop]
    · have hgo := hsmall div (Nat.le_refl div) hlt
      have hnext : (div + 1) % 2 ^ 32 = div + 1 := by omega
      rw [if_neg (by omega), hnext]
      exact ih hlt (by omega) fun d hle hd => hsmall d (by omega) hd

/-- As long as the product does not wrap around, that is the first divider that makes the period
    fit. -/
theorem findDiv_eq {period q fuel div : Nat} (hlo : q * 2424795 ≤ period)
    (hhi : period < (q + 1) * 2424795) (hwrap : (q + 1) * 2424795 < 4294967296)
    (hdiv : div ≤ q + 1) (hfuel : q + 1 < div + fuel) :
    findDiv period fuel div = some (q + 1) := by
  have hprod : ∀ d, d ≤ q + 1 → d * 37 * 65535 % 2 ^ 32 = d * 2424795 := fun d hd => by omega
  refine findDiv_first hdiv (by omega) hfuel ?_ fun d _ hd => ?_
  · rw [hprod _ (Nat.le_refl _)]
    exact hhi
  · rw [hprod d (by omega)]
    exact Nat.le_trans (Nat.mul_le_mul_right _ (Nat.le_of_lt_succ hd)) hlo

/-- Periods below 1771 * 2424795 ns do not make it wrap around. -/
theorem divider_eq (info : PwmInfo) (h : info.period_ns.toNat < 4294311945) :
    divider info = some (info.period_ns.toNat / 2424795 + 1) := by
  have hlo := Nat.div_mul_le_self info.period_ns.toNat 2424795
  have hhi := Nat.lt_div_mul_add (a := info.period_ns.toNat) (b := 2424795) (by decide)
  rw [← Nat.succ_mul] at hhi
  unfold divider
  generalize info.period_ns.toNat = period at *
  generalize period / 2424795 = q at *
  have hq : q ≤ 1770 := by omega
  exact findDiv_eq hlo hhi (by omega) (by omega) (by omega)

/-! ### Output -/

theorem mul_eq_iff {a b c : Nat} : a * b * 37 = a * c * 37 ↔ b = c ∨ a = 0 := by
  rw [Nat.mul_left_inj (by decide)]
  cases Nat.eq_zero_or_pos a with
  | inl ha => simp [ha]
  | inr ha => rw [Nat.mul_right_inj (by omega), or_iff_left (by omega)]

/-- A channel puts out the same in two settings if its bits are the same, and so is the divider
    unless it scales nothing. -/
theorem output_eq_iff {reg reg' : PwmReg} {id : Fin 6} {en : Bool}
    (hc : reg'.channel id = { reg.channel id with channel_en := en }) :
    reg'.output id = reg.output id ↔
      en = (reg.channel id).channel_en ∧
        (reg'.pwm_clksel = reg.pwm_clksel ∨ (reg.channel id).Unset) := by
  -- the widths are products of the divider, so everything is stated in natural numbers
  obtain ⟨l, hl⟩ : ∃ l, l = (reg.channel id).low_level_counter.toNat := ⟨_, rfl⟩
  obtain ⟨h, hh⟩ : ∃ h, h = (reg.channel id).high_level_counter.toNat := ⟨_, rfl⟩
  have hunset : (reg.channel id).Unset ↔ l = 0 ∧ h = 0 := by
    rw [hl, hh, Channel.Unset, BitVec.toNat_eq, BitVec.toNat_eq]
    rfl
  have hsel : reg'.pwm_clksel.toNat = reg.pwm_clksel.toNat ↔ reg'.pwm_clksel = reg.pwm_clksel :=
    BitVec.toNat_inj
  simp only [PwmReg.output, hc, Output.mk.injEq, ← hl, ← hh, true_and, mul_eq_iff, hsel, hunset]
  constructor
  · intro ⟨hen, hperiod, hhigh⟩
    refine ⟨hen, ?_⟩
    -- another divider with the same output: it multiplies zeros only
    by_cases heq : reg'.pwm_clksel = reg.pwm_clksel
    · exact .inl heq
    · simp only [heq, false_or] at hperiod
      exact .inr ⟨by omega, by omega⟩
  · intro ⟨hen, hdiv⟩
    refine ⟨hen, ?_⟩
    cases hdiv with
    | inl heq => exact ⟨.inl heq, .inl heq⟩
    | inr hzero => exact ⟨.inr (by omega), .inr hzero.2⟩

theorem channel_modify_of_ne (reg : PwmReg) {id other : Fin 6} (f : Channel → Channel)
    (h : other ≠ id) : (reg.modify id f).channel other = reg.channel other :=
  Function.update_of_ne h _ _

@[simp] theorem modify_pwm_clksel (reg : PwmReg) (id : Fin 6) (f : Channel → Channel) :
    (reg.modify id f).pwm_clksel = reg.pwm_clksel := rfl

/-- A start sets the divider, and of the other channels at most the enable bit of channel 0. -/
theorem output_start {soc : Soc} {reg reg' : PwmReg} {id : Fin 6} {info : PwmInfo} {div : Nat}
    (hperiod : 37 ≤ info.period_ns) (hdiv : divider info = some div)
    (hstart : soc.hc_pwm_start reg id info = some reg') :
    reg'.pwm_clksel = .ofNat 14 div ∧ ∀ other, other ≠ id →
      reg'.channel other = { reg.channel other with
        channel_en := (reg.channel other).channel_en || decide (soc = .HC15XX ∧ other = 0) } := by
  have hnot : ¬ info.period_ns < 37 := UInt32.not_lt.mpr hperiod
  cases soc with
  | HC16XX =>
    simp only [Soc.hc_pwm_start, HC16XX.hc_pwm_start, if_neg hnot, hdiv, Option.map_some,
      Option.some.injEq] at hstart
    subst hstart
    refine ⟨rfl, fun other hother => ?_⟩
    simp [PwmReg.modify, hother]
  | HC15XX =>
    simp only [Soc.hc_pwm_start, HC15XX.hc_pwm_start, if_neg hnot, hdiv, Option.map_some,
      Option.some.injEq] at hstart
    subst hstart
    refine ⟨rfl, fun other hother => ?_⟩
    -- the HC15XX enables channel 0 whichever channel is started
    by_cases hzero : other = 0
    · subst hzero
      simp [PwmReg.modify, hother, hother.symm]
    · simp [PwmReg.modify, hother, hzero]

/-- A start of a long enough period has a result when its loop ends. -/
theorem start_of_divider (soc : Soc) (reg : PwmReg) (id : Fin 6) {info : PwmInfo} {div : Nat}
    (hperiod : 37 ≤ info.period_ns) (hdiv : divider info = some div) :
    ∃ reg', soc.hc_pwm_start reg id info = some reg' := by
  have hnot : ¬ info.period_ns < 37 := UInt32.not_lt.mpr hperiod
  cases soc with
  | HC15XX => exact ⟨_, by simp only [Soc.hc_pwm_start, HC15XX.hc_pwm_start, if_neg hnot, hdiv]; rfl⟩
  | HC16XX => exact ⟨_, by simp only [Soc.hc_pwm_start, HC16XX.hc_pwm_start, if_neg hnot, hdiv]; rfl⟩

/-- A start that is not carried out changes nothing. -/
theorem start_cases {soc : Soc} {reg reg' : PwmReg} {id : Fin 6} {info : PwmInfo}
    (h : soc.hc_pwm_start reg id info = some reg') :
    reg' = reg ∨ 37 ≤ info.period_ns ∧ ∃ div, divider info = some div := by
  by_cases hlt : info.period_ns < 37
  · left
    cases soc <;> simpa [Soc.hc_pwm_start, HC15XX.hc_pwm_start, HC16XX.hc_pwm_start, hlt] using h.symm
  · refine .inr ⟨UInt32.not_lt.mp hlt, ?_⟩
    cases hdiv : divider info with
    | none =>
      cases soc <;>
        simp [Soc.hc_pwm_start, HC15XX.hc_pwm_start, HC16XX.hc_pwm_start, hlt, hdiv] at h
    | some div => exact ⟨div, rfl⟩

/-! ### Calls -/

/-- The other channels of a start, one by one and all together. -/
theorem forall_other_iff {soc : Soc} {reg : PwmReg} {id : Fin 6} {same : Prop} :
    (∀ other, other ≠ id →
        ((reg.channel other).channel_en || decide (soc = .HC15XX ∧ other = 0)) =
            (reg.channel other).channel_en ∧ (same ∨ (reg.channel other).Unset)) ↔
      (same ∨ ∀ other, other ≠ id → (reg.channel other).Unset) ∧
        (soc = .HC15XX → id = 0 ∨ (reg.channel 0).channel_en = true) := by
  constructor
  · intro h
    constructor
    · by_cases hsame : same
      · exact .inl hsame
      · exact .inr fun other hother => (h other hother).2.resolve_left hsame
    · intro hsoc
      -- channel 0 is among the others unless it is the one started
      by_cases hid : id = 0
      · exact .inl hid
      · have hen := (h 0 (Ne.symm hid)).1
        simp only [hsoc, and_self, decide_true, Bool.or_true] at hen
        exact .inr hen.symm
  · intro ⟨hdiv, hen⟩ other hother
    constructor
    -- only channel 0 can have been enabled, and it was enabled before
    · by_cases hzero : soc = .HC15XX ∧ other = 0
      · obtain ⟨hsoc, rfl⟩ := hzero
        have := (hen hsoc).resolve_left (Ne.symm hother)
        simp [this]
      · simp [hzero]
    · exact hdiv.imp_right fun h => h other hother

/-- A call leaves the other channels alone exactly if it meets the condition. -/
theorem independent_iff (soc : Soc) (reg : PwmReg) (a : Action) :
    Independent soc reg a ↔ Undisturbing soc reg a := by
  cases a with
  | stop id =>
    refine iff_of_true (fun reg' hstep other hother => ?_) trivial
    have hother : other ≠ id := hother
    cases hstep
    simp [PwmReg.output, hc_pwm_stop, channel_modify_of_ne reg _ hother]
  | start id info =>
    -- the output of the other channels after a start that is carried out
    have houtput : ∀ reg' div, 37 ≤ info.period_ns → divider info = some div →
        soc.hc_pwm_start reg id info = some reg' →
        ((∀ other, other ≠ id → reg'.output other = reg.output other) ↔
          (BitVec.ofNat 14 div = reg.pwm_clksel ∨
              ∀ other, other ≠ id → (reg.channel other).Unset) ∧
            (soc = .HC15XX → id = 0 ∨ (reg.channel 0).channel_en = true)) := by
      intro reg' div hperiod hdiv hstart
      obtain ⟨hsel, hchannel⟩ := output_start hperiod hdiv hstart
      -- channel by channel, the condition is the one of `output_eq_iff`
      rw [← forall_other_iff, ← hsel]
      exact forall₂_congr fun other hother => output_eq_iff (hchannel other hother)
    constructor
    · intro hind hperiod div hdiv
      obtain ⟨reg', hreg'⟩ := start_of_divider soc reg id hperiod hdiv
      exact (houtput reg' div hperiod hdiv hreg').mp (hind reg' hreg')
    · intro hund reg' hreg'
      cases start_cases hreg' with
      | inl heq => exact fun other _ => by rw [heq]
      | inr hdone =>
        obtain ⟨hperiod, div, hdiv⟩ := hdone
        exact (houtput reg' div hperiod hdiv hreg').mpr (hund hperiod div hdiv)

/-- Along a run from any setting, every call leaves the other channels alone exactly if every
    call meets the condition. -/
theorem meets_independent_iff (soc : Soc) (reg : PwmReg) (tr : List Action) :
    Meets (step soc) (Independent soc) reg tr ↔ Meets (step soc) (Undisturbing soc) reg tr :=
  meets_congr (step soc) (independent_iff soc)

/-- The setting of `hc_pwm_config`. -/
def configured : PwmReg := ⟨10, fun _ => ⟨false, false, 0, 0⟩⟩

/-- Channel 1 runs with a period of 1 ms when channel 2 is started with one of 20 ms. -/
theorem independent_fails : ¬ ∀ (soc : Soc) (reg : PwmReg) (tr : List Action),
    Meets (step soc) (Independent soc) reg tr := by
  intro h
  have hind := (h .HC16XX configured [.start 1 ⟨1000000, 500000, false⟩,
    .start 2 ⟨20000000, 1500000, false⟩]).2 _ rfl
  have := hind.1 _ rfl 1 (by decide)
  revert this
  decide

end Hcrtos.Native.Pwm
