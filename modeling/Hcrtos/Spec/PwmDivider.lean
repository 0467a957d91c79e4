import Mathlib.Data.Nat.Find
import Mathlib.Tactic.IntervalCases
import Mathlib.Tactic.Ring
import Hcrtos.Spec.PwmIndependence

/-!
# The divider of the PWM

`hc_pwm_start` looks for the first divider with which the period fits the counters, and multiplies
it out in 32 bits. Up to 1771 times 2424795 ns that is the quotient. Above, the product wraps
around before it is large enough, and the search comes to 7085, then to dividers that the clock
select field does not hold, and for the last period to none.

## Key results

- `divider_eq_none_iff`: for the last period only the search does not end
- `exists_divider_lt_iff`: the periods with a divider that the clock select field holds
- `split_divided`: the two counters give the period but for less than two steps
- `periodKept_iff`: the periods that are kept
- `periodKept_fails`: a period whose search does not end, and one whose divider does not fit
-/

namespace Hcrtos.Native.Pwm

/-! ### The search -/

/-- Where it stops, the product is large enough. -/
theorem stop_of_findDiv {period fuel div n : Nat} (h : findDiv period fuel div = some n) :
    period < n * 37 * 65535 % 2 ^ 32 := by
  induction fuel generalizing div with
  | zero => exact nomatch h
  | succ fuel ih =>
    unfold findDiv at h
    split at h
    · next hstop =>
      obtain rfl : div = n := Option.some.inj h
      exact hstop
    · exact ih h

/-- The search does not end for the last period only: the factor is odd, so that some product is
    the last word. -/
theorem divider_eq_none_iff (info : PwmInfo) :
    divider info = none ↔ info.period_ns.toNat = 4294967295 := by
  have hlt := info.period_ns.toNat_lt
  constructor
  · intro h
    by_contra hne
    have hex : ∃ d, 1 ≤ d ∧ info.period_ns.toNat < d * 37 * 65535 % 2 ^ 32 :=
      ⟨2902006701, by decide, by omega⟩
    have hword : Nat.find hex ≤ 2902006701 := Nat.find_min' hex ⟨by decide, by omega⟩
    obtain ⟨hpos, hstop⟩ := Nat.find_spec hex
    have hsome : divider info = some (Nat.find hex) :=
      findDiv_first hpos (by omega) (by omega) hstop fun d hle hd => by
        have := Nat.find_min hex hd
        omega
    rw [h] at hsome
    contradiction
  · intro h
    cases hdiv : divider info with
    | none => rfl
    | some n =>
      have := stop_of_findDiv hdiv
      omega

/-- The products of the dividers that the clock select field holds: below the 7085th none comes
    near the end of the words but the 1771st, and none comes nearer than the 7085th. -/
theorem product_le {d : Nat} (h : d < 16384) : d * 37 * 65535 % 2 ^ 32 ≤ 4294770687 := by
  obtain ⟨k, hk⟩ : ∃ k, k = d * 37 * 65535 / 2 ^ 32 := ⟨_, rfl⟩
  have hwraps : k < 10 := by omega
  interval_cases k <;> omega

theorem product_le_first {d : Nat} (h : d < 7085) : d * 37 * 65535 % 2 ^ 32 ≤ 4294311945 := by
  obtain ⟨k, hk⟩ : ∃ k, k = d * 37 * 65535 / 2 ^ 32 := ⟨_, rfl⟩
  have hwraps : k < 4 := by omega
  interval_cases k <;> omega

/-- The divider of the periods that 1771 is too small for. -/
theorem divider_eq_of_le (info : PwmInfo) (hlo : 4294311945 ≤ info.period_ns.toNat)
    (hhi : info.period_ns.toNat < 4294770687) : divider info = some 7085 :=
  findDiv_first (by decide) (by decide) (by omega) (by omega) fun d _ hd =>
    (product_le_first hd).trans hlo

/-- The periods with a divider that the clock select field holds. -/
theorem exists_divider_lt_iff (info : PwmInfo) :
    (∃ div, divider info = some div ∧ div < 2 ^ 14) ↔ info.period_ns.toNat < 4294770687 := by
  constructor
  · intro ⟨div, hdiv, hlt⟩
    exact (stop_of_findDiv hdiv).trans_le (product_le hlt)
  · intro hlt
    by_cases hwrap : info.period_ns.toNat < 4294311945
    · exact ⟨_, divider_eq info hwrap, by omega⟩
    · exact ⟨_, divider_eq_of_le info (by omega) hlt, by decide⟩

/-! ### The counters -/

/-- What the registers have to hold for a period: numbers of their widths, and a period that is
    the one that was asked for but for less than two steps of the clock. -/
structure Divided (period div h_val l_val : Nat) : Prop where
  clksel : div < 2 ^ 14
  high : h_val < 2 ^ 16
  low : l_val < 2 ^ 16
  le : (h_val + l_val) * 37 * div ≤ period
  lt : period < (h_val + l_val) * 37 * div + 2 * 37 * div

/-- The two quotients of a sum. -/
theorem split_divided (a b : Nat) {div : Nat} (hpos : 0 < div) :
    (a / div / 37 + b / div / 37) * 37 * div ≤ a + b ∧
      a + b < (a / div / 37 + b / div / 37) * 37 * div + 2 * 37 * div := by
  rw [Nat.div_div_eq_div_mul, Nat.div_div_eq_div_mul]
  have hstep : 0 < div * 37 := by omega
  have ha := Nat.div_add_mod a (div * 37)
  have hb := Nat.div_add_mod b (div * 37)
  have halt := Nat.mod_lt a hstep
  have hblt := Nat.mod_lt b hstep
  have hsum : (a / (div * 37) + b / (div * 37)) * 37 * div =
      div * 37 * (a / (div * 37)) + div * 37 * (b / (div * 37)) := by ring
  omega

theorem duty_le (info : PwmInfo) : info.duty ≤ info.period_ns.toNat := by
  rw [PwmInfo.duty]
  split
  · exact le_refl _
  · next h => exact UInt32.le_iff_toNat_le.mp (UInt32.not_lt.mp h)

/-- A count of the clock within a period that is small enough for the divider. -/
theorem count_lt {period div a : Nat} (hstop : period < div * 37 * 65535 % 2 ^ 32)
    (ha : a ≤ period) : a / div / 37 < 2 ^ 16 := by
  have hprod : a < div * 37 * 65535 := by
    have := Nat.mod_le (div * 37 * 65535) (2 ^ 32)
    omega
  rw [Nat.div_div_eq_div_mul]
  have := Nat.div_lt_of_lt_mul hprod
  omega

/-- With a divider that the clock select field holds, the counters are right. -/
theorem divided_of_divider {info : PwmInfo} {div : Nat} (h : divider info = some div)
    (hsel : div < 2 ^ 14) :
    Divided info.period_ns.toNat div (info.h_val div) (info.l_val div) := by
  have hstop := stop_of_findDiv h
  have hpos : 0 < div := by
    refine Nat.pos_of_ne_zero fun hzero => ?_
    rw [hzero] at hstop
    exact absurd hstop (Nat.not_lt_zero _)
  have hsum : info.duty + (info.period_ns.toNat - info.duty) = info.period_ns.toNat :=
    Nat.add_sub_cancel' (duty_le info)
  obtain ⟨hle, hlt⟩ := split_divided info.duty (info.period_ns.toNat - info.duty) hpos
  rw [hsum] at hle hlt
  exact ⟨hsel, count_lt hstop (duty_le info), count_lt hstop (Nat.sub_le _ _), hle, hlt⟩

/-! ### A start -/

/-- The start ends, and the registers hold what its divider and counters give. -/
def PeriodKept (soc : Soc) (reg : PwmReg) (id : Fin 6) (info : PwmInfo) : Prop :=
  ∃ reg' div, soc.hc_pwm_start reg id info = some reg' ∧ divider info = some div ∧
    Divided info.period_ns.toNat div (info.h_val div) (info.l_val div) ∧
    Divided info.period_ns.toNat reg'.pwm_clksel.toNat
      (reg'.channel id).high_level_counter.toNat (reg'.channel id).low_level_counter.toNat

/-- The registers after a start. -/
theorem registers_start {soc : Soc} {reg reg' : PwmReg} {id : Fin 6} {info : PwmInfo} {div : Nat}
    (hperiod : 37 ≤ info.period_ns) (hdiv : divider info = some div)
    (hstart : soc.hc_pwm_start reg id info = some reg') :
    reg'.pwm_clksel = .ofNat 14 div ∧ reg'.channel id =
      ⟨true, info.polarity, .ofNat 16 (info.l_val div), .ofNat 16 (info.h_val div)⟩ := by
  refine ⟨(output_start hperiod hdiv hstart).1, ?_⟩
  have hnot : ¬ info.period_ns < 37 := UInt32.not_lt.mpr hperiod
  cases soc with
  | HC16XX =>
    simp only [Soc.hc_pwm_start, HC16XX.hc_pwm_start, if_neg hnot, hdiv, Option.map_some,
      Option.some.injEq] at hstart
    subst hstart
    simp [PwmReg.modify]
  | HC15XX =>
    simp only [Soc.hc_pwm_start, HC15XX.hc_pwm_start, if_neg hnot, hdiv, Option.map_some,
      Option.some.injEq] at hstart
    subst hstart
    -- channel 0 is enabled first, which may be the channel itself
    by_cases hzero : id = 0 <;> simp [PwmReg.modify, hzero]

/-- The periods that are kept. -/
theorem periodKept_iff (soc : Soc) (reg : PwmReg) (id : Fin 6) (info : PwmInfo)
    (hperiod : 37 ≤ info.period_ns) :
    PeriodKept soc reg id info ↔ info.period_ns.toNat < 4294770687 := by
  rw [← exists_divider_lt_iff]
  constructor
  · rintro ⟨_, div, -, hdiv, hkept, -⟩
    exact ⟨div, hdiv, hkept.clksel⟩
  · intro ⟨div, hdiv, hlt⟩
    obtain ⟨reg', hstart⟩ := start_of_divider soc reg id hperiod hdiv
    obtain ⟨hsel, hchannel⟩ := registers_start hperiod hdiv hstart
    have hkept := divided_of_divider hdiv hlt
    refine ⟨reg', div, hstart, hdiv, hkept, ?_⟩
    -- the numbers fit, so that nothing is lost in the registers
    rw [hsel, hchannel, BitVec.toNat_ofNat, BitVec.toNat_ofNat, BitVec.toNat_ofNat,
      Nat.mod_eq_of_lt hkept.clksel, Nat.mod_eq_of_lt hkept.high, Nat.mod_eq_of_lt hkept.low]
    exact hkept

theorem periodKept_millisecond :
    37 ≤ (1000000 : UInt32) ∧ PeriodKept .HC15XX configured 3 ⟨1000000, 250000, true⟩ :=
  ⟨by decide, (periodKept_iff .HC15XX configured 3 ⟨1000000, 250000, true⟩ (by decide)).mpr
    (by decide)⟩

/-- The search for the divider of the longest period does not end. For one a little shorter the
    divider does not fit its field. -/
theorem periodKept_fails : Soc.HC16XX.hc_pwm_start configured 0 ⟨4294967295, 0, false⟩ = none ∧
    ¬ PeriodKept .HC16XX configured 0 ⟨4294967295, 0, false⟩ ∧
    ¬ PeriodKept .HC16XX configured 0 ⟨4294770687, 0, false⟩ := by
  have hnone : divider ⟨4294967295, 0, false⟩ = none := (divider_eq_none_iff _).mpr rfl
  have hstart : Soc.HC16XX.hc_pwm_start configured 0 ⟨4294967295, 0, false⟩ = none := by
    simp [Soc.hc_pwm_start, HC16XX.hc_pwm_start, hnone]
  refine ⟨hstart, ?_, ?_⟩
  · rintro ⟨reg', -, hsome, -⟩
    exact Option.some_ne_none reg' (hsome.symm.trans hstart)
  · rintro ⟨_, div, -, hdiv, hkept, -⟩
    have hlt := (stop_of_findDiv hdiv).trans_le (product_le hkept.clksel)
    exact absurd hlt (by decide)

end Hcrtos.Native.Pwm
