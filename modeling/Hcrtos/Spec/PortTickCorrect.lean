import Mathlib.Data.Nat.ModEq
import Hcrtos.Native.PortTick

/-!
# The tick is armed again, and the monotonic clock

The registers of the tick timer are the low words of counts that do not wrap. In these counts the
new compare value is a multiple of the period behind the old one, at least a sixteenth of the
period ahead of the counter, and at most a period and a sixteenth.

The monotonic clock follows the count of ticks as long as both of its reads fall into one second.

## Key results

- `newCompare_spec`: the new compare value in counts that do not wrap
- `xTickNewCompareVal_rearms`: where it is
- `clock_gettime_monotone`: the clock does not go back along a run that meets the condition
- `clock_gettime_fails`: a run in which it does
-/

namespace Hcrtos.Native.PortTick

open Lts

/-! ### The compare value -/

/-- A difference of words is the one of the counts. -/
theorem ofNat_sub_ofNat {a b : Nat} (h : b ≤ a) :
    UInt32.ofNat a - UInt32.ofNat b = UInt32.ofNat (a - b) := by
  have hsum : UInt32.ofNat a = UInt32.ofNat (a - b) + UInt32.ofNat b := by
    rw [← UInt32.ofNat_add, Nat.sub_add_cancel h]
  rw [hsum, UInt32.add_sub_cancel]

/-- The distance to the counter decides about the extra period. -/
theorem toNat_sub_ofNat {a b : Nat} (h : b ≤ a) (hlt : a < b + 2 ^ 32) :
    (UInt32.ofNat a - UInt32.ofNat b).toNat = a - b := by
  rw [ofNat_sub_ofNat h]
  exact UInt32.toNat_ofNat_of_lt' (show a - b < 2 ^ 32 by omega)

/-- The compare value before the extra period. -/
def firstCompare (compare count period : Nat) : Nat :=
  if period < count - compare then count + (period - (count - compare) % period)
  else compare + period

/-- The new compare value. -/
def newCompare (compare count period : Nat) : Nat :=
  let first := firstCompare compare count period
  if first - count < period / 16 then first + period else first

/-- The first value is ahead of the counter, at most by a period. -/
theorem firstCompare_spec {compare count period : Nat} (hpos : 0 < period)
    (hle : compare ≤ count) :
    count ≤ firstCompare compare count period ∧
      firstCompare compare count period ≤ count + period ∧
      firstCompare compare count period ≡ compare [MOD period] := by
  unfold firstCompare
  split
  case isTrue hlate =>
    have hmod := Nat.mod_lt (count - compare) hpos
    refine ⟨by omega, by omega, ?_⟩
    -- the lateness is whole periods and a rest, which the sum completes to a period
    have hdiv := Nat.div_add_mod (count - compare) period
    have hsum : count + (period - (count - compare) % period) =
        compare + period * ((count - compare) / period + 1) := by
      rw [Nat.mul_add, Nat.mul_one]
      omega
    rw [hsum]
    exact Nat.add_modulus_mul_modEq_iff.mpr rfl
  case isFalse hontime => exact ⟨by omega, by omega, Nat.add_modulus_modEq_iff.mpr rfl⟩

/-- The new compare value is at least a sixteenth of the period ahead. -/
theorem newCompare_spec {compare count period : Nat} (hpos : 0 < period)
    (hle : compare ≤ count) :
    newCompare compare count period ≡ compare [MOD period] ∧
      count + period / 16 ≤ newCompare compare count period ∧
      newCompare compare count period ≤ count + period + period / 16 := by
  obtain ⟨hahead, hfar, hphase⟩ := firstCompare_spec hpos hle
  have hsixteenth : period / 16 ≤ period := Nat.div_le_self period 16
  unfold newCompare
  dsimp only
  split
  case isTrue hclose =>
    exact ⟨Nat.add_modulus_modEq_iff.mpr hphase, by omega, by omega⟩
  case isFalse hfree => exact ⟨hphase, by omega, by omega⟩

/-- The words follow the counts. -/
theorem xTickNewCompareVal_eq {compare count : Nat} {xJiffies : UInt32}
    (hpos : 0 < xJiffies.toNat) (hle : compare ≤ count) (hlt : count < compare + 2 ^ 32) :
    xTickNewCompareVal (UInt32.ofNat compare) (UInt32.ofNat count) xJiffies =
      UInt32.ofNat (newCompare compare count xJiffies.toNat) := by
  have hfit := xJiffies.toNat_lt
  have hlate : (UInt32.ofNat count - UInt32.ofNat compare).toNat = count - compare :=
    toNat_sub_ofNat hle hlt
  -- the comparison of the code is one of distances, so it is the same for words and counts
  have hfirst : (if UInt32.ofNat count - UInt32.ofNat compare > xJiffies then
        UInt32.ofNat count + (xJiffies - (UInt32.ofNat count - UInt32.ofNat compare) % xJiffies)
      else UInt32.ofNat compare + xJiffies) =
      UInt32.ofNat (firstCompare compare count xJiffies.toNat) := by
    unfold firstCompare
    by_cases h : xJiffies.toNat < count - compare
    · rw [if_pos (show _ > _ from UInt32.lt_iff_toNat_lt.mpr (by rw [hlate]; exact h)), if_pos h]
      have hrest : xJiffies - (UInt32.ofNat count - UInt32.ofNat compare) % xJiffies =
          UInt32.ofNat (xJiffies.toNat - (count - compare) % xJiffies.toNat) := by
        have hmod := Nat.mod_lt (count - compare) hpos
        rw [← ofNat_sub_ofNat (by omega), UInt32.ofNat_toNat, ← hlate, ← UInt32.toNat_mod,
          UInt32.ofNat_toNat]
      rw [hrest, UInt32.ofNat_add]
    · rw [if_neg (fun hgt => h (by rw [← hlate]; exact UInt32.lt_iff_toNat_lt.mp hgt)), if_neg h,
        UInt32.ofNat_add, UInt32.ofNat_toNat]
  obtain ⟨hahead, hfar, -⟩ := firstCompare_spec hpos hle
  have hdist := toNat_sub_ofNat hahead (by omega)
  unfold xTickNewCompareVal newCompare
  simp only [hfirst]
  have hclose : UInt32.ofNat (firstCompare compare count xJiffies.toNat) - UInt32.ofNat count <
      xJiffies / 16 ↔ firstCompare compare count xJiffies.toNat - count < xJiffies.toNat / 16 := by
    rw [UInt32.lt_iff_toNat_lt, hdist, UInt32.toNat_div]
    rfl
  simp only [hclose]
  split
  · rw [UInt32.ofNat_add, UInt32.ofNat_toNat]
  · rfl

/-- In counts that do not wrap, the new compare value is in phase with the old one, and it is from
    a sixteenth of the period to a period and a sixteenth ahead of the counter. The word itself is
    as far ahead. -/
theorem xTickNewCompareVal_rearms (compare count : Nat) (xJiffies : UInt32) (hpos : 0 < xJiffies)
    (hfit : xJiffies.toNat + xJiffies.toNat / 16 < 2 ^ 32) (hle : compare ≤ count)
    (hlt : count < compare + 2 ^ 32) :
    ∃ next : Nat,
      xTickNewCompareVal (UInt32.ofNat compare) (UInt32.ofNat count) xJiffies =
        UInt32.ofNat next ∧
      next ≡ compare [MOD xJiffies.toNat] ∧
      count + xJiffies.toNat / 16 ≤ next ∧
      next ≤ count + xJiffies.toNat + xJiffies.toNat / 16 ∧
      (UInt32.ofNat next - UInt32.ofNat count).toNat = next - count := by
  have hpos' : 0 < xJiffies.toNat := UInt32.lt_iff_toNat_lt.mp hpos
  obtain ⟨hphase, hahead, hfar⟩ := newCompare_spec hpos' hle
  exact ⟨newCompare compare count xJiffies.toNat, xTickNewCompareVal_eq hpos' hle hlt, hphase,
    hahead, hfar, toNat_sub_ofNat (by omega) (by omega)⟩

/-- An interrupt that comes late by two periods and a half, after the counter has wrapped. -/
theorem xTickNewCompareVal_rearms_late :
    ∃ next : Nat,
      xTickNewCompareVal (UInt32.ofNat (2 ^ 32 - 1000)) (UInt32.ofNat (2 ^ 32 + 3217)) 1687 =
        UInt32.ofNat next ∧
      next ≡ 2 ^ 32 - 1000 [MOD (1687 : UInt32).toNat] ∧
      2 ^ 32 + 3217 + (1687 : UInt32).toNat / 16 ≤ next ∧
      next ≤ 2 ^ 32 + 3217 + (1687 : UInt32).toNat + (1687 : UInt32).toNat / 16 ∧
      (UInt32.ofNat next - UInt32.ofNat (2 ^ 32 + 3217)).toNat = next - (2 ^ 32 + 3217) :=
  xTickNewCompareVal_rearms (2 ^ 32 - 1000) (2 ^ 32 + 3217) 1687 (by decide) (by decide)
    (by decide) (by decide)

/-! ### The monotonic clock -/

section Clock

variable {p : UInt32}

/-- The time that a call returns when no tick comes between its reads. -/
def timeAt (p xTickCount : UInt32) : Timespec := ⟨seconds p xTickCount, nanoseconds p xTickCount⟩

theorem Timespec.notAfter_refl (a : Timespec) : a.NotAfter a := .inr ⟨rfl, UInt32.le_refl _⟩

theorem Timespec.NotAfter.trans {a b c : Timespec} (hab : a.NotAfter b) (hbc : b.NotAfter c) :
    a.NotAfter c := by
  unfold NotAfter at *
  rcases hab with hab | ⟨hab, hab'⟩
  · rcases hbc with hbc | ⟨hbc, -⟩
    · exact .inl (UInt32.lt_trans hab hbc)
    · exact .inl (hbc ▸ hab)
  · rcases hbc with hbc | ⟨hbc, hbc'⟩
    · exact .inl (hab ▸ hbc)
    · exact .inr ⟨hab.trans hbc, UInt32.le_trans hab' hbc'⟩

theorem toNat_seconds (t : UInt32) : (seconds p t).toNat = t.toNat / p.toNat / 1000 := by
  unfold seconds
  rw [UInt32.toNat_div, UInt32.toNat_div]
  rfl

theorem toNat_nanoseconds (t : UInt32) :
    (nanoseconds p t).toNat = t.toNat / p.toNat % 1000 * 1000000 := by
  have hlt := Nat.mod_lt (t.toNat / p.toNat) (show 0 < 1000 by decide)
  unfold nanoseconds
  rw [UInt32.toNat_mul, UInt32.toNat_mod, UInt32.toNat_div]
  exact Nat.mod_eq_of_lt (show _ % 1000 * 1000000 < 2 ^ 32 by omega)

/-- More ticks are a later time. -/
theorem timeAt_mono {t u : UInt32} (h : t.toNat ≤ u.toNat) :
    (timeAt p t).NotAfter (timeAt p u) := by
  have hms : t.toNat / p.toNat ≤ u.toNat / p.toNat := Nat.div_le_div_right h
  unfold Timespec.NotAfter timeAt
  rw [UInt32.lt_iff_toNat_lt, UInt32.le_iff_toNat_le, ← UInt32.toNat_inj, toNat_seconds,
    toNat_seconds, toNat_nanoseconds, toNat_nanoseconds]
  omega

/-- The results are in order, and none is after the present time. -/
structure Inv (p : UInt32) (s : State) : Prop where
  monotone : Monotone s
  passed : ∀ e ∈ s.log, e.NotAfter (timeAt p s.xTickCount)

theorem inv_init (timer : Timer) (xTickCount : UInt32) : Inv p (init timer xTickCount) :=
  ⟨.nil, fun _ he => absurd he List.not_mem_nil⟩

/-- A tick makes it later. -/
theorem inv_interrupt {s : State} (h : Inv p s)
    (hfit : s.timer.int_st = true → s.xTickCount.toNat + 1 < 2 ^ 32) :
    Inv p (vPortTickInterruptHandler p s) := by
  unfold vPortTickInterruptHandler
  split
  case isTrue hint =>
    have hnext : (s.xTickCount + 1).toNat = s.xTickCount.toNat + 1 := by
      rw [UInt32.toNat_add]
      exact Nat.mod_eq_of_lt (hfit hint)
    -- the results so far are not after the time before the tick, and that is not after the new one
    refine ⟨h.monotone, fun e he => ?_⟩
    exact (h.passed e he).trans (timeAt_mono (u := s.xTickCount + 1) (by omega))
  case isFalse => exact h

/-- A call that ends in the second it has read returns the present time. -/
theorem inv_finish {s : State} (h : Inv p s) :
    Inv p { s with tv_sec := none, log := s.log ++ [timeAt p s.xTickCount] } := by
  constructor
  case monotone =>
    refine List.pairwise_append.mpr ⟨h.monotone, List.pairwise_singleton _ _, fun e he f hf => ?_⟩
    rw [List.mem_singleton.mp hf]
    exact h.passed e he
  case passed =>
    intro e he
    rcases List.mem_append.mp he with he | he
    · exact h.passed e he
    · rw [List.mem_singleton.mp he]
      exact Timespec.notAfter_refl _

theorem inv_step {s s' : State} {a : Action} (h : Inv p s) (hsame : SameSecond p s a)
    (hstep : step p s a = some s') : Inv p s' := by
  cases a with
  | count cnt fires =>
    cases hstep
    exact ⟨h.monotone, h.passed⟩
  | interrupt =>
    cases hstep
    exact inv_interrupt h hsame
  | load =>
    obtain ⟨-, hload⟩ := Option.ite_none_right_eq_some.mp hstep
    cases hload
    exact ⟨h.monotone, h.passed⟩
  | finish =>
    obtain ⟨tv_sec, hcall, rfl⟩ := Option.map_eq_some_iff.mp hstep
    -- the seconds read first are those of the present count
    cases hsame tv_sec hcall
    exact inv_finish h

/-- Along every run in which the count does not wrap and each call ends in the second that it has
    read, the results never decrease. -/
theorem clock_gettime_monotone (p : UInt32) (timer : Timer) (xTickCount : UInt32)
    {tr : List Action} (hsame : Meets (step p) (SameSecond p) (init timer xTickCount) tr) :
    Always (step p) Monotone (init timer xTickCount) tr :=
  always_of_meets (step p) (fun _ h => h.monotone) (fun _ _ _ h hs hstep => inv_step h hs hstep)
    (inv_init timer xTickCount) hsame

/-- A call within a second, and one after the tick that ends it. -/
def exampleTicks : List Action :=
  [.load, .finish, .count 1000 true, .interrupt, .load, .finish]

theorem clock_gettime_exampleTicks :
    Meets (step 1) (SameSecond 1) (init ⟨0, 0, false⟩ 999) exampleTicks ∧
    Always (step 1) Monotone (init ⟨0, 0, false⟩ 999) exampleTicks := by
  have hsame : Meets (step 1) (SameSecond 1) (init ⟨0, 0, false⟩ 999) exampleTicks := by
    refine ⟨trivial, fun s₁ h₁ => ?_⟩
    cases h₁
    refine ⟨fun tv_sec hsec => Option.some.inj hsec, fun s₂ h₂ => ?_⟩
    cases h₂
    refine ⟨trivial, fun s₃ h₃ => ?_⟩
    cases h₃
    refine ⟨fun _ => by decide, fun s₄ h₄ => ?_⟩
    cases h₄
    refine ⟨trivial, fun s₅ h₅ => ?_⟩
    cases h₅
    exact ⟨fun tv_sec hsec => Option.some.inj hsec, fun _ _ => trivial⟩
  exact ⟨hsame, clock_gettime_monotone 1 ⟨0, 0, false⟩ 999 hsame⟩

/-- The tick that ends the second comes between the reads of the second call. -/
theorem clock_gettime_fails : ∃ s, run (step 1) (init ⟨0, 0, false⟩ 999)
    [.load, .finish, .load, .count 1000 true, .interrupt, .finish] = some s ∧ ¬ Monotone s :=
  ⟨_, rfl, by decide⟩

end Clock

end Hcrtos.Native.PortTick
