import Hcrtos.Native.PortTimer

/-!
# Setting the clock takes effect

The two conversions together lose at most two microseconds. The words written are those of the
time asked for, and nothing changes them unless the interrupt is enabled while an overflow is
pending: its handler then counts the high word and resets the counter.

## Key results

- `tick2usec_usec2tick`: the conversions together
- `takesEffect_written`: the words written are in time
- `not_takesEffect_counted`: the words that the handler leaves are not
- `takesEffect_iff`: the calls that take effect
- `takesEffect_fails`: a call that does not
-/

namespace Hcrtos.Native.PortTimeSet

open Lts PortTimer

/-- The time asked for is not negative, and the product of `usec2tick` fits. -/
structure Fits (sec usec : Int) : Prop where
  nonneg : 0 ≤ sec * 1000000 + usec
  lt : (sec * 1000000 + usec) * 27 < 2 ^ 64

theorem toUsec_eq {sec usec : Int} (h : Fits sec usec) :
    (toUsec sec usec : Int) = sec * 1000000 + usec := by
  have hlt := h.lt
  unfold toUsec
  rw [Int.emod_eq_of_lt h.nonneg (by omega), Int.toNat_of_nonneg h.nonneg]

section Written

variable {sec usec : Int}

/-- The ticks of the time asked for. -/
theorem tmp_tick_spec (h : Fits sec usec) :
    tmp_tick sec usec * 32 ≤ toUsec sec usec * 27 ∧
      toUsec sec usec * 27 < tmp_tick sec usec * 32 + 32 ∧ toUsec sec usec * 27 < 2 ^ 64 := by
  have hfit : toUsec sec usec * 27 < 2 ^ 64 := by
    have hlt := h.lt
    rw [← toUsec_eq h] at hlt
    omega
  -- a tick is 32 / 27 microseconds
  have htick : tmp_tick sec usec = toUsec sec usec * 27 / 32 := by
    unfold tmp_tick usec2tick
    rw [Nat.mod_eq_of_lt hfit]
  rw [htick]
  omega

/-- The two words are the ticks. -/
theorem words_eq (h : Fits sec usec) :
    (tickhi sec usec).toNat * 2 ^ 32 + (ticklo sec usec).toNat = tmp_tick sec usec := by
  obtain ⟨hle, -, hfit⟩ := tmp_tick_spec h
  have hhi : (tickhi sec usec).toNat = tmp_tick sec usec / 2 ^ 32 :=
    UInt32.toNat_ofNat_of_lt' (show tmp_tick sec usec / 2 ^ 32 < 2 ^ 32 by omega)
  have hlo : (ticklo sec usec).toNat = tmp_tick sec usec % 2 ^ 32 :=
    UInt32.toNat_ofNat_of_lt' (Nat.mod_lt _ (by decide))
  rw [hhi, hlo, Nat.mul_comm]
  exact Nat.div_add_mod _ _

/-- The clock shows the time of its two words. -/
theorem time_eq (s : State) :
    s.time = tick2usec (s.gTickHi.toNat * 2 ^ 32 + s.cnt.toNat) := by
  show tick2usec _ / 1000000 * 1000000 + tick2usec _ % 1000000 = _
  rw [Nat.mul_comm]
  exact Nat.div_add_mod _ _

/-- The conversions together lose at most two microseconds. -/
theorem tick2usec_usec2tick (h : Fits sec usec) :
    tick2usec (tmp_tick sec usec) ≤ toUsec sec usec ∧
      toUsec sec usec ≤ tick2usec (tmp_tick sec usec) + 2 := by
  obtain ⟨hle, hgt, hfit⟩ := tmp_tick_spec h
  unfold tick2usec
  rw [Nat.mod_eq_of_lt (by omega)]
  omega

theorem takesEffect_written (h : Fits sec usec) {s : State} (hcnt : s.cnt = ticklo sec usec)
    (hhi : s.gTickHi = tickhi sec usec) : TakesEffect sec usec s := by
  have htime : s.time = tick2usec (tmp_tick sec usec) := by
    rw [time_eq, hcnt, hhi, words_eq h]
  obtain ⟨hle, hge⟩ := tick2usec_usec2tick h
  have husec := toUsec_eq h
  refine ⟨hcnt, ?_, ?_⟩
  · rw [htime]
    omega
  · rw [htime]
    omega

/-- After the handler, the counter is not at the value set, or the time is more than an hour
    ahead, or back at zero. -/
theorem not_takesEffect_counted (h : Fits sec usec) {s : State} (hcnt : s.cnt = 0)
    (hhi : s.gTickHi = tickhi sec usec + 1) : ¬ TakesEffect sec usec s := by
  rintro ⟨hlo, hle, hge⟩
  have hlo' : (ticklo sec usec).toNat = 0 := by rw [← hlo, hcnt]; rfl
  have hwords := words_eq h
  obtain ⟨htick, hgt, hfit⟩ := tmp_tick_spec h
  have husec := toUsec_eq h
  have hnext : (tickhi sec usec + 1).toNat = (tickhi sec usec).toNat + 1 := by
    rw [UInt32.toNat_add]
    exact Nat.mod_eq_of_lt (show (tickhi sec usec).toNat + 1 < 2 ^ 32 by omega)
  have htime : s.time = tick2usec (((tickhi sec usec).toNat + 1) * 2 ^ 32) := by
    rw [time_eq, hcnt, hhi, hnext, UInt32.toNat_zero, Nat.add_zero]
  rw [htime] at hle hge
  unfold tick2usec at hle hge
  -- the product wraps when the high word was the last one that fits
  rcases Nat.lt_or_ge ((tickhi sec usec).toNat + 1) (2 ^ 27) with hlast | hlast
  · rw [Nat.mod_eq_of_lt (by omega)] at hle
    omega
  · have heq : (tickhi sec usec).toNat + 1 = 2 ^ 27 := by omega
    have hzero : ((tickhi sec usec).toNat + 1) * 2 ^ 32 * 32 % 2 ^ 64 = 0 := by omega
    rw [hzero] at hge
    omega

end Written

/-! ### Runs -/

/-- What is written so far is there, and the interrupt is disabled in between. -/
structure Inv (sec usec : Int) (s : State) : Prop where
  int_en : s.pc = .setHi ∨ s.pc = .setCnt ∨ s.pc = .enableTimer ∨ s.pc = .enableInt →
    s.int_en = false
  gTickHi : s.pc = .setCnt ∨ s.pc = .enableTimer ∨ s.pc = .enableInt ∨ s.pc = .clearOverflow ∨
    s.pc = .done → s.gTickHi = tickhi sec usec
  cnt : s.pc = .enableTimer ∨ s.pc = .enableInt ∨ s.pc = .clearOverflow ∨ s.pc = .done →
    s.cnt = ticklo sec usec
  overflow : s.pc = .done → s.overflow = false

/-- The handler has counted on the words written. -/
structure Counted (sec usec : Int) (s : State) : Prop where
  pc : s.pc = .clearOverflow ∨ s.pc = .done
  overflow : s.overflow = false
  gTickHi : s.gTickHi = tickhi sec usec + 1
  cnt : s.cnt = 0

section Runs

variable {sec usec : Int}

theorem inv_start (cnt : UInt32) (overflow en int_en : Bool) (gTickHi : UInt32) :
    Inv sec usec (start cnt overflow en int_en gTickHi) := by
  constructor <;> simp [start]

/-- Each store of the call. -/
theorem inv_set {s s' : State} (h : Inv sec usec s)
    (hstep : vPortPlatformTimeSet sec usec s = some s') : Inv sec usec s' := by
  unfold vPortPlatformTimeSet at hstep
  cases hpc : s.pc with
  | done => simp [hpc] at hstep
  | disableTimer | disableInt | setHi | setCnt | enableTimer | enableInt | clearOverflow =>
    rw [hpc] at hstep
    cases hstep
    have hint := h.int_en
    have hhi := h.gTickHi
    have hcnt := h.cnt
    constructor <;> simp_all

/-- A handler that finds no overflow does nothing. -/
theorem handler_of_clear {s : State} (h : s.overflow = false) :
    PortSysClkTimerIntHandler s = s := by
  unfold PortSysClkTimerIntHandler
  rw [h]
  rfl

/-- A handler that finds an overflow, before the call has written. -/
theorem inv_handler {s : State} (hpc : s.pc = .disableTimer ∨ s.pc = .disableInt) :
    Inv sec usec (PortSysClkTimerIntHandler s) := by
  have hkeep : (PortSysClkTimerIntHandler s).pc = s.pc := by
    unfold PortSysClkTimerIntHandler
    split <;> rfl
  rcases hpc with hpc | hpc <;> constructor <;> simp [hkeep, hpc]

/-- While the interrupt is enabled, the words are not written yet or they all are. -/
theorem Inv.pc_of_int_en {s : State} (h : Inv sec usec s) (hint : s.int_en = true) :
    (s.pc = .disableTimer ∨ s.pc = .disableInt) ∨ s.pc = .clearOverflow ∨ s.pc = .done := by
  have hoff := h.int_en
  rw [hint] at hoff
  cases hpc : s.pc <;> simp_all

theorem inv_step {s s' : State} {a : Action} (h : Inv sec usec s) (hclears : ClearsFirst s a)
    (hstep : step sec usec s a = some s') : Inv sec usec s' := by
  cases a with
  | set => exact inv_set h hstep
  | interrupt =>
    obtain ⟨hint, hhandler⟩ := Option.ite_none_right_eq_some.mp hstep
    cases hhandler
    -- before the words are written an overflow is lost with the old ones, in the end there is none
    rcases h.pc_of_int_en hint with hpc | hpc | hpc
    · exact inv_handler hpc
    · rw [handler_of_clear (hclears hpc)]
      exact h
    · rw [handler_of_clear (h.overflow hpc)]
      exact h

theorem counted_step {s s' : State} {a : Action} (h : Inv sec usec s) (hnot : ¬ ClearsFirst s a)
    (hstep : step sec usec s a = some s') : Counted sec usec s' := by
  cases a with
  | set => exact absurd trivial hnot
  | interrupt =>
    obtain ⟨hint, hhandler⟩ := Option.ite_none_right_eq_some.mp hstep
    cases hhandler
    -- the pending overflow belongs to the old counter, and is counted on the new one
    obtain ⟨hpc, hoverflow⟩ := Classical.not_imp.mp hnot
    have hpending : s.overflow = true := by simpa using hoverflow
    unfold PortSysClkTimerIntHandler
    rw [if_pos hpending]
    exact ⟨.inl hpc, rfl, congrArg (· + 1) (h.gTickHi (by simp [hpc])), rfl⟩

theorem Counted.step {s s' : State} {a : Action} (h : Counted sec usec s)
    (hstep : step sec usec s a = some s') : Counted sec usec s' := by
  cases a with
  | set =>
    rcases h.pc with hpc | hpc <;> simp only [PortTimeSet.step, vPortPlatformTimeSet, hpc] at hstep
    · cases hstep
      exact ⟨.inr rfl, rfl, h.gTickHi, h.cnt⟩
    · cases hstep
  | interrupt =>
    obtain ⟨-, hhandler⟩ := Option.ite_none_right_eq_some.mp hstep
    cases hhandler
    rw [handler_of_clear h.overflow]
    exact h

/-- A call takes effect exactly when no interrupt finds an overflow pending between the two stores
    that enable the interrupt and clear the overflow. -/
theorem takesEffect_iff (sec usec : Int) (hfits : Fits sec usec) (cnt : UInt32)
    (overflow en int_en : Bool) (gTickHi : UInt32) {tr : List Action} {s : State}
    (hrun : run (PortTimeSet.step sec usec) (start cnt overflow en int_en gTickHi) tr = some s)
    (hdone : s.pc = .done) :
    TakesEffect sec usec s ↔
      Meets (PortTimeSet.step sec usec) ClearsFirst (start cnt overflow en int_en gTickHi) tr :=
  run_iff_meets (PortTimeSet.step sec usec) (fun _ _ _ h hc hs => inv_step h hc hs)
    (fun _ _ _ h hc hs => counted_step h hc hs) (fun _ _ _ h hs => h.step hs)
    (inv_start cnt overflow en int_en gTickHi) hrun
    (fun h => takesEffect_written hfits (h.cnt (by simp [hdone])) (h.gTickHi (by simp [hdone])))
    (fun h => not_takesEffect_counted hfits h.cnt h.gTickHi)

end Runs

/-- The stores of a call up to the one that clears the overflow. -/
def stores : List Action := .replicate 6 .set

/-- The overflow is handled before the interrupt is disabled. -/
theorem takesEffect_handled :
    TakesEffect 1000 5 ⟨ticklo 1000 5, false, true, true, tickhi 1000 5, .done⟩ := by
  have hrun : run (PortTimeSet.step 1000 5) (start 0 true true true 0)
      (.interrupt :: stores ++ [.set]) =
      some ⟨ticklo 1000 5, false, true, true, tickhi 1000 5, .done⟩ := rfl
  exact (takesEffect_iff 1000 5 ⟨by decide, by decide⟩ 0 true true true 0 hrun rfl).mpr (by decide)

/-- The overflow is still pending when the interrupt is enabled. The clock shows 1:24:50 instead
    of its first second. -/
theorem takesEffect_fails : ∃ s, run (PortTimeSet.step 1 0) (start 0 true true true 0)
    (stores ++ [.interrupt, .set]) = some s ∧ s.pc = .done ∧ s.time = 5090331610 ∧
      ¬ TakesEffect 1 0 s :=
  ⟨_, rfl, rfl, by decide, by decide⟩

end Hcrtos.Native.PortTimeSet
