import Hcrtos.Native.PortTimer

/-!
# The clock does not go back

As long as no reading begins while an overflow is pending, and the handler does not count between
the two loads of a reading, both words of a reading are of one revolution of the counter. The
readings of a revolution then follow the counter, and those of the next one are above them.

## Key results

- `usec_eq`: both functions return the time of their two words
- `inv_countHi`, `inv_finish`: the invariant through the steps that matter
- `monotone_of_settled`: readings never decrease along a run that meets the condition
- `monotone_fails`: a run in which they do
-/

namespace Hcrtos.Native.PortTimer

open Lts

/-! ### Results -/

/-- The time of a tick without wrap-around. -/
def time (tick : Nat) : Nat := tick * 32 / 27

theorem time_le {a b : Nat} (h : a ≤ b) : time a ≤ time b :=
  Nat.div_le_div_right (Nat.mul_le_mul_right 32 h)

/-- Both functions return the time of their two words, as long as the product fits. -/
theorem usec_eq (get : Get) {gTickHi : UInt32} (ticklo : UInt32) (h : gTickHi.toNat < 2 ^ 27) :
    get.usec gTickHi ticklo = time (gTickHi.toNat * 2 ^ 32 + ticklo.toNat) := by
  have hlo := ticklo.toNat_lt
  have husec : tick2usec (gTickHi.toNat * 2 ^ 32 + ticklo.toNat) =
      time (gTickHi.toNat * 2 ^ 32 + ticklo.toNat) := by
    unfold tick2usec time
    -- below 2 ^ 27 the shifted high word times 32 stays below 2 ^ 64
    rw [Nat.mod_eq_of_lt (by omega)]
  cases get with
  | platformTime =>
    show tick2usec _ / 1000000 * 1000000 + tick2usec _ % 1000000 = _
    rw [husec]
    omega
  | hrTick => exact husec

/-! ### The invariant -/

/-- The largest low word that a reading of this revolution can have loaded. -/
def State.low (s : State) : Nat := if s.overflow then 2 ^ 32 - 1 else s.cnt.toNat

/-- The tick that no complete reading is beyond. Once the handler has counted, the readings are
    of the revolution before. -/
def State.ceiling (s : State) : Nat :=
  s.gTickHi.toNat * 2 ^ 32 + if s.handler = .clear then 0 else s.low

structure Inv (s : State) : Prop where
  monotone : Monotone s
  pending : s.handler ≠ .idle → s.overflow = true
  latest_le : s.latest ≤ time s.ceiling
  counted : s.handler = .clear → s.readings = []
  floor_le : ∀ r ∈ s.readings, r.floor ≤ time (s.gTickHi.toNat * 2 ^ 32 + r.ticklo.toNat)
  ticklo_le : ∀ r ∈ s.readings, r.ticklo.toNat ≤ s.low

theorem inv_init (gTickHi cnt : UInt32) : Inv (init gTickHi cnt) where
  monotone _ h := nomatch h
  pending h := absurd rfl h
  latest_le := Nat.zero_le _
  counted _ := rfl
  floor_le _ h := nomatch h
  ticklo_le _ h := nomatch h

theorem low_of_overflow {s : State} (h : s.overflow = true) : s.low = 2 ^ 32 - 1 := by
  simp [State.low, h]

/-! ### Steps -/

/-- Counting does not lower what the readings are bounded by. -/
theorem low_le_tick (s : State) :
    s.low ≤ State.low { s with cnt := s.cnt + 1, overflow := s.overflow || s.cnt + 1 = 0 } := by
  cases hflag : s.overflow with
  | true => simp [State.low, hflag]
  | false =>
    -- the step that wraps raises the flag, and the flag stands for the full low word
    by_cases hwrap : s.cnt + 1 = 0
    · have := s.cnt.toNat_lt
      simp [State.low, hflag, hwrap]
      omega
    · have hnat : (s.cnt + 1).toNat = s.cnt.toNat + 1 := by
        have hlt := s.cnt.toNat_lt
        have hne : (s.cnt + 1).toNat ≠ 0 := fun h => hwrap (UInt32.toNat_inj.mp h)
        rw [UInt32.toNat_add] at hne ⊢
        simp at hne ⊢
        omega
      simp [State.low, hflag, hwrap, hnat]

theorem inv_tick {s : State} (hinv : Inv s) :
    Inv { s with cnt := s.cnt + 1, overflow := s.overflow || s.cnt + 1 = 0 } where
  monotone := hinv.monotone
  pending h := by simp [hinv.pending h]
  latest_le := by
    refine Nat.le_trans hinv.latest_le (time_le ?_)
    have hlow := low_le_tick s
    unfold State.ceiling
    dsimp only
    split <;> omega
  counted := hinv.counted
  floor_le := hinv.floor_le
  ticklo_le r hr := Nat.le_trans (hinv.ticklo_le r hr) (low_le_tick s)

/-- Before the handler has counted, an overflow that is pending bounds the readings. -/
theorem ceiling_of_overflow {s : State} (hflag : s.overflow = true) (hpc : s.handler ≠ .clear) :
    s.ceiling = s.gTickHi.toNat * 2 ^ 32 + (2 ^ 32 - 1) := by
  simp [State.ceiling, hpc, low_of_overflow hflag]

/-- The first steps of the handler, up to the one that counts. -/
theorem Inv.setHandler {s : State} (hinv : Inv s) (hflag : s.overflow = true)
    (hpc : s.handler ≠ .clear) {pc : Handler} (hpc' : pc ≠ .clear) (cnt : UInt32) :
    Inv { s with cnt := cnt, handler := pc } := by
  let s' : State := { s with cnt := cnt, handler := pc }
  have hlow := low_of_overflow hflag
  have hlow' : s'.low = 2 ^ 32 - 1 := low_of_overflow hflag
  have hceiling' := ceiling_of_overflow (s := s') hflag hpc'
  constructor
  case monotone => exact hinv.monotone
  case pending => exact fun _ => hflag
  case latest_le =>
    have hlatest := hinv.latest_le
    rw [ceiling_of_overflow hflag hpc] at hlatest
    rw [hceiling']
    exact hlatest
  case counted => exact fun h => absurd h hpc'
  case floor_le => exact hinv.floor_le
  case ticklo_le =>
    intro r hr
    have hle := hinv.ticklo_le r hr
    rw [hlow] at hle
    rw [hlow']
    exact hle

/-- The handler counts when no reading is under way. -/
theorem inv_countHi {s : State} (hinv : Inv s) (hpc : s.handler = .countHi)
    (hnone : s.readings = []) (hlt : s.gTickHi.toNat + 1 < 2 ^ 32) :
    Inv { s with gTickHi := s.gTickHi + 1, handler := .clear } := by
  have hflag := hinv.pending (by simp [hpc])
  have hnat : (s.gTickHi + 1).toNat = s.gTickHi.toNat + 1 := by
    rw [UInt32.toNat_add]
    simp
    omega
  constructor
  case monotone => exact hinv.monotone
  case pending => exact fun _ => hflag
  case latest_le =>
    -- the last tick of the revolution before is below the first one of this
    have hlatest := hinv.latest_le
    rw [ceiling_of_overflow hflag (by simp [hpc])] at hlatest
    refine Nat.le_trans hlatest (time_le ?_)
    show _ ≤ (s.gTickHi + 1).toNat * 2 ^ 32 + 0
    rw [hnat]
    omega
  case counted => exact fun _ => hnone
  case floor_le => simp [hnone]
  case ticklo_le => simp [hnone]

/-- The flag is cleared when the readings are of the revolution before. -/
theorem inv_clear {s : State} (hinv : Inv s) (hpc : s.handler = .clear) :
    Inv { s with overflow := false, handler := .idle } := by
  have hnone := hinv.counted hpc
  constructor
  case monotone => exact hinv.monotone
  case pending => exact fun h => absurd rfl h
  case latest_le =>
    refine Nat.le_trans hinv.latest_le (time_le ?_)
    simp [State.ceiling, hpc]
  case counted => exact fun h => nomatch h
  case floor_le => simp [hnone]
  case ticklo_le => simp [hnone]

theorem inv_handler {s : State} (hinv : Inv s)
    (hcount : s.handler = .countHi → s.readings = [] ∧ s.gTickHi.toNat + 1 < 2 ^ 32) :
    Inv (PortSysClkTimerIntHandler s) := by
  cases hpc : s.handler with
  | idle =>
    simp only [PortSysClkTimerIntHandler, hpc]
    split
    -- the handler starts on a pending overflow only
    next hflag => exact hinv.setHandler hflag (by simp [hpc]) (by decide) s.cnt
    · exact hinv
  | resetCnt =>
    have hflag := hinv.pending (by simp [hpc])
    simp only [PortSysClkTimerIntHandler, hpc]
    exact hinv.setHandler hflag (by simp [hpc]) (by decide) 0
  | countHi =>
    obtain ⟨hnone, hlt⟩ := hcount hpc
    simp only [PortSysClkTimerIntHandler, hpc]
    exact inv_countHi hinv hpc hnone hlt
  | clear =>
    simp only [PortSysClkTimerIntHandler, hpc]
    exact inv_clear hinv hpc

/-- A reading that begins is bounded by the counter. -/
theorem inv_load {s : State} (hinv : Inv s) (get : Get) (hflag : s.overflow = false) :
    Inv { s with readings := s.readings ++ [⟨get, s.cnt, s.latest⟩] } := by
  -- with the flag clear the handler is not under way, so the high word is the one of this low word
  have hidle : s.handler = .idle := by
    by_contra hne
    rw [hinv.pending hne] at hflag
    cases hflag
  have hlow : s.low = s.cnt.toNat := by simp [State.low, hflag]
  have hlatest := hinv.latest_le
  simp only [State.ceiling, hidle, hlow] at hlatest
  refine ⟨hinv.monotone, hinv.pending, hinv.latest_le, fun h => ?_, fun r hr => ?_,
    fun r hr => ?_⟩
  · rw [hidle] at h
    cases h
  · cases List.mem_append.mp hr with
    | inl hr => exact hinv.floor_le r hr
    | inr hr =>
      rw [List.mem_singleton.mp hr]
      simpa using hlatest
  · cases List.mem_append.mp hr with
    | inl hr => exact hinv.ticklo_le r hr
    | inr hr =>
      rw [List.mem_singleton.mp hr]
      exact Nat.le_of_eq hlow.symm

/-- A reading returns at least what was returned before it began, and not more than the counter
    allows. -/
theorem inv_finish {s : State} (hinv : Inv s) {i : Nat} {r : Reading}
    (hr : s.readings[i]? = some r) (hhi : s.gTickHi.toNat < 2 ^ 27) :
    Inv { s with
      readings := s.readings.eraseIdx i
      log := s.log ++ [(r.floor, r.get.usec s.gTickHi r.ticklo)] } := by
  have hmem : r ∈ s.readings := List.mem_of_getElem? hr
  have hsub : ∀ r' ∈ s.readings.eraseIdx i, r' ∈ s.readings := fun r' => List.mem_of_mem_eraseIdx
  have husec := usec_eq r.get r.ticklo hhi
  -- the handler does not count while a reading is under way
  have hclear : s.handler ≠ .clear := by
    intro hclear
    rw [hinv.counted hclear] at hmem
    cases hmem
  refine ⟨fun e he => ?_, hinv.pending, ?_, fun h => absurd h hclear,
    fun r' hr' => hinv.floor_le r' (hsub r' hr'), fun r' hr' => hinv.ticklo_le r' (hsub r' hr')⟩
  · cases List.mem_append.mp he with
    | inl he => exact hinv.monotone e he
    | inr he =>
      rw [List.mem_singleton.mp he, husec]
      exact hinv.floor_le r hmem
  · have hnew : r.get.usec s.gTickHi r.ticklo ≤ time s.ceiling := by
      rw [husec]
      apply time_le
      -- the reading loaded its low word in the revolution that the high word counts
      have hlow := hinv.ticklo_le r hmem
      simp only [State.ceiling, if_neg hclear]
      omega
    have hlatest := hinv.latest_le
    unfold State.latest at hlatest ⊢
    simp only [List.map_append, List.map_cons, List.map_nil, List.foldl_append, List.foldl_cons,
      List.foldl_nil]
    exact Nat.max_le.mpr ⟨hlatest, hnew⟩

theorem inv_step (s : State) (a : Action) (s' : State) (hinv : Inv s) (hsettled : Settled s a)
    (hstep : step s a = some s') : Inv s' := by
  cases a with
  | tick =>
    cases hstep
    exact inv_tick hinv
  | handler =>
    cases hstep
    exact inv_handler hinv hsettled
  | load get =>
    cases hstep
    exact inv_load hinv get hsettled
  | finish i =>
    simp only [step] at hstep
    split at hstep
    · cases hstep
    next r hr =>
      cases hstep
      exact inv_finish hinv hr hsettled

/-! ### Runs -/

/-- From any setting of the clock, readings never decrease along a run in which no reading begins
    while an overflow is pending and the handler does not count between the loads of one. -/
theorem monotone_of_settled (gTickHi cnt : UInt32) (tr : List Action)
    (hsettled : Meets step Settled (init gTickHi cnt) tr) :
    Always step Monotone (init gTickHi cnt) tr :=
  always_of_meets step (fun _ hinv => hinv.monotone) inv_step (inv_init gTickHi cnt) hsettled

/-- A reading before and one after a wrap-around. -/
def wrapRun : List Action :=
  [.load .platformTime, .finish 0, .tick, .handler, .tick, .handler, .handler, .handler,
    .tick, .load .hrTick, .finish 0]

theorem monotone_wrapRun :
    Meets step Settled (init 7 0xffffffff) wrapRun ∧
      Always step Monotone (init 7 0xffffffff) wrapRun :=
  have hsettled : Meets step Settled (init 7 0xffffffff) wrapRun := by decide
  ⟨hsettled, monotone_of_settled 7 0xffffffff wrapRun hsettled⟩

/-- The counter wraps around, and is read again before the handler has run. -/
theorem monotone_fails : ¬ ∀ (gTickHi cnt : UInt32) (tr : List Action),
    Always step Monotone (init gTickHi cnt) tr := by
  intro h
  have hmono := h 7 0xffffffff [.load .hrTick, .finish 0, .tick,
    .load .hrTick, .finish 0]
  revert hmono
  decide

end Hcrtos.Native.PortTimer
