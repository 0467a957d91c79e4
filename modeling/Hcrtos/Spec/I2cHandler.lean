import Hcrtos.Spec.I2cIsolation
import Hcrtos.Spec.PortInterruptMasks

/-!
# The interrupt handler of the I2C master

A message that fails initialises the controller again, and that installs the handler without
removing the one that is installed. So the handler is registered once as long as no message fails
after the registration of the probe, or `malloc` has no block for the second one.

## Key results

- `registrations_master_init`: what an initialisation adds
- `always_single_iff`: the runs in which the handler is registered at most once
- `single_fails`: a run in which it is registered twice
-/

namespace Hcrtos.Native.I2c

open Lts PortInterrupt

/-! ### Initialisation -/

/-- An initialisation registers the handler once more, if it gets to it. -/
theorem registrations_master_init (c : Controller) (s : State) (mallocOk : Bool) :
    ∃ s', hc_i2c_master_init c s mallocOk = some s' ∧ s'.tasks = s.tasks ∧
      s'.probed = s.probed ∧
      s'.registrations c =
        s.registrations c + if 0 < c.baudrate ∧ mallocOk = true then 1 else 0 := by
  by_cases hbps : c.baudrate ≤ 0
  · have hzero : ¬ 0 < c.baudrate := UInt32.not_lt.mpr hbps
    exact ⟨s, if_pos hbps, rfl, rfl, by simp [hzero]⟩
  · have hpos : 0 < c.baudrate := UInt32.not_le.mp hbps
    have hassert : c.hc_i2c_interrupt ≠ 0 ∧ c.irq < IRQ_NUM + EIRQ_NUM :=
      ⟨c.handler_ne, c.irq_lt⟩
    cases mallocOk with
    | false =>
      -- without a block the handler is not registered, and nothing says so
      refine ⟨s, ?_, rfl, rfl, by simp⟩
      simp [hc_i2c_master_init, hbps, xPortInterruptInstallISR, hassert]
    | true =>
      let head := s.port.isr_head c.irq ++ [⟨c.hc_i2c_interrupt, c.priv, 0⟩]
      let port := xPortInterruptEnable c.mbox
        { s.port with isr_head := Function.update s.port.isr_head c.irq head } c.irq
      refine ⟨{ s with port := port }, ?_, rfl, rfl, ?_⟩
      · simp [hc_i2c_master_init, hbps, xPortInterruptInstallISR, hassert, port, head]
      · simp [State.registrations, hpos, port, head]

/-! ### Steps -/

/-- The handler is registered at most once, and not before the probe. -/
structure HandlerInv (c : Controller) (s : State) : Prop where
  single : Single c s
  unprobed : s.probed = false → s.registrations c = 0 ∧ ∀ t, s.tasks t = .idle

theorem handlerInv_init (c : Controller) : HandlerInv c init where
  single := Nat.zero_le 1
  unprobed _ := ⟨rfl, fun _ => rfl⟩

/-- Only a step at a failed message touches the interrupt layer. -/
theorem port_taskStep {c : Controller} {s s' : State} {t : Nat} {ok : Bool}
    (hfailed : ∀ ret, s.tasks t ≠ .failed ret) (h : taskStep c s t ok = some s') :
    s'.port = s.port ∧ s'.probed = s.probed := by
  obtain ⟨ret, -, hpc, -⟩ | ⟨pc, lock, rfl⟩ := taskStep_cases h
  · exact absurd hpc (hfailed ret)
  · unfold State.carryOut
    split <;> exact ⟨rfl, rfl⟩

/-- A task that was never called does nothing. -/
theorem taskStep_idle {c : Controller} {s : State} {t : Nat} {ok : Bool}
    (h : s.tasks t = .idle) : taskStep c s t ok = none := by
  simp [taskStep, h]

/-- The end of a failed message registers the handler once more. -/
theorem taskStep_failed (c : Controller) {s : State} {t : Nat} (ok : Bool) {ret : Int}
    (h : s.tasks t = .failed ret) :
    ∃ s', taskStep c s t ok = some s' ∧ s'.probed = s.probed ∧
      s'.registrations c =
        s.registrations c + if 0 < c.baudrate ∧ ok = true then 1 else 0 := by
  obtain ⟨s₁, hs₁, -, hprobed, hreg⟩ := registrations_master_init c s ok
  exact ⟨s₁.goto t (.unlock ret), by simp [taskStep, h, hs₁], hprobed, hreg⟩

theorem handlerInv_step (c : Controller) (s : State) (a : Action) (s' : State)
    (hinv : HandlerInv c s) (hnot : NotYetRegistered c s a) (hstep : step c s a = some s') :
    HandlerInv c s' := by
  have hsingle := hinv.single
  cases a with
  | probe mallocOk =>
    simp only [step] at hstep
    split at hstep
    next hprobed =>
      obtain ⟨hzero, hidle⟩ := hinv.unprobed hprobed
      obtain ⟨s₁, hs₁, htasks, -, hreg⟩ := registrations_master_init c s mallocOk
      rw [hs₁] at hstep
      cases hstep
      constructor
      · show s₁.registrations c ≤ 1
        rw [hreg, hzero]
        split <;> omega
      · intro hfalse
        -- still not probed: the baud rate is 0
        have hbps : ¬ 0 < c.baudrate := by simpa using hfalse
        refine ⟨?_, fun t => ?_⟩
        · show s₁.registrations c = 0
          simp [hreg, hzero, hbps]
        · show s₁.tasks t = .idle
          rw [htasks, hidle t]
    · cases hstep
  | transfer t msgs =>
    simp only [step] at hstep
    split at hstep
    next henabled =>
      cases hstep
      refine ⟨hsingle, fun hfalse => ?_⟩
      have hprobed : s.probed = false := hfalse
      rw [henabled.1] at hprobed
      cases hprobed
    · cases hstep
  | task t ok =>
    have hstep : taskStep c s t ok = some s' := hstep
    -- nobody calls before the probe
    have hprobed : s.probed = true := by
      by_contra hfalse
      have hidle := (hinv.unprobed (by simpa using hfalse)).2 t
      rw [taskStep_idle hidle] at hstep
      cases hstep
    by_cases hfailed : ∀ ret, s.tasks t ≠ .failed ret
    · obtain ⟨hport, hprobed'⟩ := port_taskStep hfailed hstep
      refine ⟨?_, fun hfalse => ?_⟩
      · unfold Single State.registrations at hsingle ⊢
        rwa [hport]
      · rw [hprobed', hprobed] at hfalse
        cases hfalse
    · simp only [not_forall, not_not] at hfailed
      obtain ⟨ret, hret⟩ := hfailed
      obtain ⟨s₁, hs₁, hprobed', hreg⟩ := taskStep_failed c ok hret
      rw [hs₁] at hstep
      cases hstep
      refine ⟨?_, fun hfalse => ?_⟩
      · unfold Single at hsingle ⊢
        rw [hreg]
        split
        next hok =>
          obtain ⟨hpos, rfl⟩ := hok
          -- the handler that is added is the first
          have hzero : s.registrations c = 0 := hnot ret hret hpos
          omega
        · omega
      · rw [hprobed', hprobed] at hfalse
        cases hfalse

/-- A failed message that finds the handler registered, and gets a block, doubles it. -/
theorem not_single_of_failed (c : Controller) (s : State) (a : Action) (_ : HandlerInv c s)
    (hnot : ¬ NotYetRegistered c s a) : ∃ s', step c s a = some s' ∧ ¬ Single c s' := by
  cases a with
  | task t ok =>
    cases ok with
    | false => exact absurd trivial hnot
    | true =>
      simp only [NotYetRegistered, not_forall] at hnot
      obtain ⟨ret, hret, hpos, hne⟩ := hnot
      obtain ⟨s', hs', -, hreg⟩ := taskStep_failed c true hret
      refine ⟨s', hs', fun hsingle => ?_⟩
      unfold Single at hsingle
      rw [hreg, if_pos ⟨hpos, rfl⟩] at hsingle
      omega
  | _ => exact absurd trivial hnot

/-- The handler is registered at most once exactly as long as every failed message finds it not
    registered, or gets no block for it. -/
theorem always_single_iff (c : Controller) (tr : List Action) :
    Always (step c) (Single c) init tr ↔ Meets (step c) (NotYetRegistered c) init tr :=
  always_iff_meets (step c) (fun _ hinv => hinv.single) (handlerInv_step c)
    (not_single_of_failed c) (handlerInv_init c)

/-- The first message of a transfer finds the controller busy for too long. -/
def hostBusyRun : List Action :=
  [.probe true, .transfer 1 [⟨0x48, 0, [5, 6]⟩], .task 1 true, .task 1 true, .task 1 false,
    .task 1 true]

theorem single_fails : ¬ ∀ (c : Controller) (tr : List Action),
    Always (step c) (Single c) init tr := by
  intro h
  have hsingle := h exampleController hostBusyRun
  revert hsingle
  decide

end Hcrtos.Native.I2c
