import Hcrtos.Spec.SndPollTasks

/-!
# Polling a sound device: teardown

A notification is live from its linking to the end of its `snd_wakeup_poll`. Each device has at
most one, and `ntkey` is its key except within a setup, so the close of the device finds it if it
is still pending. One that was signalled is on the work queue, where the teardown does not look:
the device outlives it only if it has run before the device is freed.

## Key results

- `KeysInv`: what `ntkey` says about the live notifications of a device
- `always_workerSafe`: the worker never runs on a freed device in a run whose steps are timely
- `workerSafe_fails`: a run in which it does
-/

namespace Hcrtos.Native.SndPoll

open Lts WorkNotifier

/-- The entry whose `snd_wakeup_poll` is not over. -/
def Worker.runs : Worker → Option Nat
  | .wakeUp e _ | .clearKey e _ => some e
  | _ => none

/-- A notification that runs is in the hands of the worker. -/
theorem Worker.loose_of_runs {worker : Worker} {e : Nat} (h : worker.runs = some e) :
    worker.loose = some e := by
  cases worker with
  | wakeUp e' dev => exact h
  | clearKey e' dev => exact h
  | _ => cases h

/-- The device that an entry is for. -/
def State.arg (s : State) (e : Nat) : Nat := (s.notifier.info e).arg

/-- The notification is pending, queued or running. -/
def State.Live (s : State) (e : Nat) : Prop :=
  e ∈ s.notifier.g_notifier_pending ∨ e ∈ s.notifier.g_hpwork.q ∨ s.worker.runs = some e

/-- What a call that holds the mutex makes of `ntkey`: between its test and the end of the setup
    there is no live notification, and after the setup its result is the key. -/
def Pc.expected (ntkey : Int) : Pc → Option Int
  | .pollSetup _ | .pollLink _ _ => none
  | .pollStore _ ret => some ret
  | _ => some ntkey

/-- The key of the live notification of a device, if there is one. -/
def State.expected (s : State) (dev : Nat) : Option Int :=
  match (s.devs dev).mutex with
  | none => some (s.devs dev).ntkey
  | some t => (s.tasks t).expected (s.devs dev).ntkey

structure KeysInv (s : State) : Prop where
  worker_arg : ∀ e, s.worker.runs = some e → s.worker.dev = some (s.arg e)
  key_pos : ∀ e, s.Live e → 0 < keyInt (s.notifier.key e)
  unique : ∀ e e', s.Live e → s.Live e' → s.arg e = s.arg e' → e = e'
  expected : ∀ e, s.Live e → s.expected (s.arg e) = some (keyInt (s.notifier.key e))
  opened : ∀ e ∈ s.notifier.g_notifier_pending,
    s.phase (s.arg e) = .opened ∨ s.phase (s.arg e) = .closing
  live : ∀ e, s.Live e → s.phase (s.arg e) ≠ .unused ∧ s.phase (s.arg e) ≠ .freed
  torn : ∀ t dev, s.tasks t = .closeUnlock dev →
    ∀ e ∈ s.notifier.g_notifier_pending, s.arg e ≠ dev

theorem not_live_init (e : Nat) : ¬ init.Live e := by
  simp [State.Live, init, WorkNotifier.init, WorkQueue.empty, Worker.runs]

theorem keysInv_init : KeysInv init where
  worker_arg := nofun
  key_pos := fun e he => absurd he (not_live_init e)
  unique := fun e _ he => absurd he (not_live_init e)
  expected := fun e he => absurd he (not_live_init e)
  opened := fun e he => absurd (Or.inl he) (not_live_init e)
  live := fun e he => absurd he (not_live_init e)
  torn := nofun

/-- The device that the worker runs on has not been freed. -/
theorem KeysInv.workerSafe {s : State} (h : KeysInv s) : WorkerSafe s := by
  intro dev hdev
  have hruns : ∃ e, s.worker.runs = some e := by
    cases hw : s.worker with
    | wakeUp e _ => exact ⟨e, rfl⟩
    | clearKey e _ => exact ⟨e, rfl⟩
    | _ => simp [hw, Worker.dev] at hdev
  obtain ⟨e, he⟩ := hruns
  have harg := h.worker_arg e he
  rw [Option.mem_def.mp hdev, Option.some.injEq] at harg
  rw [harg]
  exact (h.live e (Or.inr (Or.inr he))).2

/-! ### The expected key -/

theorem expected_of_holds {s : State} (hl : LocksInv s) {t dev : Nat}
    (h : (s.tasks t).holds = some dev) :
    s.expected dev = (s.tasks t).expected (s.devs dev).ntkey := by
  simp [State.expected, (hl.mutex t dev).mp h]

/-- A device with no key has no live notification. -/
theorem KeysInv.arg_ne {s : State} (h : KeysInv s) {dev e : Nat} (he : s.Live e)
    (hdev : ∀ k, s.expected dev = some k → k ≤ 0) : s.arg e ≠ dev := by
  intro harg
  subst harg
  have hpos := h.key_pos e he
  have hle := hdev _ (h.expected e he)
  omega

section Expected

variable {s : State} (hl : LocksInv s) {t dev dev' : Nat} {pc : Pc}

include hl

theorem expected_goto
    (hpc : (s.tasks t).holds = some dev →
      pc.expected (s.devs dev).ntkey = (s.tasks t).expected (s.devs dev).ntkey) :
    (s.goto t pc).expected dev = s.expected dev := by
  cases hmutex : (s.devs dev).mutex with
  | none => simp [State.expected, State.goto, hmutex]
  | some t' =>
    by_cases ht : t' = t
    · subst ht
      -- the call holds the mutex of the device, so its place counts
      simpa [State.expected, State.goto, hmutex] using hpc ((hl.mutex t' dev).mpr hmutex)
    · simp [State.expected, State.goto, hmutex, ht]

theorem expected_take (hfree : (s.devs dev).mutex = none) (hidle : (s.tasks t).holds = none)
    (hpc : ∀ k, pc.expected k = some k) :
    ((s.setMutex dev (some t)).goto t pc).expected dev' = s.expected dev' := by
  by_cases hdev : dev' = dev
  · subst hdev
    simp [State.expected, State.goto, State.setMutex, hfree, hpc]
  · cases hmutex : (s.devs dev').mutex with
    | none => simp [State.expected, State.goto, State.setMutex, hdev, hmutex]
    | some t' =>
      have ht : t' ≠ t := by
        intro heq
        subst heq
        rw [(hl.mutex t' dev').mpr hmutex] at hidle
        cases hidle
      simp [State.expected, State.goto, State.setMutex, hdev, hmutex, ht]

theorem expected_give (hheld : (s.tasks t).holds = some dev)
    (hpc : ∀ k, (s.tasks t).expected k = some k) :
    ((s.setMutex dev none).goto t pc).expected dev' = s.expected dev' := by
  by_cases hdev : dev' = dev
  · subst hdev
    rw [expected_of_holds hl hheld, hpc]
    simp [State.expected, State.goto, State.setMutex]
  · cases hmutex : (s.devs dev').mutex with
    | none => simp [State.expected, State.goto, State.setMutex, hdev, hmutex]
    | some t' =>
      have ht : t' ≠ t := by
        intro heq
        subst heq
        rw [(hl.mutex t' dev').mpr hmutex, Option.some.injEq] at hheld
        exact hdev hheld
      simp [State.expected, State.goto, State.setMutex, hdev, hmutex, ht]

theorem expected_store {ret : Int} (hpc : s.tasks t = .pollStore dev ret) :
    ((s.setNtkey dev ret).goto t (.pollUnlock dev)).expected dev' = s.expected dev' := by
  have hheld : (s.tasks t).holds = some dev := by rw [hpc]; rfl
  by_cases hdev : dev' = dev
  · subst hdev
    rw [expected_of_holds hl hheld, hpc]
    simp [State.expected, State.goto, State.setNtkey, (hl.mutex t dev').mp hheld, Pc.expected]
  · cases hmutex : (s.devs dev').mutex with
    | none => simp [State.expected, State.goto, State.setNtkey, hdev, hmutex]
    | some t' =>
      have ht : t' ≠ t := by
        intro heq
        subst heq
        rw [(hl.mutex t' dev').mpr hmutex, Option.some.injEq] at hheld
        exact hdev hheld
      simp [State.expected, State.goto, State.setNtkey, hdev, hmutex, ht]

end Expected

/-! ### Steps that link nothing -/

/-- No notification comes to life, and the live ones keep their entries and their keys. -/
theorem KeysInv.mono {s s' : State} (h : KeysInv s) (hlive : ∀ e, s'.Live e → s.Live e)
    (hentries : ∀ e, s.Live e → s'.notifier.entries e = s.notifier.entries e)
    (hworker : ∀ e, s'.worker.runs = some e → s'.worker.dev = some (s.arg e))
    (hexpected : ∀ e, s'.Live e → s'.expected (s.arg e) = s.expected (s.arg e))
    (hphase : ∀ e, s'.Live e →
      s'.phase (s.arg e) ≠ .unused ∧ s'.phase (s.arg e) ≠ .freed)
    (hopened : ∀ e ∈ s'.notifier.g_notifier_pending,
      s'.phase (s.arg e) = .opened ∨ s'.phase (s.arg e) = .closing)
    (htorn : ∀ t dev, s'.tasks t = .closeUnlock dev →
      ∀ e ∈ s'.notifier.g_notifier_pending, s.arg e ≠ dev) : KeysInv s' := by
  have harg : ∀ e, s'.Live e → s'.arg e = s.arg e := by
    intro e he
    rw [State.arg, info, hentries e (hlive e he)]
    rfl
  have hkey : ∀ e, s'.Live e → s'.notifier.key e = s.notifier.key e := by
    intro e he
    rw [key, hentries e (hlive e he)]
    rfl
  exact
    { worker_arg := by
        intro e he
        rw [harg e (Or.inr (Or.inr he))]
        exact hworker e he
      key_pos := by
        intro e he
        rw [hkey e he]
        exact h.key_pos e (hlive e he)
      unique := by
        intro e e' he he' heq
        rw [harg e he, harg e' he'] at heq
        exact h.unique e e' (hlive e he) (hlive e' he') heq
      expected := by
        intro e he
        rw [harg e he, hkey e he, hexpected e he]
        exact h.expected e (hlive e he)
      opened := by
        intro e he
        rw [harg e (Or.inl he)]
        exact hopened e he
      live := by
        intro e he
        rw [harg e he]
        exact hphase e he
      torn := by
        intro t dev hpc e he
        rw [harg e (Or.inl he)]
        exact htorn t dev hpc e he }

/-- A call moves on and leaves notifications and phases alone. -/
theorem KeysInv.move {s s' : State} (h : KeysInv s) {t : Nat} {pc : Pc}
    (htasks : s'.tasks = Function.update s.tasks t pc) (hnotifier : s'.notifier = s.notifier)
    (hworker : s'.worker = s.worker) (hphase : s'.phase = s.phase)
    (hexpected : ∀ e, s.Live e → s'.expected (s.arg e) = s.expected (s.arg e))
    (hpc : ∀ dev, pc = .closeUnlock dev → ∀ e ∈ s.notifier.g_notifier_pending, s.arg e ≠ dev) :
    KeysInv s' := by
  have hlive : ∀ e, s'.Live e → s.Live e := by
    intro e he
    rwa [State.Live, hnotifier, hworker] at he
  refine h.mono hlive ?_ ?_ (fun e he => hexpected e (hlive e he)) ?_ ?_ ?_
  · rw [hnotifier]
    exact fun _ _ => rfl
  · rw [hworker]
    exact h.worker_arg
  · rw [hphase]
    exact fun e he => h.live e (hlive e he)
  · rw [hnotifier, hphase]
    exact h.opened
  · rw [hnotifier, htasks]
    intro t' dev ht'
    by_cases ht : t' = t
    · subst ht
      rw [Function.update_self] at ht'
      exact hpc dev ht'
    · rw [Function.update_of_ne ht] at ht'
      exact h.torn t' dev ht'

/-! ### Steps of a call -/

section Calls

variable {s : State} (h : KeysInv s) (hl : LocksInv s) (he : EntriesInv s) {t dev : Nat}

include he in
/-- An entry in the hands of a call is not live. -/
theorem not_live_of_loose {e : Nat} (hloose : (s.tasks t).loose = some e) : ¬ s.Live e := by
  intro hlive
  have hnot := (he.task_loose t e hloose).1
  obtain hmem | hmem | hruns := hlive
  · exact hnot (mem_linked.mpr (Or.inr (Or.inl hmem)))
  · exact hnot (mem_linked.mpr (Or.inr (Or.inr hmem)))
  · exact he.worker_ne t e (Worker.loose_of_runs hruns) hloose

include hl in
/-- While one call holds the mutex of a device, what it makes of `ntkey` counts. -/
theorem expected_goto_of_ne {pc : Pc} {dev' : Nat} (hheld : (s.tasks t).holds = some dev)
    (hne : dev' ≠ dev) : (s.goto t pc).expected dev' = s.expected dev' := by
  refine expected_goto hl (fun hholds => ?_)
  rw [hheld, Option.some.injEq] at hholds
  exact absurd hholds.symm hne

include h hl he

omit he in
/-- The test of a poll finds no live notification. -/
theorem KeysInv.check (hpc : s.tasks t = .pollCheck dev) (hkey : (s.devs dev).ntkey ≤ 0) :
    KeysInv (s.goto t (.pollSetup dev)) := by
  have hheld : (s.tasks t).holds = some dev := by rw [hpc]; rfl
  refine h.move rfl rfl rfl rfl ?_ nofun
  intro e hlive
  refine expected_goto_of_ne hl hheld (h.arg_ne hlive ?_)
  intro k hk
  rw [expected_of_holds hl hheld, hpc] at hk
  cases hk
  exact hkey

omit he in
/-- A setup that gets no entry. -/
theorem KeysInv.setup_none (hpc : s.tasks t = .pollSetup dev) (ret : Int) :
    KeysInv (s.goto t (.pollStore dev ret)) := by
  have hheld : (s.tasks t).holds = some dev := by rw [hpc]; rfl
  refine h.move rfl rfl rfl rfl ?_ nofun
  intro e hlive
  refine expected_goto_of_ne hl hheld (h.arg_ne hlive ?_)
  rw [expected_of_holds hl hheld, hpc]
  exact nofun

/-- A setup takes an entry that is not live. -/
theorem KeysInv.setup {info : NotifierInfo} {e : Nat} {notifier : WorkNotifier}
    (hpc : s.tasks t = .pollSetup dev) (hset : SetsUp s.notifier info e notifier) :
    KeysInv ({ s with notifier := notifier }.goto t (.pollLink dev e)) := by
  have hheld : (s.tasks t).holds = some dev := by rw [hpc]; rfl
  have hlive : ∀ e', ({ s with notifier := notifier }.goto t (.pollLink dev e)).Live e' ↔
      s.Live e' := by
    intro e'
    simp only [State.Live, State.goto, hset.pending, hset.q]
  have hne : ∀ e', s.Live e' → e' ≠ e := by
    intro e' he' heq
    subst heq
    have hnot := hset.loose.1
    obtain hmem | hmem | hruns := he'
    · exact hnot (mem_linked.mpr (Or.inr (Or.inl (hset.pending ▸ hmem))))
    · exact hnot (mem_linked.mpr (Or.inr (Or.inr (hset.q ▸ hmem))))
    · exact hset.not_loose (he.worker_loose e' (Worker.loose_of_runs hruns))
  refine h.mono (fun e' => (hlive e').mp) (fun e' he' => hset.entries e' (hne e' he'))
    h.worker_arg ?_ (fun e' he' => h.live e' ((hlive e').mp he')) ?_ ?_
  · intro e' _
    -- the notifications do not matter for the expected key
    exact expected_goto (s := s) hl (fun hholds => by
      rw [hheld, Option.some.injEq] at hholds
      rw [hpc]
      rfl)
  · intro e' he'
    rw [State.goto_notifier, hset.pending] at he'
    exact h.opened e' he'
  · intro t' dev' ht' e' he'
    rw [State.goto_notifier, hset.pending] at he'
    have ht : t' ≠ t := by
      intro heq
      subst heq
      simp [State.goto] at ht'
    exact h.torn t' dev' (by simpa [State.goto, ht] using ht') e' he'

/-- The new notification of a device has the key that the setup returns. -/
theorem KeysInv.link {e : Nat} (hpc : s.tasks t = .pollLink dev e)
    (hkey : s.notifier.notifier_key.toNat + 1 < 2 ^ 31)
    (hphase : s.phase dev = .opened ∨ s.phase dev = .closing) :
    KeysInv ({ s with notifier := (s.notifier.setupLink e).1 }.goto t
      (.pollStore dev (s.notifier.setupLink e).2)) := by
  have hheld : (s.tasks t).holds = some dev := by rw [hpc]; rfl
  have hmutex := (hl.mutex t dev).mp hheld
  -- before the linking the device has no live notification, and the entry is no other's
  have hnot : ¬ s.Live e := not_live_of_loose he (by rw [hpc]; rfl)
  have hnone : s.expected dev = none := by
    rw [expected_of_holds hl hheld, hpc]
    rfl
  have harg : s.arg e = dev := he.task_arg t dev e hpc
  have hother : ∀ e', s.Live e' → s.arg e' ≠ dev :=
    fun e' he' => h.arg_ne he' (by rw [hnone]; exact nofun)
  have hnew : keyInt ((s.notifier.setupLink e).1.key e) = (s.notifier.setupLink e).2 := by
    simp [setupLink, key]
  -- the key fits an int, so it is positive
  have hpos : 0 < (s.notifier.setupLink e).2 := by
    have htoNat := toNat_work_notifier_key (s := s.notifier) (by omega)
    rw [setupLink, keyInt_of_lt (by omega)]
    omega
  generalize hs' : ({ s with notifier := (s.notifier.setupLink e).1 } : State).goto t
    (.pollStore dev (s.notifier.setupLink e).2) = s'
  have hnotifier : s'.notifier = (s.notifier.setupLink e).1 := by rw [← hs']; rfl
  have hworker : s'.worker = s.worker := by rw [← hs']; rfl
  have hlive : ∀ e', s'.Live e' ↔ s.Live e' ∨ e' = e := by
    intro e'
    simp only [State.Live, hnotifier, hworker, setupLink, List.mem_append, List.mem_singleton]
    exact or_right_comm
  have hpending : ∀ e', e' ∈ s'.notifier.g_notifier_pending →
      e' ∈ s.notifier.g_notifier_pending ∨ e' = e := by
    intro e' he'
    simpa [hnotifier, setupLink] using he'
  have harg' : ∀ e', s'.arg e' = s.arg e' := by
    intro e'
    rw [State.arg, hnotifier, setupLink_info]
    rfl
  have hkey' : ∀ e', e' ≠ e → s'.notifier.key e' = s.notifier.key e' := by
    intro e' hne
    rw [hnotifier, key, setupLink_entries_of_ne hne]
    rfl
  have hexpected : s'.expected dev = some (s.notifier.setupLink e).2 := by
    simp [← hs', State.expected, State.goto, hmutex, Pc.expected]
  have hne : ∀ e', s.Live e' → e' ≠ e := by
    intro e' he' heq
    exact hnot (heq ▸ he')
  have hphase' : s'.phase = s.phase := by rw [← hs']; rfl
  exact
    { worker_arg := by
        intro e' hruns
        rw [hworker] at hruns ⊢
        rw [harg']
        exact h.worker_arg e' hruns
      key_pos := by
        intro e' he'
        obtain hold | rfl := (hlive e').mp he'
        · rw [hkey' e' (hne e' hold)]
          exact h.key_pos e' hold
        · rw [hnotifier, hnew]
          exact hpos
      unique := by
        intro e₁ e₂ h₁ h₂ heq
        rw [harg', harg'] at heq
        obtain hold₁ | rfl := (hlive e₁).mp h₁
        · obtain hold₂ | rfl := (hlive e₂).mp h₂
          · exact h.unique e₁ e₂ hold₁ hold₂ heq
          · exact absurd (heq.trans harg) (hother e₁ hold₁)
        · obtain hold₂ | rfl := (hlive e₂).mp h₂
          · exact absurd (heq.symm.trans harg) (hother e₂ hold₂)
          · rfl
      expected := by
        intro e' he'
        rw [harg']
        obtain hold | rfl := (hlive e').mp he'
        · rw [hkey' e' (hne e' hold), ← h.expected e' hold, ← hs']
          exact expected_goto_of_ne hl hheld (hother e' hold)
        · rw [harg, hexpected, hnotifier, hnew]
      opened := by
        intro e' he'
        rw [harg', hphase']
        obtain hold | rfl := hpending e' he'
        · exact h.opened e' hold
        · rw [harg]
          exact hphase
      live := by
        intro e' he'
        rw [harg', hphase']
        obtain hold | rfl := (hlive e').mp he'
        · exact h.live e' hold
        · rw [harg]
          obtain hopen | hclosing := hphase
          · simp [hopen]
          · simp [hclosing]
      torn := by
        intro t' dev' ht' e' he'
        rw [harg']
        have ht : t' ≠ t := by
          intro heq
          subst heq
          simp [← hs', State.goto] at ht'
        have hold' : s.tasks t' = .closeUnlock dev' := by simpa [← hs', State.goto, ht] using ht'
        obtain hold | rfl := hpending e' he'
        · exact h.torn t' dev' hold' e' hold
        · -- the close that is done with its teardown holds the mutex of another device
          rw [harg]
          intro heq
          subst heq
          have hheld' : (s.tasks t').holds = some dev := by rw [hold']; rfl
          rw [hl.mutex, hmutex, Option.some.injEq] at hheld'
          exact ht hheld'.symm }

/-- A teardown leaves no notification of the device pending. -/
theorem KeysInv.teardown (hpc : s.tasks t = .closeTeardown dev) :
    KeysInv ({ s with
      notifier := (s.notifier.work_notifier_teardown (s.devs dev).ntkey).1 }.goto t
        (.closeUnlock dev)) := by
  have hheld : (s.tasks t).holds = some dev := by rw [hpc]; rfl
  have hmoves := moves_teardown s.notifier (s.devs dev).ntkey
  generalize hs' : ({ s with
    notifier := (s.notifier.work_notifier_teardown (s.devs dev).ntkey).1 } : State).goto t
      (.closeUnlock dev) = s'
  have hnotifier : s'.notifier = (s.notifier.work_notifier_teardown (s.devs dev).ntkey).1 := by
    rw [← hs']; rfl
  have hworker : s'.worker = s.worker := by rw [← hs']; rfl
  have hphase : s'.phase = s.phase := by rw [← hs']; rfl
  have hpending : ∀ e, e ∈ s'.notifier.g_notifier_pending → e ∈ s.notifier.g_notifier_pending := by
    intro e hmem
    rw [hnotifier] at hmem
    exact hmoves.pending hmem
  have hlive : ∀ e, s'.Live e → s.Live e := by
    intro e hlive
    obtain hmem | hmem | hruns := hlive
    · exact Or.inl (hpending e hmem)
    · rw [hnotifier, teardown_g_hpwork] at hmem
      exact Or.inr (Or.inl hmem)
    · rw [hworker] at hruns
      exact Or.inr (Or.inr hruns)
  refine h.mono hlive ?_ ?_ ?_ ?_ ?_ ?_
  · rw [hnotifier, hmoves.entries]
    exact fun _ _ => rfl
  · rw [hworker]
    exact h.worker_arg
  · intro e _
    rw [← hs']
    exact expected_goto (s := s) hl (fun hholds => by
      rw [hheld, Option.some.injEq] at hholds
      rw [hpc]
      rfl)
  · rw [hphase]
    exact fun e he' => h.live e (hlive e he')
  · rw [hphase]
    exact fun e he' => h.opened e (hpending e he')
  · intro t' dev' ht' e hmem
    by_cases ht : t' = t
    · subst ht
      simp only [← hs', State.goto, Function.update_self, Pc.closeUnlock.injEq] at ht'
      subst ht'
      intro harg
      -- what is pending for the device has the key that the teardown removed
      have hkey := h.expected e (Or.inl (hpending e hmem))
      rw [harg, expected_of_holds hl hheld, hpc] at hkey
      rw [hnotifier] at hmem
      exact not_mem_teardown he.wf (Option.some.inj hkey) hmem
    · exact h.torn t' dev' (by simpa [← hs', State.goto, ht] using ht') e (hpending e hmem)

omit he in
/-- Once the mutex is given back, no notification of the device is pending. -/
theorem KeysInv.unlock (hpc : s.tasks t = .closeUnlock dev) :
    KeysInv (((s.setMutex dev none).setPhase dev .closed).goto t (.closeFree dev)) := by
  have hheld : (s.tasks t).holds = some dev := by rw [hpc]; rfl
  -- what is pending is for other devices, and those keep their phase
  have htorn := h.torn t dev hpc
  refine h.mono (fun _ hlive => hlive) (fun _ _ => rfl) h.worker_arg ?_ ?_ ?_ ?_
  · intro e _
    exact expected_give hl hheld (fun k => by rw [hpc]; rfl)
  · intro e hlive
    by_cases hdev : s.arg e = dev
    · simp [State.goto, State.setPhase, hdev]
    · simpa [State.goto, State.setPhase, State.setMutex, hdev] using h.live e hlive
  · intro e hmem
    have hdev : s.arg e ≠ dev := htorn e hmem
    simpa [State.goto, State.setPhase, State.setMutex, hdev] using h.opened e hmem
  · intro t' dev' ht' e hmem
    by_cases ht : t' = t
    · subst ht; simp [State.goto] at ht'
    · have hold : s.tasks t' = .closeUnlock dev' := by
        simpa [State.goto, State.setPhase, State.setMutex, ht] using ht'
      exact h.torn t' dev' hold e hmem

omit he in
/-- A device is freed that has no live notification. -/
theorem KeysInv.free (hpc : s.tasks t = .closeFree dev) (hquiet : s.Quiet dev) :
    KeysInv ((s.setPhase dev .freed).goto t .idle) := by
  have hfits : s.phase dev = .closed ∨ s.phase dev = .freed := by
    have := hl.fits t
    rwa [hpc] at this
  -- a pending notification is for a device that is open or closing, and this one is closed
  have hpending : ∀ e ∈ s.notifier.g_notifier_pending, s.arg e ≠ dev := by
    intro e hmem harg
    have hopened := h.opened e hmem
    rw [harg] at hopened
    obtain hclosed | hfreed := hfits
    · simp [hclosed] at hopened
    · simp [hfreed] at hopened
  have hnone : ∀ e, s.Live e → s.arg e ≠ dev := by
    intro e hlive
    obtain hmem | hmem | hruns := hlive
    · exact hpending e hmem
    -- a signalled one is not found by the teardown: that none is left is the condition
    · exact hquiet.1 e hmem
    · intro harg
      subst harg
      exact hquiet.2 (h.worker_arg e hruns)
  refine h.mono (fun _ hlive => hlive) (fun _ _ => rfl) h.worker_arg ?_ ?_ ?_ ?_
  · intro e _
    exact expected_goto (s := s) hl (fun hholds => by rw [hpc] at hholds; cases hholds)
  · intro e hlive
    simpa [State.goto, State.setPhase, hnone e hlive] using h.live e hlive
  · intro e hmem
    simpa [State.goto, State.setPhase, hpending e hmem] using h.opened e hmem
  · intro t' dev' ht' e hmem
    by_cases ht : t' = t
    · subst ht; simp [State.goto] at ht'
    · have hold : s.tasks t' = .closeUnlock dev' := by
        simpa [State.goto, State.setPhase, ht] using ht'
      exact h.torn t' dev' hold e hmem

end Calls

theorem keysInv_taskStep {s s' : State} {t : Nat} {ok : Bool} (h : KeysInv s) (hl : LocksInv s)
    (he : EntriesInv s) (htimely : Timely s (.task t ok)) (hstep : taskStep s t ok = some s') :
    KeysInv s' := by
  cases hpc : s.tasks t with
  | idle => simp [taskStep, hpc] at hstep
  | pollLock dev =>
    simp only [taskStep, hpc] at hstep
    split at hstep
    · rename_i hfree
      cases hstep
      refine h.move rfl rfl rfl rfl (fun e _ => ?_) fun _ hno => by cases hno
      exact expected_take hl hfree (by rw [hpc]; rfl) (fun _ => rfl)
    · cases hstep
  | pollCheck dev =>
    simp only [taskStep, hpc] at hstep
    -- a poll that sets nothing up only moves on
    have hunlock : KeysInv (s.goto t (.pollUnlock dev)) := by
      refine h.move rfl rfl rfl rfl (fun e _ => ?_) fun _ hno => by cases hno
      exact expected_goto hl (fun _ => by rw [hpc]; rfl)
    split at hstep
    · cases hstep
      exact hunlock
    · split at hstep
      · rename_i hkey
        cases hstep
        exact h.check hl hpc hkey
      · cases hstep
        exact hunlock
  | pollSetup dev =>
    simp only [taskStep, hpc] at hstep
    split at hstep
    · rename_i e notifier hset
      cases hstep
      exact h.setup hl he hpc (setupEntry_spec he.wf hset)
    · cases hstep
      exact h.setup_none hl hpc _
  | pollLink dev e =>
    simp only [taskStep, hpc, Option.some.injEq] at hstep
    subst hstep
    obtain ⟨hkey, hphase⟩ := htimely.1 dev (by rw [hpc]; rfl)
    exact h.link hl he hpc hkey hphase
  | pollStore dev ret =>
    simp only [taskStep, hpc, Option.some.injEq] at hstep
    subst hstep
    refine h.move rfl rfl rfl rfl (fun e _ => ?_) fun _ hno => by cases hno
    exact expected_store hl hpc
  | pollUnlock dev =>
    simp only [taskStep, hpc, Option.some.injEq] at hstep
    subst hstep
    refine h.move rfl rfl rfl rfl (fun e _ => ?_) fun _ hno => by cases hno
    exact expected_give hl (by rw [hpc]; rfl) (fun k => by rw [hpc]; rfl)
  | closeLock dev =>
    simp only [taskStep, hpc] at hstep
    split at hstep
    · rename_i hfree
      cases hstep
      refine h.move rfl rfl rfl rfl (fun e _ => ?_) fun _ hno => by cases hno
      exact expected_take hl hfree (by rw [hpc]; rfl) (fun _ => rfl)
    · cases hstep
  | closeTest dev =>
    have hheld : (s.tasks t).holds = some dev := by rw [hpc]; rfl
    simp only [taskStep, hpc] at hstep
    split at hstep
    · cases hstep
      refine h.move rfl rfl rfl rfl (fun e _ => ?_) fun _ hno => by cases hno
      exact expected_goto hl (fun _ => by rw [hpc]; rfl)
    · rename_i hkey
      cases hstep
      refine h.move rfl rfl rfl rfl (fun e _ => ?_) ?_
      · exact expected_goto hl (fun _ => by rw [hpc]; rfl)
      · -- without a key there is nothing to tear down
        intro dev' hdev' e hmem
        cases hdev'
        refine h.arg_ne (Or.inl hmem) ?_
        intro k hk
        rw [expected_of_holds hl hheld, hpc] at hk
        cases hk
        omega
  | closeTeardown dev =>
    simp only [taskStep, hpc, Option.some.injEq] at hstep
    subst hstep
    exact h.teardown hl he hpc
  | closeUnlock dev =>
    simp only [taskStep, hpc, Option.some.injEq] at hstep
    subst hstep
    exact h.unlock hl hpc
  | closeFree dev =>
    simp only [taskStep, hpc, Option.some.injEq] at hstep
    subst hstep
    exact h.free hl hpc (htimely.2 dev (by rw [hpc]; rfl))

/-! ### The worker and the other steps -/

/-- The worker goes on, or signals queue what was pending; the devices are left alone. -/
theorem KeysInv.shift {s : State} (h : KeysInv s) {notifier : WorkNotifier} {worker : Worker}
    (hentries : notifier.entries = s.notifier.entries)
    (hpending : ∀ e ∈ notifier.g_notifier_pending, e ∈ s.notifier.g_notifier_pending)
    (hlive : ∀ e, ({ s with notifier := notifier, worker := worker } : State).Live e → s.Live e)
    (hworker : ∀ e, worker.runs = some e → worker.dev = some (s.arg e)) :
    KeysInv { s with notifier := notifier, worker := worker } := by
  refine h.mono hlive (fun e _ => congrFun hentries e) hworker (fun _ _ => rfl) ?_ ?_ ?_
  · exact fun e he => h.live e (hlive e he)
  · exact fun e he => h.opened e (hpending e he)
  · exact fun t dev ht e he => h.torn t dev ht e (hpending e he)

/-- The worker is done with the device once it has cleared the key. -/
theorem KeysInv.clearKey {s : State} (h : KeysInv s) (he : EntriesInv s) {e dev : Nat}
    (hw : s.worker = .clearKey e dev) :
    KeysInv { s.setNtkey dev (-1) with worker := .recycle e } := by
  have hruns : s.worker.runs = some e := by rw [hw]; rfl
  -- the worker runs on the device of its entry
  have harg : s.arg e = dev := by
    have := h.worker_arg e hruns
    rw [hw] at this
    exact (Option.some.inj this).symm
  have hnot := (he.worker_loose e (Worker.loose_of_runs hruns)).1
  have hlive : ∀ e', ({ s.setNtkey dev (-1) with worker := .recycle e } : State).Live e' →
      s.Live e' ∧ s.arg e' ≠ dev := by
    intro e' he'
    have hold : s.Live e' := by
      obtain hmem | hmem | hno := he'
      · exact Or.inl hmem
      · exact Or.inr (Or.inl hmem)
      · cases hno
    refine ⟨hold, fun hdev => ?_⟩
    -- the only live notification of the device is the one that has run
    have heq := h.unique e' e hold (Or.inr (Or.inr hruns)) (hdev.trans harg.symm)
    subst heq
    obtain hmem | hmem | hno := he'
    · exact hnot (mem_linked.mpr (Or.inr (Or.inl hmem)))
    · exact hnot (mem_linked.mpr (Or.inr (Or.inr hmem)))
    · cases hno
  refine h.mono (fun e' he' => (hlive e' he').1) (fun _ _ => rfl) nofun ?_ ?_ h.opened h.torn
  · intro e' he'
    simp [State.expected, State.setNtkey, (hlive e' he').2]
  · exact fun e' he' => h.live e' (hlive e' he').1

theorem keysInv_workerStep {s s' : State} (h : KeysInv s) (he : EntriesInv s)
    (hstep : workerStep s = some s') : KeysInv s' := by
  cases hw : s.worker with
  | idle =>
    simp only [workerStep, hw] at hstep
    obtain ⟨⟨e, notifier⟩, htake, rfl⟩ := Option.map_eq_some_iff.mp hstep
    have hstart := startWork_spec he.wf htake
    -- the entry that is taken was queued, so it was live before
    refine h.shift hstart.entries (by rw [hstart.pending]; exact fun _ hmem => hmem) ?_ ?_
    · intro e' he'
      obtain hmem | hmem | hruns := he'
      · exact Or.inl (hstart.pending ▸ hmem)
      · exact Or.inr (Or.inl ((hstart.mem_q e').mpr (Or.inr hmem)))
      · cases hruns
        exact Or.inr (Or.inl ((hstart.mem_q e).mpr (Or.inl rfl)))
    · intro e' hruns
      cases hruns
      simp [Worker.dev, State.arg, info, hstart.entries]
  | wakeUp e dev =>
    simp only [workerStep, hw, Option.some.injEq] at hstep
    subst hstep
    have hruns : s.worker.runs = some e := by rw [hw]; rfl
    refine h.shift rfl (fun _ hmem => hmem) ?_ ?_
    · intro e' he'
      simpa [State.Live, hw, Worker.runs] using he'
    · intro e' he'
      cases he'
      have harg := h.worker_arg e hruns
      rwa [hw] at harg
  | clearKey e dev =>
    simp only [workerStep, hw, Option.some.injEq] at hstep
    subst hstep
    exact h.clearKey he hw
  | recycle e =>
    simp only [workerStep, hw, Option.some.injEq] at hstep
    subst hstep
    refine h.shift rfl (fun _ hmem => hmem) ?_ fun _ hno => by cases hno
    intro e' he'
    simpa [State.Live, hw, Worker.runs, recycle] using he'
  | finish e =>
    simp only [workerStep, hw, Option.some.injEq] at hstep
    subst hstep
    refine h.shift rfl (fun _ hmem => hmem) ?_ fun _ hno => by cases hno
    intro e' he'
    simpa [State.Live, hw, Worker.runs, finishWork] using he'

/-- The device of an open has no notification yet. -/
theorem KeysInv.open {s : State} (h : KeysInv s) {dev : Nat} (hunused : s.phase dev = .unused)
    (d : SndPlatformDevice) :
    KeysInv { s.setPhase dev .opened with devs := Function.update s.devs dev d } := by
  have hne : ∀ e, s.Live e → s.arg e ≠ dev := by
    intro e he harg
    subst harg
    exact (h.live e he).1 hunused
  refine h.mono (fun _ he => he) (fun _ _ => rfl) h.worker_arg ?_ ?_ ?_ h.torn
  · intro e he
    simp [State.expected, State.setPhase, hne e he]
  · intro e he
    simpa [State.setPhase, hne e he] using h.live e he
  · intro e he
    simpa [State.setPhase, hne e (Or.inl he)] using h.opened e he

/-- A close begins. -/
theorem KeysInv.close {s : State} (h : KeysInv s) (hl : LocksInv s) {t dev : Nat}
    (hidle : s.tasks t = .idle) :
    KeysInv ((s.setPhase dev .closing).goto t (.closeLock dev)) := by
  refine h.mono (fun _ he => he) (fun _ _ => rfl) h.worker_arg ?_ ?_ ?_ ?_
  · intro e _
    exact expected_goto (s := s) hl (fun hholds => by rw [hidle] at hholds; cases hholds)
  · intro e he
    by_cases hdev : s.arg e = dev
    · simp [State.goto, State.setPhase, hdev]
    · simpa [State.goto, State.setPhase, hdev] using h.live e he
  · intro e he
    by_cases hdev : s.arg e = dev
    · simp [State.goto, State.setPhase, hdev]
    · simpa [State.goto, State.setPhase, hdev] using h.opened e he
  · intro t' dev' ht' e he
    by_cases ht : t' = t
    · subst ht; simp [State.goto] at ht'
    · have hold : s.tasks t' = .closeUnlock dev' := by
        simpa [State.goto, State.setPhase, ht] using ht'
      exact h.torn t' dev' hold e he

theorem keysInv_step {s s' : State} {a : Action} (h : KeysInv s) (hl : LocksInv s)
    (he : EntriesInv s) (htimely : Timely s a) (hstep : step s a = some s') : KeysInv s' := by
  cases a with
  | «open» dev platform =>
    simp only [step] at hstep
    split at hstep
    · rename_i hunused
      cases hstep
      exact h.open hunused _
    · cases hstep
  | poll t dev =>
    simp only [step] at hstep
    split at hstep
    · rename_i hidle
      cases hstep
      refine h.move rfl rfl rfl rfl (fun e _ => ?_) fun _ hno => by cases hno
      exact expected_goto hl (fun hholds => by rw [hidle.1] at hholds; cases hholds)
    · cases hstep
  | close t dev =>
    simp only [step] at hstep
    split at hstep
    · rename_i hidle
      cases hstep
      exact h.close hl hidle.1
    · cases hstep
  | task t ok => exact keysInv_taskStep h hl he htimely hstep
  | signal evtype qualifier =>
    cases hstep
    have hmoves := he.wf.lists.moves_signal evtype qualifier
    refine h.shift hmoves.entries (fun _ hmem => hmoves.pending hmem) ?_ h.worker_arg
    intro e hlive
    obtain hmem | hmem | hruns := hlive
    · exact Or.inl (hmoves.pending hmem)
    · obtain hold | hold := he.wf.lists.mem_signal_q evtype qualifier hmem
      · exact Or.inl hold
      · exact Or.inr (Or.inl hold)
    · exact Or.inr (Or.inr hruns)
  | worker => exact keysInv_workerStep h he hstep

/-! ### Runs -/

structure Inv (s : State) : Prop where
  locks : LocksInv s
  entries : EntriesInv s
  keys : KeysInv s

theorem inv_init : Inv init := ⟨locksInv_init, entriesInv_init, keysInv_init⟩

theorem inv_step (s : State) (a : Action) (s' : State) (h : Inv s) (htimely : Timely s a)
    (hstep : step s a = some s') : Inv s' where
  locks := locksInv_step h.locks hstep
  entries := entriesInv_step h.entries htimely hstep
  keys := keysInv_step h.keys h.locks h.entries htimely hstep

/-- In a run in which every notification is linked with a key that fits an `int` and before its
    device's close gives the mutex back, and every device is freed when no signalled notification
    of it is left to run, the worker never runs on a freed device. -/
theorem always_workerSafe {tr : List Action} (hmeets : Meets step Timely init tr) :
    Always step WorkerSafe init tr :=
  always_of_meets step (fun _ h => h.keys.workerSafe) inv_step inv_init hmeets

/-- Task `t` polls a device that has too few frames, and gets an entry. -/
def pollRun (t dev : Nat) : List Action :=
  .poll t dev :: .task t true :: .task t false :: List.replicate 4 (.task t true)

/-- Task `t` closes a device that has a key. -/
def closeRun (t dev : Nat) : List Action := .close t dev :: List.replicate 5 (.task t true)

/-- The event comes, the worker runs, and the next notification is torn down. -/
def timelyRun : List Action :=
  [.open 1 7] ++ pollRun 0 1 ++ [.signal SND_EVENT_AVAIL 7] ++ List.replicate 5 .worker ++
    pollRun 0 1 ++ closeRun 0 1 ++ [.signal SND_EVENT_AVAIL 7]

theorem workerSafe_timelyRun : Always step WorkerSafe init timelyRun :=
  always_workerSafe (by decide)

/-- The event comes, then the device is closed, then the worker runs. -/
def lateRun : List Action :=
  [.open 1 7] ++ pollRun 0 1 ++ [.signal SND_EVENT_AVAIL 7] ++ closeRun 0 1 ++ [.worker]

theorem workerSafe_fails : ¬ ∀ tr : List Action, Always step WorkerSafe init tr := by
  intro h
  have hsafe := h lateRun
  revert hsafe
  decide

end Hcrtos.Native.SndPoll
