import Hcrtos.Native.SndPoll
import Hcrtos.Spec.WorkNotifierCorrect

/-!
# Polling a sound device: mutexes and entries

Two invariants that need no condition on the order of steps: the mutex of a device is held by the
call that is past its lock, and the entry of a setup or of the worker is in nobody else's hands.
As long as the key counter does not wrap around, the keys are in order too.

## Key results

- `locksInv_step`: the holders of the mutexes
- `held_step`: the entries in the hands of tasks and of the worker
- `entriesInv_step`: the same with the keys
-/

namespace Hcrtos.Native.SndPoll

open WorkNotifier

@[simp] theorem State.goto_notifier (s : State) (t : Nat) (pc : Pc) :
    (s.goto t pc).notifier = s.notifier := rfl

/-- The device whose mutex the call holds. -/
def Pc.holds : Pc → Option Nat
  | .pollCheck dev | .pollSetup dev | .pollLink dev _ | .pollStore dev _ | .pollUnlock dev
  | .closeTest dev | .closeTeardown dev | .closeUnlock dev => some dev
  | _ => none

/-- The entry that the call has taken and not linked. -/
def Pc.loose : Pc → Option Nat
  | .pollLink _ e => some e
  | _ => none

/-- The entry that the worker has taken and not given back. -/
def Worker.loose : Worker → Option Nat
  | .wakeUp e _ | .clearKey e _ | .recycle e => some e
  | _ => none

/-- The phase of the device allows the call to be where it is. -/
def Pc.Fits (phase : Nat → Phase) : Pc → Prop
  | .idle => True
  | .closeFree dev => phase dev = .closed ∨ phase dev = .freed
  | .pollLock dev | .pollCheck dev | .pollSetup dev | .pollLink dev _ | .pollStore dev _
  | .pollUnlock dev | .closeLock dev | .closeTest dev | .closeTeardown dev | .closeUnlock dev =>
    phase dev ≠ .unused

/-! ### Mutexes -/

/-- A mutex is held by the call that is past its lock, and calls are for opened devices. -/
structure LocksInv (s : State) : Prop where
  mutex : ∀ t dev, (s.tasks t).holds = some dev ↔ (s.devs dev).mutex = some t
  fits : ∀ t, (s.tasks t).Fits s.phase

theorem locksInv_init : LocksInv init where
  mutex := by simp [init, Pc.holds]
  fits := by simp [init, Pc.Fits]

/-- A call that holds a mutex is for an opened device. -/
theorem LocksInv.phase_of_holds {s : State} (h : LocksInv s) {t dev : Nat}
    (hholds : (s.tasks t).holds = some dev) : s.phase dev ≠ .unused := by
  have hfits := h.fits t
  cases hpc : s.tasks t <;> rw [hpc] at hholds hfits <;> cases hholds <;> exact hfits

theorem Pc.Fits.mono {phase phase' : Nat → Phase} {pc : Pc} (h : pc.Fits phase)
    (hused : ∀ dev, phase dev ≠ .unused → phase' dev ≠ .unused)
    (hclosed : ∀ dev, phase dev = .closed ∨ phase dev = .freed →
      phase' dev = .closed ∨ phase' dev = .freed) : pc.Fits phase' := by
  cases pc <;> first | trivial | exact hclosed _ h | exact hused _ h

section Locks

variable {s : State} (h : LocksInv s) {t dev : Nat} {pc : Pc}

include h

/-- A move that neither takes nor gives a mutex. -/
theorem LocksInv.goto (hholds : pc.holds = (s.tasks t).holds) (hfits : pc.Fits s.phase) :
    LocksInv (s.goto t pc) where
  mutex := by
    intro t' dev'
    have hmutex := h.mutex t' dev'
    by_cases ht : t' = t
    · subst ht; simpa [State.goto, hholds] using hmutex
    · simpa [State.goto, ht] using hmutex
  fits := by
    intro t'
    by_cases ht : t' = t
    · subst ht; simpa [State.goto] using hfits
    · simpa [State.goto, ht] using h.fits t'

theorem LocksInv.take (hfree : (s.devs dev).mutex = none) (hidle : (s.tasks t).holds = none)
    (hholds : pc.holds = some dev) (hfits : pc.Fits s.phase) :
    LocksInv ((s.setMutex dev (some t)).goto t pc) where
  mutex := by
    intro t' dev'
    have hmutex := h.mutex t' dev'
    by_cases ht : t' = t
    · subst ht
      by_cases hdev : dev' = dev
      · subst hdev; simp [State.goto, State.setMutex, hholds]
      -- the call held no mutex before, so it holds none of the others now
      · have hno : (s.devs dev').mutex ≠ some t' := by
          rw [Ne, ← hmutex, hidle]
          exact nofun
        simp [State.goto, State.setMutex, hholds, hdev, Ne.symm hdev, hno]
    · by_cases hdev : dev' = dev
      · subst hdev
        -- nobody held the mutex that is taken
        rw [hfree] at hmutex
        simpa [State.goto, State.setMutex, ht, Ne.symm ht] using hmutex
      · simpa [State.goto, State.setMutex, ht, hdev] using hmutex
  fits := by
    intro t'
    by_cases ht : t' = t
    · subst ht; simpa [State.goto, State.setMutex] using hfits
    · simpa [State.goto, State.setMutex, ht] using h.fits t'

theorem LocksInv.give (hheld : (s.tasks t).holds = some dev) (hholds : pc.holds = none)
    (hfits : pc.Fits s.phase) : LocksInv ((s.setMutex dev none).goto t pc) where
  mutex := by
    intro t' dev'
    have hmutex := h.mutex t' dev'
    by_cases ht : t' = t
    · subst ht
      by_cases hdev : dev' = dev
      · subst hdev; simp [State.goto, State.setMutex, hholds]
      · rw [hheld] at hmutex
        simpa [State.goto, State.setMutex, hholds, hdev, Ne.symm hdev] using hmutex
    · by_cases hdev : dev' = dev
      · subst hdev
        -- the mutex is the one of the call, so no other call holds it
        have hno : (s.tasks t').holds ≠ some dev' := by
          rw [Ne, hmutex, (h.mutex t dev').mp hheld]
          simpa using Ne.symm ht
        simp [State.goto, State.setMutex, ht, hno]
      · simpa [State.goto, State.setMutex, ht, hdev] using hmutex
  fits := by
    intro t'
    by_cases ht : t' = t
    · subst ht; simpa [State.goto, State.setMutex] using hfits
    · simpa [State.goto, State.setMutex, ht] using h.fits t'

/-- A change that keeps the mutexes and lets no device fall back. -/
theorem LocksInv.congr {s' : State} (htasks : s'.tasks = s.tasks)
    (hmutex : ∀ dev, (s'.devs dev).mutex = (s.devs dev).mutex)
    (hused : ∀ dev, s.phase dev ≠ .unused → s'.phase dev ≠ .unused)
    (hclosed : ∀ dev, s.phase dev = .closed ∨ s.phase dev = .freed →
      s'.phase dev = .closed ∨ s'.phase dev = .freed) : LocksInv s' where
  mutex := by
    intro t dev
    rw [htasks, hmutex]
    exact h.mutex t dev
  fits := by
    intro t
    rw [htasks]
    exact (h.fits t).mono hused hclosed

/-- A phase after the opening may be set where the device is not on its way out. -/
theorem LocksInv.setPhase (dev : Nat) {phase : Phase} (hne : phase ≠ .unused)
    (hphase : s.phase dev = .closed ∨ s.phase dev = .freed → phase = .closed ∨ phase = .freed) :
    LocksInv (s.setPhase dev phase) := by
  refine h.congr rfl (fun _ => rfl) ?_ ?_
  · intro dev' hdev'
    by_cases hdev : dev' = dev
    · subst hdev; simpa [State.setPhase] using hne
    · simpa [State.setPhase, hdev] using hdev'
  · intro dev' hdev'
    by_cases hdev : dev' = dev
    · subst hdev; simpa [State.setPhase] using hphase hdev'
    · simpa [State.setPhase, hdev] using hdev'

theorem LocksInv.setNtkey (ntkey : Int) : LocksInv (s.setNtkey dev ntkey) := by
  refine h.congr rfl ?_ (fun _ hdev => hdev) (fun _ hdev => hdev)
  intro dev'
  by_cases hdev : dev' = dev
  · subst hdev; simp [State.setNtkey]
  · simp [State.setNtkey, hdev]

theorem LocksInv.setNotifier (notifier : WorkNotifier) : LocksInv { s with notifier := notifier } :=
  ⟨h.mutex, h.fits⟩

theorem LocksInv.setWorker (notifier : WorkNotifier) (worker : Worker) :
    LocksInv { s with notifier := notifier, worker := worker } :=
  ⟨h.mutex, h.fits⟩

end Locks

theorem locksInv_taskStep {s s' : State} {t : Nat} {ok : Bool} (h : LocksInv s)
    (hstep : taskStep s t ok = some s') : LocksInv s' := by
  have hfits := h.fits t
  cases hpc : s.tasks t with
  | idle => simp [taskStep, hpc] at hstep
  | pollLock dev =>
    rw [hpc] at hfits
    simp only [taskStep, hpc] at hstep
    split at hstep
    · rename_i hfree
      cases hstep
      exact h.take hfree (by rw [hpc]; rfl) rfl hfits
    · cases hstep
  | pollCheck dev =>
    rw [hpc] at hfits
    simp only [taskStep, hpc] at hstep
    split at hstep
    · cases hstep
      exact h.goto (by rw [hpc]; rfl) hfits
    · split at hstep
      · cases hstep
        exact h.goto (by rw [hpc]; rfl) hfits
      · cases hstep
        exact h.goto (by rw [hpc]; rfl) hfits
  | pollSetup dev =>
    rw [hpc] at hfits
    simp only [taskStep, hpc] at hstep
    split at hstep
    · cases hstep
      exact (h.setNotifier _).goto (by rw [hpc]; rfl) hfits
    · cases hstep
      exact h.goto (by rw [hpc]; rfl) hfits
  | pollLink dev e =>
    rw [hpc] at hfits
    simp only [taskStep, hpc, Option.some.injEq] at hstep
    subst hstep
    exact (h.setNotifier _).goto (by rw [hpc]; rfl) hfits
  | pollStore dev ret =>
    rw [hpc] at hfits
    simp only [taskStep, hpc, Option.some.injEq] at hstep
    subst hstep
    exact (h.setNtkey ret).goto (by rw [State.setNtkey, hpc]; rfl) hfits
  | pollUnlock dev =>
    simp only [taskStep, hpc, Option.some.injEq] at hstep
    subst hstep
    exact h.give (by rw [hpc]; rfl) rfl trivial
  | closeLock dev =>
    rw [hpc] at hfits
    simp only [taskStep, hpc] at hstep
    split at hstep
    · rename_i hfree
      cases hstep
      exact h.take hfree (by rw [hpc]; rfl) rfl hfits
    · cases hstep
  | closeTest dev =>
    rw [hpc] at hfits
    simp only [taskStep, hpc] at hstep
    split at hstep
    · cases hstep
      exact h.goto (by rw [hpc]; rfl) hfits
    · cases hstep
      exact h.goto (by rw [hpc]; rfl) hfits
  | closeTeardown dev =>
    rw [hpc] at hfits
    simp only [taskStep, hpc, Option.some.injEq] at hstep
    subst hstep
    exact (h.setNotifier _).goto (by rw [hpc]; rfl) hfits
  | closeUnlock dev =>
    simp only [taskStep, hpc, Option.some.injEq] at hstep
    subst hstep
    have hclosed : LocksInv (s.setPhase dev .closed) := h.setPhase dev nofun (fun _ => Or.inl rfl)
    exact hclosed.give (by rw [State.setPhase, hpc]; rfl) rfl
      (Or.inl (by simp [State.setPhase]))
  | closeFree dev =>
    simp only [taskStep, hpc, Option.some.injEq] at hstep
    subst hstep
    have hfreed : LocksInv (s.setPhase dev .freed) := h.setPhase dev nofun (fun _ => Or.inr rfl)
    exact hfreed.goto (by rw [State.setPhase, hpc]; rfl) trivial

theorem locksInv_workerStep {s s' : State} (h : LocksInv s) (hstep : workerStep s = some s') :
    LocksInv s' := by
  cases hw : s.worker with
  | idle =>
    simp only [workerStep, hw] at hstep
    obtain ⟨p, -, rfl⟩ := Option.map_eq_some_iff.mp hstep
    exact h.setWorker _ _
  | wakeUp e dev =>
    simp only [workerStep, hw, Option.some.injEq] at hstep
    subst hstep
    exact h.setWorker _ _
  | clearKey e dev =>
    simp only [workerStep, hw, Option.some.injEq] at hstep
    subst hstep
    exact (h.setNtkey (-1)).setWorker _ _
  | recycle e =>
    simp only [workerStep, hw, Option.some.injEq] at hstep
    subst hstep
    exact h.setWorker _ _
  | finish e =>
    simp only [workerStep, hw, Option.some.injEq] at hstep
    subst hstep
    exact h.setWorker _ _

theorem locksInv_step {s s' : State} {a : Action} (h : LocksInv s)
    (hstep : step s a = some s') : LocksInv s' := by
  cases a with
  | «open» dev platform =>
    simp only [step] at hstep
    split at hstep
    · rename_i hunused
      cases hstep
      have hopened : LocksInv (s.setPhase dev .opened) :=
        h.setPhase dev nofun (by rw [hunused]; simp)
      -- nobody held the mutex of a device that was not there
      have hfree : (s.devs dev).mutex = none := by
        cases hmutex : (s.devs dev).mutex with
        | none => rfl
        | some t => exact absurd hunused (h.phase_of_holds ((h.mutex t dev).mpr hmutex))
      refine hopened.congr rfl ?_ (fun _ hdev => hdev) (fun _ hdev => hdev)
      intro dev'
      by_cases hdev : dev' = dev
      · subst hdev; simp [State.setPhase, hfree]
      · simp [State.setPhase, hdev]
    · cases hstep
  | poll t dev =>
    simp only [step] at hstep
    split at hstep
    · rename_i hidle
      cases hstep
      exact h.goto (by rw [hidle.1]; rfl) (by rw [Pc.Fits, hidle.2]; nofun)
    · cases hstep
  | close t dev =>
    simp only [step] at hstep
    split at hstep
    · rename_i hidle
      cases hstep
      have hclosing : LocksInv (s.setPhase dev .closing) :=
        h.setPhase dev nofun (by rw [hidle.2]; simp)
      exact hclosing.goto (by rw [State.setPhase, hidle.1]; rfl) (by simp [Pc.Fits, State.setPhase])
    · cases hstep
  | task t ok => exact locksInv_taskStep h hstep
  | signal evtype qualifier =>
    cases hstep
    exact h.setNotifier _
  | worker => exact locksInv_workerStep h hstep

/-! ### Entries -/

/-- An entry in the hands of a call or of the worker is on no list, and in no other hands; the
    one of a call describes the call's device. -/
structure Held (s : State) : Prop where
  lists : s.notifier.Lists
  task_arg : ∀ t dev e, s.tasks t = .pollLink dev e → (s.notifier.info e).arg = dev
  task_loose : ∀ t e, (s.tasks t).loose = some e → s.notifier.Loose e
  task_inj : ∀ t t' e, (s.tasks t).loose = some e → (s.tasks t').loose = some e → t = t'
  worker_loose : ∀ e, s.worker.loose = some e → s.notifier.Loose e
  worker_ne : ∀ t e, s.worker.loose = some e → (s.tasks t).loose ≠ some e

theorem held_init : Held init where
  lists := lists_init
  task_arg := nofun
  task_loose := nofun
  task_inj := nofun
  worker_loose := nofun
  worker_ne := nofun

section Entries

variable {s : State} (h : Held s) {t : Nat} {pc : Pc}

include h

/-- Devices do not matter. -/
theorem Held.congr {s' : State} (hnotifier : s'.notifier = s.notifier)
    (htasks : s'.tasks = s.tasks) (hworker : s'.worker = s.worker) : Held s' where
  lists := by rw [hnotifier]; exact h.lists
  task_arg := by rw [hnotifier, htasks]; exact h.task_arg
  task_loose := by rw [hnotifier, htasks]; exact h.task_loose
  task_inj := by rw [htasks]; exact h.task_inj
  worker_loose := by rw [hnotifier, hworker]; exact h.worker_loose
  worker_ne := by rw [htasks, hworker]; exact h.worker_ne

/-- A call moves on with no entry in its hands. -/
theorem Held.goto (hpc : pc.loose = none) : Held (s.goto t pc) := by
  have hloose : ∀ t' e, ((s.goto t pc).tasks t').loose = some e →
      (s.tasks t').loose = some e := by
    intro t' e he
    by_cases ht : t' = t
    · subst ht; simp [State.goto, hpc] at he
    · simpa [State.goto, ht] using he
  exact
    { lists := h.lists
      task_arg := by
        intro t' dev e hlink
        by_cases ht : t' = t
        · subst ht
          simp only [State.goto, Function.update_self] at hlink
          rw [hlink] at hpc
          cases hpc
        · exact h.task_arg t' dev e (by simpa [State.goto, ht] using hlink)
      task_loose := fun t' e he => h.task_loose t' e (hloose t' e he)
      task_inj := fun t₁ t₂ e h₁ h₂ => h.task_inj t₁ t₂ e (hloose t₁ e h₁) (hloose t₂ e h₂)
      worker_loose := h.worker_loose
      worker_ne := fun t' e he ht => h.worker_ne t' e he (hloose t' e ht) }

/-- The entries that are in no hands are moved between the lists. -/
theorem Held.setNotifier {notifier : WorkNotifier} (hlists : notifier.Lists)
    (hentries : notifier.entries = s.notifier.entries)
    (hloose : ∀ e, s.notifier.Loose e → notifier.Loose e) :
    Held { s with notifier := notifier } where
  lists := hlists
  task_arg := by
    intro t dev e hlink
    rw [info, hentries]
    exact h.task_arg t dev e hlink
  task_loose := fun t e he => hloose e (h.task_loose t e he)
  task_inj := h.task_inj
  worker_loose := fun e he => hloose e (h.worker_loose e he)
  worker_ne := h.worker_ne

/-- A call takes an entry for its setup. -/
theorem Held.setup {info : NotifierInfo} {dev e : Nat} {notifier : WorkNotifier}
    (hset : Prepares s.notifier info e notifier) (harg : info.arg = dev) :
    Held ({ s with notifier := notifier }.goto t (.pollLink dev e)) := by
  have hother : ∀ t', t' ≠ t → (({ s with notifier := notifier }.goto t
      (.pollLink dev e)).tasks t').loose = (s.tasks t').loose := by
    intro t' ht
    simp [State.goto, ht]
  have hself : (({ s with notifier := notifier }.goto t (.pollLink dev e)).tasks t).loose =
      some e := by
    simp [State.goto, Pc.loose]
  -- what is in other hands was loose before, and the new entry was not
  have hne : ∀ t', (s.tasks t').loose ≠ some e :=
    fun t' he => hset.not_loose (h.task_loose t' e he)
  exact
    { lists := hset.lists
      task_arg := by
        intro t' dev' e' hlink
        by_cases ht : t' = t
        · subst ht
          simp only [State.goto, Function.update_self, Pc.pollLink.injEq] at hlink
          obtain ⟨rfl, rfl⟩ := hlink
          rw [State.goto_notifier, hset.info_self]
          exact harg
        · have hlink' : s.tasks t' = .pollLink dev' e' := by simpa [State.goto, ht] using hlink
          have hne' : e' ≠ e := by
            intro heq
            subst heq
            exact hne t' (by rw [hlink']; rfl)
          rw [State.goto_notifier, WorkNotifier.info, hset.entries e' hne']
          exact h.task_arg t' dev' e' hlink'
      task_loose := by
        intro t' e' he'
        by_cases ht : t' = t
        · subst ht
          rw [hself] at he'
          cases he'
          exact hset.loose
        · rw [hother t' ht] at he'
          exact hset.loose_mono e' (h.task_loose t' e' he')
      task_inj := by
        intro t₁ t₂ e' h₁ h₂
        by_cases ht₁ : t₁ = t
        · by_cases ht₂ : t₂ = t
          · rw [ht₁, ht₂]
          · rw [ht₁, hself] at h₁
            cases h₁
            rw [hother t₂ ht₂] at h₂
            exact absurd h₂ (hne t₂)
        · rw [hother t₁ ht₁] at h₁
          by_cases ht₂ : t₂ = t
          · rw [ht₂, hself] at h₂
            cases h₂
            exact absurd h₁ (hne t₁)
          · rw [hother t₂ ht₂] at h₂
            exact h.task_inj t₁ t₂ e' h₁ h₂
      worker_loose := fun e' he' => hset.loose_mono e' (h.worker_loose e' he')
      worker_ne := by
        intro t' e' he' ht'
        by_cases ht : t' = t
        · subst ht
          rw [hself] at ht'
          cases ht'
          exact hset.not_loose (h.worker_loose e he')
        · rw [hother t' ht] at ht'
          exact h.worker_ne t' e' he' ht' }

/-- A call links its entry. -/
theorem Held.link {dev e : Nat} {ret : Int} (hpc : s.tasks t = .pollLink dev e) :
    Held ({ s with notifier := (s.notifier.setupLink e).1 }.goto t (.pollStore dev ret)) := by
  have hmine : (s.tasks t).loose = some e := by rw [hpc]; rfl
  -- the other hands do not hold the entry, so what they hold stays loose
  have hothers : ∀ t' e', ((s.goto t (.pollStore dev ret)).tasks t').loose = some e' →
      e' ≠ e ∧ (s.tasks t').loose = some e' := by
    intro t' e' he'
    by_cases ht : t' = t
    · subst ht; simp [State.goto, Pc.loose] at he'
    · have he : (s.tasks t').loose = some e' := by simpa [State.goto, ht] using he'
      refine ⟨?_, he⟩
      intro heq
      subst heq
      exact ht (h.task_inj t' t e' he hmine)
  exact
    { lists := h.lists.setupLink (h.task_loose t e hmine)
      task_arg := by
        intro t' dev' e' hlink
        -- the call that links has moved on
        have ht : t' ≠ t := by
          intro heq
          subst heq
          simp [State.goto] at hlink
        rw [State.goto_notifier, setupLink_info]
        exact h.task_arg t' dev' e' (by simpa [State.goto, ht] using hlink)
      task_loose := by
        intro t' e' he'
        obtain ⟨hne, he⟩ := hothers t' e' he'
        exact (loose_setupLink_iff e').mpr ⟨hne, h.task_loose t' e' he⟩
      task_inj := fun t₁ t₂ e' h₁ h₂ =>
        h.task_inj t₁ t₂ e' (hothers t₁ e' h₁).2 (hothers t₂ e' h₂).2
      worker_loose := by
        intro e' he'
        -- the worker's entry is not the one of a call
        have hne : e' ≠ e := by
          intro heq
          subst heq
          exact h.worker_ne t e' he' hmine
        exact (loose_setupLink_iff e').mpr ⟨hne, h.worker_loose e' he'⟩
      worker_ne := fun t' e' he' ht' => h.worker_ne t' e' he' (hothers t' e' ht').2 }

/-- The worker goes on with the entry it has, or without it once it is done. -/
theorem Held.setWorker {worker : Worker}
    (hworker : ∀ e, worker.loose = some e → s.worker.loose = some e) :
    Held { s with worker := worker } where
  lists := h.lists
  task_arg := h.task_arg
  task_loose := h.task_loose
  task_inj := h.task_inj
  worker_loose := fun e he => h.worker_loose e (hworker e he)
  worker_ne := fun t e he => h.worker_ne t e (hworker e he)

/-- The worker takes the entry of the next work. -/
theorem Held.start {e dev : Nat} {notifier : WorkNotifier}
    (hstart : Takes s.notifier e notifier) :
    Held { s with notifier := notifier, worker := .wakeUp e dev } where
  lists := hstart.lists
  task_arg := by
    intro t dev' e' hlink
    rw [info, hstart.entries]
    exact h.task_arg t dev' e' hlink
  task_loose := fun t e' he' => (hstart.loose_iff e').mpr (Or.inr (h.task_loose t e' he'))
  task_inj := h.task_inj
  worker_loose := by
    intro e' he'
    cases he'
    exact (hstart.loose_iff e).mpr (Or.inl rfl)
  worker_ne := by
    intro t e' he' ht
    cases he'
    exact hstart.not_loose (h.task_loose t e ht)

/-- The worker gives its entry back. -/
theorem Held.recycle {e : Nat} (hw : s.worker = .recycle e) :
    Held { s with notifier := s.notifier.recycle e, worker := .finish e } := by
  have hmine : s.worker.loose = some e := by rw [hw]; rfl
  exact
    { lists := h.lists.recycle (h.worker_loose e hmine)
      task_arg := h.task_arg
      task_loose := by
        intro t e' he'
        have hne : e' ≠ e := by
          intro heq
          subst heq
          exact h.worker_ne t e' hmine he'
        exact (loose_recycle_iff e').mpr ⟨hne, h.task_loose t e' he'⟩
      task_inj := h.task_inj
      worker_loose := nofun
      worker_ne := nofun }

end Entries

theorem held_taskStep {s s' : State} {t : Nat} {ok : Bool} (h : Held s)
    (hstep : taskStep s t ok = some s') : Held s' := by
  cases hpc : s.tasks t with
  | pollSetup dev =>
    simp only [taskStep, hpc] at hstep
    split at hstep
    · rename_i e notifier hset
      cases hstep
      exact h.setup (h.lists.setupEntry hset) rfl
    · cases hstep
      exact h.goto rfl
  | pollLink dev e =>
    simp only [taskStep, hpc, Option.some.injEq] at hstep
    subst hstep
    exact h.link hpc
  | closeTeardown dev =>
    simp only [taskStep, hpc, Option.some.injEq] at hstep
    subst hstep
    refine Held.goto ?_ rfl
    exact h.setNotifier (h.lists.teardown _) (moves_teardown s.notifier _).entries
      (fun e he => ((moves_teardown s.notifier _).loose_iff e).mpr he)
  | _ =>
    -- the other moves leave the notifications alone
    simp only [taskStep, hpc] at hstep
    repeat' split at hstep
    all_goals cases hstep
    all_goals
      refine Held.goto ?_ rfl
      exact h.congr rfl rfl rfl

theorem held_workerStep {s s' : State} (h : Held s)
    (hstep : workerStep s = some s') : Held s' := by
  cases hw : s.worker with
  | idle =>
    simp only [workerStep, hw] at hstep
    obtain ⟨⟨e, notifier⟩, hstart, rfl⟩ := Option.map_eq_some_iff.mp hstep
    exact h.start (h.lists.startWork hstart)
  | wakeUp e dev =>
    simp only [workerStep, hw, Option.some.injEq] at hstep
    subst hstep
    exact h.setWorker (by rw [hw]; exact fun _ he => he)
  | clearKey e dev =>
    simp only [workerStep, hw, Option.some.injEq] at hstep
    subst hstep
    have hset : Held (s.setNtkey dev (-1)) := h.congr rfl rfl rfl
    exact hset.setWorker (by rw [State.setNtkey, hw]; exact fun _ he => he)
  | recycle e =>
    simp only [workerStep, hw, Option.some.injEq] at hstep
    subst hstep
    exact h.recycle hw
  | finish e =>
    simp only [workerStep, hw, Option.some.injEq] at hstep
    subst hstep
    have hset := h.setNotifier (h.lists.finishWork e) rfl (fun _ he => he)
    exact hset.setWorker nofun

theorem held_step {s s' : State} {a : Action} (h : Held s)
    (hstep : step s a = some s') : Held s' := by
  cases a with
  | «open» dev platform =>
    simp only [step] at hstep
    split at hstep
    · cases hstep
      exact h.congr rfl rfl rfl
    · cases hstep
  | poll t dev =>
    simp only [step] at hstep
    split at hstep
    · cases hstep
      exact h.goto rfl
    · cases hstep
  | close t dev =>
    simp only [step] at hstep
    split at hstep
    · cases hstep
      refine Held.goto ?_ rfl
      exact h.congr rfl rfl rfl
    · cases hstep
  | task t ok => exact held_taskStep h hstep
  | signal evtype qualifier =>
    cases hstep
    exact h.setNotifier (h.lists.signal evtype qualifier) rfl
      (fun e he => ((h.lists.moves_signal evtype qualifier).loose_iff e).mpr he)
  | worker => exact held_workerStep h hstep

/-! ### Keys -/

/-- The same with the keys in order. -/
structure EntriesInv (s : State) : Prop where
  wf : s.notifier.Wf
  task_arg : ∀ t dev e, s.tasks t = .pollLink dev e → (s.notifier.info e).arg = dev
  task_loose : ∀ t e, (s.tasks t).loose = some e → s.notifier.Loose e
  task_inj : ∀ t t' e, (s.tasks t).loose = some e → (s.tasks t').loose = some e → t = t'
  worker_loose : ∀ e, s.worker.loose = some e → s.notifier.Loose e
  worker_ne : ∀ t e, s.worker.loose = some e → (s.tasks t).loose ≠ some e

theorem EntriesInv.held {s : State} (h : EntriesInv s) : Held s :=
  ⟨h.wf.lists, h.task_arg, h.task_loose, h.task_inj, h.worker_loose, h.worker_ne⟩

theorem Held.entries {s : State} (h : Held s) (hwf : s.notifier.Wf) : EntriesInv s :=
  ⟨hwf, h.task_arg, h.task_loose, h.task_inj, h.worker_loose, h.worker_ne⟩

theorem entriesInv_init : EntriesInv init := held_init.entries wf_init

theorem EntriesInv.congr {s s' : State} (h : EntriesInv s) (hnotifier : s'.notifier = s.notifier)
    (htasks : s'.tasks = s.tasks) (hworker : s'.worker = s.worker) : EntriesInv s' :=
  (h.held.congr hnotifier htasks hworker).entries (by rw [hnotifier]; exact h.wf)

/-- A link is the only step that makes a key. -/
theorem wf_step {s s' : State} {a : Action} (h : EntriesInv s) (htimely : Timely s a)
    (hstep : step s a = some s') : s'.notifier.Wf := by
  cases a with
  | task t ok =>
    cases hpc : s.tasks t with
    | pollSetup dev =>
      simp only [step, taskStep, hpc] at hstep
      split at hstep
      · rename_i e notifier hset
        cases hstep
        exact (setupEntry_spec h.wf hset).wf
      · cases hstep
        exact h.wf
    | pollLink dev e =>
      simp only [step, taskStep, hpc, Option.some.injEq] at hstep
      subst hstep
      obtain ⟨hkey, -⟩ := htimely.1 dev (by rw [hpc]; rfl)
      exact wf_setupLink h.wf (h.task_loose t e (by rw [hpc]; rfl)) (by omega)
    | closeTeardown dev =>
      simp only [step, taskStep, hpc, Option.some.injEq] at hstep
      subst hstep
      exact wf_work_notifier_teardown h.wf _
    | _ =>
      simp only [step, taskStep, hpc] at hstep
      repeat' split at hstep
      all_goals cases hstep
      all_goals exact h.wf
  | signal evtype qualifier =>
    cases hstep
    exact wf_work_notifier_signal h.wf evtype qualifier
  | worker =>
    cases hw : s.worker with
    | idle =>
      simp only [step, workerStep, hw] at hstep
      obtain ⟨⟨e, notifier⟩, hstart, rfl⟩ := Option.map_eq_some_iff.mp hstep
      exact (startWork_spec h.wf hstart).wf
    | recycle e =>
      simp only [step, workerStep, hw, Option.some.injEq] at hstep
      subst hstep
      exact wf_recycle h.wf (h.worker_loose e (by rw [hw]; rfl))
    | finish e =>
      simp only [step, workerStep, hw, Option.some.injEq] at hstep
      subst hstep
      exact wf_finishWork h.wf e
    | _ =>
      simp only [step, workerStep, hw, Option.some.injEq] at hstep
      subst hstep
      exact h.wf
  | _ =>
    simp only [step] at hstep
    split at hstep
    · cases hstep
      exact h.wf
    · cases hstep

theorem entriesInv_step {s s' : State} {a : Action} (h : EntriesInv s) (htimely : Timely s a)
    (hstep : step s a = some s') : EntriesInv s' :=
  (held_step h.held hstep).entries (wf_step h htimely hstep)

end Hcrtos.Native.SndPoll
