import Hcrtos.Native.SndPoll
import Hcrtos.Spec.SndPollTasks

/-!
# Wake-ups of polls

A poll that is told to wait has a notification that will wake it only if it could rely on one when
it looked at the key of the device. Once it can, no event is missed: a signal turns the
notification into work, the worker wakes whoever is in the wait queue, and the next poll registers
again. What is left are events between the reading of the frames and the registration, and polls
that rely on a key whose notification has fired.

## Key results

- `Keeps`: pending notifications stay or are queued, and queued ones stay
- `inv_pollStep`, `inv_workerStep`, `inv_interrupt`: the steps keep the invariant
- `unmissed_of_heard`: along a run whose steps are heard, no event is missed
- `unmissed_fails`: an event between the reading of the frames and the registration
-/

namespace Hcrtos.Native.SndEvents

open Lts SndPoll WorkNotifier

/-! ### Notifications -/

/-- A step of `SndPoll` that loses no notification. -/
structure Keeps (s s' : SndPoll.State) : Prop where
  used : ∀ dev, s.phase dev ≠ .unused → s'.phase dev ≠ .unused
  platform : ∀ dev, s.phase dev ≠ .unused → (s'.devs dev).platform = (s.devs dev).platform
  info : ∀ e, s.notifier.Loose e → s'.notifier.info e = s.notifier.info e
  armed : ∀ dev, s.phase dev ≠ .unused → Armed s dev → Armed s' dev ∨ Coming s' dev
  coming : ∀ dev, Coming s dev → Coming s' dev

section

variable {s s' : SndPoll.State} {dev : Nat}

theorem armed_mono (h : Armed s dev)
    (hpending : ∀ e ∈ s.notifier.g_notifier_pending,
      e ∈ s'.notifier.g_notifier_pending ∧ s'.notifier.info e = s.notifier.info e)
    (hplatform : (s'.devs dev).platform = (s.devs dev).platform) : Armed s' dev := by
  obtain ⟨e, he, hinfo⟩ := h
  obtain ⟨he', hinfo'⟩ := hpending e he
  exact ⟨e, he', by rw [hinfo', hinfo, hplatform]⟩

theorem coming_mono (h : Coming s dev)
    (hq : ∀ e ∈ s.notifier.g_hpwork.q,
      e ∈ s'.notifier.g_hpwork.q ∧ s'.notifier.info e = s.notifier.info e)
    (hworker : ∀ e, s.worker = .wakeUp e dev → s'.worker = .wakeUp e dev) : Coming s' dev := by
  rcases h with ⟨e, he, hinfo⟩ | ⟨e, he⟩
  · obtain ⟨he', hinfo'⟩ := hq e he
    exact .inl ⟨e, he', by rw [hinfo', hinfo]⟩
  · exact .inr ⟨e, hworker e he⟩

/-- The notifications stay as they are. -/
theorem Keeps.of_notifier (hnotifier : s'.notifier = s.notifier)
    (hworker : ∀ e dev, s.worker = .wakeUp e dev → s'.worker = .wakeUp e dev)
    (hused : ∀ dev, s.phase dev ≠ .unused → s'.phase dev ≠ .unused)
    (hplatform : ∀ dev, s.phase dev ≠ .unused →
      (s'.devs dev).platform = (s.devs dev).platform) : Keeps s s' where
  used := hused
  platform := hplatform
  info e _ := by rw [hnotifier]
  armed dev hdev h := .inl (armed_mono h (by rw [hnotifier]; exact fun e he => ⟨he, rfl⟩)
    (hplatform dev hdev))
  coming dev h := coming_mono h (by rw [hnotifier]; exact fun e he => ⟨he, rfl⟩)
    fun e => hworker e dev

/-- The notifications move, and nothing else. -/
theorem Keeps.setNotifier {notifier : WorkNotifier}
    (hinfo : ∀ e, s.notifier.Loose e → notifier.info e = s.notifier.info e)
    (hpending : ∀ e ∈ s.notifier.g_notifier_pending,
      (e ∈ notifier.g_notifier_pending ∨ e ∈ notifier.g_hpwork.q) ∧
        notifier.info e = s.notifier.info e)
    (hq : ∀ e ∈ s.notifier.g_hpwork.q,
      e ∈ notifier.g_hpwork.q ∧ notifier.info e = s.notifier.info e)
    (hnotifier : s'.notifier = notifier) (hworker : s'.worker = s.worker)
    (hphase : s'.phase = s.phase) (hdevs : s'.devs = s.devs) : Keeps s s' where
  used dev h := by rw [hphase]; exact h
  platform dev _ := by rw [hdevs]
  info e he := by rw [hnotifier]; exact hinfo e he
  armed dev _ h := by
    obtain ⟨e, he, harg⟩ := h
    obtain ⟨hmem | hmem, hsame⟩ := hpending e he
    · left
      refine ⟨e, ?_, ?_⟩
      · rw [hnotifier]
        exact hmem
      · rw [hnotifier, hsame, harg, hdevs]
    · right; left
      refine ⟨e, ?_, ?_⟩
      · rw [hnotifier]
        exact hmem
      · rw [hnotifier, hsame, harg]
  coming dev h := coming_mono h (by rw [hnotifier]; exact hq) fun e he => by rw [hworker, he]

end

/-- A setup clears an entry that nobody has seen. -/
theorem keeps_setup {s s' : SndPoll.State} {info : NotifierInfo} {e : Nat}
    (h : Prepares s.notifier info e s'.notifier) (hworker : s'.worker = s.worker)
    (hphase : s'.phase = s.phase) (hdevs : s'.devs = s.devs) : Keeps s s' := by
  have hne : ∀ e', e' ∈ s.notifier.g_notifier_pending ∨ e' ∈ s.notifier.g_hpwork.q → e' ≠ e := by
    intro e' he' heq
    subst heq
    rw [← h.pending, ← h.q] at he'
    exact h.loose.1 (mem_linked.mpr (.inr he'))
  have hinfo : ∀ e', e' ≠ e → s'.notifier.info e' = s.notifier.info e' := fun e' he' => by
    rw [WorkNotifier.info, h.entries e' he']
    rfl
  refine .setNotifier (fun e' he' => hinfo e' fun heq => h.not_loose (heq ▸ he'))
    (fun e' he' => ⟨.inl ?_, hinfo e' (hne e' (.inl he'))⟩)
    (fun e' he' => ⟨?_, hinfo e' (hne e' (.inr he'))⟩) rfl hworker hphase hdevs
  · rw [h.pending]
    exact he'
  · rw [h.q]
    exact he'

/-- A signal queues what it takes from the pending notifications. -/
theorem keeps_signal {s : SndPoll.State} (h : Held s) (evtype qualifier : Nat) :
    Keeps s { s with notifier := s.notifier.work_notifier_signal evtype qualifier } := by
  obtain ⟨hpending, hq, -, -⟩ := h.lists.signal_spec evtype qualifier
  refine @Keeps.setNotifier s _ (s.notifier.work_notifier_signal evtype qualifier) (fun _ _ => rfl)
    (fun e he => ⟨?_, rfl⟩) (fun e he => ⟨?_, rfl⟩) rfl rfl rfl rfl
  · rw [hpending, hq, List.mem_append, List.mem_filter, List.mem_filter]
    cases hw : Waits s.notifier.entries evtype qualifier e with
    | false => exact .inl ⟨he, rfl⟩
    | true => exact .inr (.inr ⟨he, rfl⟩)
  · rw [hq, List.mem_append]
    exact .inl he

/-- And it queues every notification of its platform. -/
theorem coming_signal {s : SndPoll.State} (h : Held s) {dev : Nat} (harmed : Armed s dev) :
    Coming { s with
      notifier := s.notifier.work_notifier_signal SND_EVENT_AVAIL (s.devs dev).platform } dev := by
  obtain ⟨e, he, hinfo⟩ := harmed
  refine .inl ⟨e, ?_, congrArg NotifierInfo.arg hinfo⟩
  show e ∈ (s.notifier.work_notifier_signal SND_EVENT_AVAIL (s.devs dev).platform).g_hpwork.q
  rw [(h.lists.signal_spec _ _).2.1, List.mem_append, List.mem_filter]
  have hinfo' : (s.notifier.entries e).info =
      ⟨SND_EVENT_AVAIL, (s.devs dev).platform, dev⟩ := hinfo
  exact .inr ⟨he, by simp [Waits, hinfo']⟩

/-- A link adds a pending notification. -/
theorem keeps_link {s s' : SndPoll.State} {e : Nat}
    (hnotifier : s'.notifier = (s.notifier.setupLink e).1) (hworker : s'.worker = s.worker)
    (hphase : s'.phase = s.phase) (hdevs : s'.devs = s.devs) : Keeps s s' :=
  .setNotifier (fun e' _ => setupLink_info e')
    (fun e' he' => ⟨.inl (List.mem_append_left _ he'), setupLink_info e'⟩)
    (fun e' he' => ⟨he', setupLink_info e'⟩) hnotifier hworker hphase hdevs

@[simp] theorem setMutex_platform (s : SndPoll.State) (dev : Nat) (mutex : Option Nat)
    (dev' : Nat) : ((s.setMutex dev mutex).devs dev').platform = (s.devs dev').platform := by
  by_cases h : dev' = dev
  · subst h
    simp [SndPoll.State.setMutex]
  · simp [SndPoll.State.setMutex, h]

@[simp] theorem setNtkey_platform (s : SndPoll.State) (dev : Nat) (ntkey : Int) (dev' : Nat) :
    ((s.setNtkey dev ntkey).devs dev').platform = (s.devs dev').platform := by
  by_cases h : dev' = dev
  · subst h
    simp [SndPoll.State.setNtkey]
  · simp [SndPoll.State.setNtkey, h]

/-- The places in `snd_poll`. -/
def Polls : Pc → Prop
  | .pollLock _ | .pollCheck _ | .pollSetup _ | .pollLink _ _ | .pollStore _ _ | .pollUnlock _ =>
    True
  | _ => False

/-- What a task does in `snd_poll` loses no notification. -/
theorem keeps_taskStep {s s' : SndPoll.State} (h : Held s) {t : Nat} {ok : Bool}
    (hpolls : Polls (s.tasks t)) (hstep : taskStep s t ok = some s') : Keeps s s' := by
  cases hpc : s.tasks t with
  | pollSetup dev =>
    simp only [taskStep, hpc] at hstep
    split at hstep
    · rename_i e notifier hset
      cases hstep
      exact keeps_setup (h.lists.setupEntry hset) rfl rfl rfl
    · cases hstep
      exact .of_notifier rfl (fun _ _ h => h) (fun _ h => h) fun _ _ => rfl
  | pollLink dev e =>
    simp only [taskStep, hpc, Option.some.injEq] at hstep
    subst hstep
    exact keeps_link rfl rfl rfl rfl
  | pollLock dev =>
    simp only [taskStep, hpc] at hstep
    split at hstep
    · cases hstep
      exact .of_notifier rfl (fun _ _ h => h) (fun _ h => h) fun _ _ => setMutex_platform _ _ _ _
    · cases hstep
  | pollCheck dev =>
    simp only [taskStep, hpc] at hstep
    split at hstep
    · cases hstep
      exact .of_notifier rfl (fun _ _ h => h) (fun _ h => h) fun _ _ => rfl
    · split at hstep
      all_goals
        cases hstep
        exact .of_notifier rfl (fun _ _ h => h) (fun _ h => h) fun _ _ => rfl
  | pollStore dev ret =>
    simp only [taskStep, hpc, Option.some.injEq] at hstep
    subst hstep
    exact .of_notifier rfl (fun _ _ h => h) (fun _ h => h) fun _ _ => setNtkey_platform _ _ _ _
  | pollUnlock dev =>
    simp only [taskStep, hpc, Option.some.injEq] at hstep
    subst hstep
    exact .of_notifier rfl (fun _ _ h => h) (fun _ h => h) fun _ _ => setMutex_platform _ _ _ _
  | _ =>
    rw [hpc] at hpolls
    exact hpolls.elim

/-- The thread of the queue takes what is queued, and clears up behind it. -/
theorem keeps_workerStep {s s' : SndPoll.State} (h : Held s)
    (hwake : ∀ e dev, s.worker ≠ .wakeUp e dev) (hstep : SndPoll.workerStep s = some s') :
    Keeps s s' := by
  cases hw : s.worker with
  | idle =>
    simp only [SndPoll.workerStep, hw] at hstep
    obtain ⟨⟨e, notifier⟩, hstart, rfl⟩ := Option.map_eq_some_iff.mp hstep
    have htakes := h.lists.startWork hstart
    have hinfo : ∀ e', notifier.info e' = s.notifier.info e' := fun e' => by
      rw [WorkNotifier.info, htakes.entries]
      rfl
    exact
      { used := fun _ h => h
        platform := fun _ _ => rfl
        info := fun e' _ => hinfo e'
        armed := fun dev _ harmed => .inl (armed_mono harmed (fun e' he' =>
          ⟨by show e' ∈ notifier.g_notifier_pending; rw [htakes.pending]; exact he', hinfo e'⟩) rfl)
        coming := by
          intro dev hcoming
          rcases hcoming with ⟨e', he', harg⟩ | ⟨e', he'⟩
          · rcases (htakes.mem_q e').mp he' with rfl | hmem
            · -- this is the notification that the worker begins with
              exact .inr ⟨e', by show Worker.wakeUp e' _ = _; rw [hinfo, harg]⟩
            · exact .inl ⟨e', hmem, by show (notifier.info e').arg = dev; rw [hinfo, harg]⟩
          · exact absurd he' (hwake e' dev) }
  | wakeUp e dev => exact absurd hw (hwake e dev)
  | clearKey e dev =>
    simp only [SndPoll.workerStep, hw, Option.some.injEq] at hstep
    subst hstep
    exact .of_notifier rfl (fun e' dev' he' => absurd he' (hwake e' dev')) (fun _ h => h)
      fun _ _ => setNtkey_platform _ _ _ _
  | recycle e =>
    simp only [SndPoll.workerStep, hw, Option.some.injEq] at hstep
    subst hstep
    exact
      { used := fun _ h => h
        platform := fun _ _ => rfl
        info := fun _ _ => rfl
        armed := fun dev _ harmed => .inl (armed_mono harmed (fun _ he => ⟨he, rfl⟩) rfl)
        coming := fun dev hcoming => coming_mono hcoming (fun _ he => ⟨he, rfl⟩)
          fun e' he' => absurd he' (hwake e' dev) }
  | finish e =>
    simp only [SndPoll.workerStep, hw, Option.some.injEq] at hstep
    subst hstep
    exact
      { used := fun _ h => h
        platform := fun _ _ => rfl
        info := fun _ _ => rfl
        armed := fun dev _ harmed => .inl (armed_mono harmed (fun _ he => ⟨he, rfl⟩) rfl)
        coming := fun dev hcoming => coming_mono hcoming (fun _ he => ⟨he, rfl⟩)
          fun e' he' => absurd he' (hwake e' dev) }

/-! ### The invariant -/

/-- What a poller knows where its task is. -/
def Place : Pc → Poller → Prop
  | .idle, p => p.told = true ↔ p.ready = some false
  | .pollLock dev, p => p.told = false ∧ p.ready = none ∧ ∀ d ∈ p.waits, d = dev
  | .pollCheck dev, p =>
    p.told = false ∧ (∀ d ∈ p.waits, d = dev) ∧ (p.waits = none → p.ready = none)
  | .pollSetup dev, p | .pollLink dev _, p | .pollStore dev _, p =>
    p.told = false ∧ p.waits = some dev ∧ p.ready = some false
  | .pollUnlock dev, p => p.told = false ∧ p.waits = some dev ∧ p.ready ≠ none
  | _, _ => False

/-- The places where a poller that has to wait relies on a wake-up. -/
def Relies : Pc → Prop
  | .idle | .pollStore _ _ | .pollUnlock _ => True
  | _ => False

structure TaskInv (s : State) (t : Nat) : Prop where
  place : Place (s.poll.tasks t) (s.poller t)
  link : ∀ dev e, s.poll.tasks t = .pollLink dev e →
    s.poll.notifier.info e = ⟨SND_EVENT_AVAIL, (s.poll.devs dev).platform, dev⟩
  used : ∀ dev, (s.poller t).waits = some dev → s.poll.phase dev ≠ .unused
  event : ∀ dev, (s.poller t).waits = some dev → (s.poller t).ready = some false →
    (s.poller t).event = true → (s.poller t).woken = true ∨ Coming s.poll dev
  relies : ∀ dev, (s.poller t).waits = some dev → (s.poller t).ready = some false →
    Relies (s.poll.tasks t) → Covered s t dev

structure Inv (s : State) : Prop where
  held : Held s.poll
  locks : LocksInv s.poll
  task : ∀ t, TaskInv s t

theorem inv_init : Inv init where
  held := held_init
  locks := locksInv_init
  task _ := ⟨by simp [Place, init, SndPoll.init, Poller.fresh], nofun, nofun, nofun, nofun⟩

theorem Inv.unmissed {s : State} (h : Inv s) : Unmissed s := by
  intro t dev htold hwaits hevent
  have ht := h.task t
  have hplace := ht.place
  -- only a task that is idle has been told anything
  have hready : (s.poller t).ready = some false := by
    cases hpc : s.poll.tasks t <;> rw [hpc] at hplace <;>
      simp_all [Place]
  exact ht.event dev hwaits hready hevent

/-- A poller that has read that the device is not ready has not looked at the key yet, or relies
    on a wake-up. -/
theorem TaskInv.undecided_or_relies {s : State} {t dev : Nat} (h : TaskInv s t)
    (hwaits : (s.poller t).waits = some dev) (hready : (s.poller t).ready = some false) :
    Undecided s t dev ∨ Relies (s.poll.tasks t) := by
  have hplace := h.place
  unfold Undecided
  cases hpc : s.poll.tasks t <;> rw [hpc] at hplace <;> simp_all [Place, Relies]

/-- A task that stays where it is, in a step that loses no notification. -/
theorem TaskInv.keep {s s' : State} {t : Nat} (h : Inv s) (hk : Keeps s.poll s'.poll)
    (htask : s'.poll.tasks t = s.poll.tasks t) (hpoller : s'.poller t = s.poller t) :
    TaskInv s' t := by
  have ht := h.task t
  constructor
  · rw [htask, hpoller]
    exact ht.place
  · intro dev e hpc
    rw [htask] at hpc
    have hloose := h.held.task_loose t e (by rw [hpc]; rfl)
    have hfits := h.locks.fits t
    rw [hpc] at hfits
    rw [hk.info e hloose, hk.platform dev hfits]
    exact ht.link dev e hpc
  · intro dev hwaits
    rw [hpoller] at hwaits
    exact hk.used dev (ht.used dev hwaits)
  · intro dev hwaits hready hevent
    rw [hpoller] at hwaits hready hevent ⊢
    exact (ht.event dev hwaits hready hevent).imp_right (hk.coming dev)
  · intro dev hwaits hready hrelies
    rw [hpoller] at hwaits hready
    rw [htask] at hrelies
    unfold Covered
    rw [hpoller]
    rcases ht.relies dev hwaits hready hrelies with hwoken | harmed | hcoming
    · exact .inl hwoken
    · exact .inr (hk.armed dev (ht.used dev hwaits) harmed)
    · exact .inr (.inr (hk.coming dev hcoming))

theorem lift_some {s s' : State} {a : SndPoll.Action} (h : s.lift a = some s') :
    ∃ poll, SndPoll.step s.poll a = some poll ∧ s' = { s with poll := poll } := by
  obtain ⟨poll, hpoll, heq⟩ := Option.map_eq_some_iff.mp h
  exact ⟨poll, hpoll, heq.symm⟩

/-- The other tasks stay where they are. -/
theorem taskStep_others {s s' : SndPoll.State} {t : Nat} {ok : Bool}
    (hstep : taskStep s t ok = some s') {t' : Nat} (ht : t' ≠ t) : s'.tasks t' = s.tasks t' := by
  cases hpc : s.tasks t
  all_goals
    simp only [taskStep, hpc] at hstep
    repeat' split at hstep
    all_goals cases hstep
    all_goals simp [SndPoll.State.goto, SndPoll.State.setMutex, SndPoll.State.setNtkey,
      SndPoll.State.setPhase, ht]

theorem Keeps.refl (s : SndPoll.State) : Keeps s s :=
  .of_notifier rfl (fun _ _ h => h) (fun _ h => h) fun _ _ => rfl

theorem setPoller_of_ne {s : State} {t t' : Nat} {p : Poller} (h : t' ≠ t) :
    (s.setPoller t p).poller t' = s.poller t' := Function.update_of_ne h _ _

@[simp] theorem setPoller_self (s : State) (t : Nat) (p : Poller) :
    (s.setPoller t p).poller t = p := Function.update_self _ _ _

theorem Covered.keep {s s' : State} {t dev : Nat} (h : Covered s t dev)
    (hk : Keeps s.poll s'.poll) (hused : s.poll.phase dev ≠ .unused)
    (hwoken : (s'.poller t).woken = (s.poller t).woken) : Covered s' t dev := by
  rcases h with hw | harmed | hcoming
  · exact .inl (hwoken.trans hw)
  · exact .inr (hk.armed dev hused harmed)
  · exact .inr (.inr (hk.coming dev hcoming))

/-- A poller moves on with what it knows. -/
theorem TaskInv.move {s s' : State} {t : Nat} {pc : Pc} {told : Bool} (h : Inv s)
    (hk : Keeps s.poll s'.poll) (htask : s'.poll.tasks t = pc)
    (hpoller : s'.poller t = { s.poller t with told := told })
    (hplace : Place pc { s.poller t with told := told })
    (hlink : ∀ dev e, pc = .pollLink dev e →
      s'.poll.notifier.info e = ⟨SND_EVENT_AVAIL, (s'.poll.devs dev).platform, dev⟩)
    (hrelies : ∀ dev, (s.poller t).waits = some dev → (s.poller t).ready = some false →
      Relies pc → Covered s' t dev) : TaskInv s' t := by
  have ht := h.task t
  constructor
  · rw [htask, hpoller]
    exact hplace
  · intro dev e hpc
    exact hlink dev e (htask.symm.trans hpc)
  · intro dev hwaits
    rw [hpoller] at hwaits
    exact hk.used dev (ht.used dev hwaits)
  · intro dev hwaits hready hevent
    rw [hpoller] at hwaits hready hevent ⊢
    exact (ht.event dev hwaits hready hevent).imp_right (hk.coming dev)
  · intro dev hwaits hready hrel
    rw [hpoller] at hwaits hready
    rw [htask] at hrel
    exact hrelies dev hwaits hready hrel

/-- A step of a poller in `snd_poll`. -/
theorem Inv.of_task {s s' : State} {t : Nat} {ok : Bool} (h : Inv s)
    (hpolls : Polls (s.poll.tasks t)) (hstep : taskStep s.poll t ok = some s'.poll)
    (hpoller : ∀ t', t' ≠ t → s'.poller t' = s.poller t') (hown : TaskInv s' t) : Inv s' where
  held := held_taskStep h.held hstep
  locks := locksInv_taskStep h.locks hstep
  task t' := by
    by_cases ht : t' = t
    · rw [ht]
      exact hown
    · exact .keep h (keeps_taskStep h.held hpolls hstep) (taskStep_others hstep ht) (hpoller t' ht)

theorem Inv.of_lift {s s' : State} {t : Nat} {ok : Bool} (h : Inv s)
    (hpolls : Polls (s.poll.tasks t)) (hstep : s.lift (.task t ok) = some s')
    (hown : ∀ poll, taskStep s.poll t ok = some poll → Keeps s.poll poll →
      TaskInv { s with poll := poll } t) : Inv s' := by
  obtain ⟨poll, hpoll, rfl⟩ := lift_some hstep
  exact h.of_task hpolls hpoll (fun _ _ => rfl)
    (hown poll hpoll (keeps_taskStep h.held hpolls hpoll))

/-- A step of a poller on its own. -/
theorem Inv.of_poller {s : State} {t : Nat} {p : Poller} (h : Inv s)
    (hown : TaskInv (s.setPoller t p) t) : Inv (s.setPoller t p) where
  held := h.held
  locks := h.locks
  task t' := by
    by_cases ht : t' = t
    · rw [ht]
      exact hown
    · exact .keep h (.refl s.poll) rfl (setPoller_of_ne ht)

/-- The device of a poll is open. -/
theorem Inv.used_of_pollCheck {s : State} {t dev : Nat} (h : Inv s)
    (hpc : s.poll.tasks t = .pollCheck dev) : s.poll.phase dev ≠ .unused := by
  have hfits := h.locks.fits t
  rw [hpc] at hfits
  exact hfits

theorem inv_pollCheck {s s' : State} {t dev : Nat} {ok : Bool} (h : Inv s)
    (hheard : Heard s (.task t ok)) (hpc : s.poll.tasks t = .pollCheck dev)
    (hstep : pollStep s t ok = some s') : Inv s' := by
  have ht := h.task t
  have hplace := ht.place
  rw [hpc] at hplace
  obtain ⟨htold, hdev, hnone⟩ := hplace
  unfold pollStep at hstep
  rw [hpc] at hstep
  dsimp only at hstep
  split at hstep
  · -- it joins the wait queue
    next hwaits =>
    cases hstep
    have hready := hnone hwaits
    refine h.of_poller ?_
    constructor
    · rw [setPoller_self]
      show Place (s.poll.tasks t) _
      rw [hpc]
      exact ⟨htold, fun d hd => (Option.some.inj hd).symm, fun hno => by cases hno⟩
    · intro dev' e hpc'
      exact ht.link dev' e hpc'
    · intro dev' hwaits'
      rw [setPoller_self] at hwaits'
      cases hwaits'
      exact h.used_of_pollCheck hpc
    · intro dev' _ hready'
      rw [setPoller_self] at hready'
      rw [show _ = _ from hready'] at hready
      contradiction
    · intro dev' _ hready'
      rw [setPoller_self] at hready'
      rw [show _ = _ from hready'] at hready
      contradiction
  · -- it reads the frames
    next d hwaits _ =>
    cases hstep
    refine h.of_poller ?_
    constructor
    · rw [setPoller_self]
      show Place (s.poll.tasks t) _
      rw [hpc]
      exact ⟨htold, hdev, fun hw => by rw [show _ = _ from hw] at hwaits; contradiction⟩
    · exact ht.link
    · intro dev' hwaits'
      rw [setPoller_self] at hwaits'
      exact ht.used dev' hwaits'
    · intro dev' _ _ hevent
      rw [setPoller_self] at hevent
      contradiction
    · intro dev' _ _ hrelies
      have hrelies' : Relies (s.poll.tasks t) := hrelies
      rw [hpc] at hrelies'
      exact hrelies'.elim
  · next d ready hwaits hready =>
    obtain rfl : d = dev := hdev d hwaits
    refine h.of_lift (by rw [hpc]; trivial) hstep fun poll hpoll hk => ?_
    simp only [taskStep, hpc] at hpoll
    have hself : ∀ pc, (s.poll.goto t pc).tasks t = pc := fun pc => Function.update_self _ _ _
    cases ready with
    | true =>
      -- the device is ready
      rw [if_pos rfl] at hpoll
      cases hpoll
      refine @TaskInv.move s _ t _ false h hk (hself _) (by rw [← htold]) ?_
        (fun _ _ hno => by cases hno) fun dev' _ hr => ?_
      · have hne : (s.poller t).ready ≠ none := by
          rw [show (s.poller t).ready = _ from hready]
          exact Option.some_ne_none _
        exact ⟨rfl, hwaits, hne⟩
      · rw [show (s.poller t).ready = _ from hready] at hr
        contradiction
    | false =>
      rw [if_neg (by decide)] at hpoll
      split at hpoll
      · cases hpoll
        refine @TaskInv.move s _ t _ false h hk (hself _) (by rw [← htold]) ?_
          (fun _ _ hno => by cases hno) fun _ _ _ hr => hr.elim
        exact ⟨rfl, hwaits, hready⟩
      · -- it relies on the key that it finds
        next hkey =>
        cases hpoll
        refine @TaskInv.move s _ t _ false h hk (hself _) (by rw [← htold]) ?_
          (fun _ _ hno => by cases hno) fun dev' hw _ _ => ?_
        · have hne : (s.poller t).ready ≠ none := by
            rw [show (s.poller t).ready = _ from hready]
            exact Option.some_ne_none _
          exact ⟨rfl, hwaits, hne⟩
        · obtain rfl : d = dev' := Option.some.inj (hwaits.symm.trans hw)
          exact (hheard.1 d hpc hready (by omega)).keep hk (h.used_of_pollCheck hpc) rfl

/-- A poller is told what it has read. -/
theorem inv_pollUnlock {s s' : State} {t dev : Nat} {ok : Bool} (h : Inv s)
    (hpc : s.poll.tasks t = .pollUnlock dev) (hstep : pollStep s t ok = some s') : Inv s' := by
  have ht := h.task t
  have hplace := ht.place
  rw [hpc] at hplace
  obtain ⟨htold, hwaits, hready⟩ := hplace
  unfold pollStep at hstep
  rw [hpc] at hstep
  obtain ⟨s₁, hlift, rfl⟩ := Option.map_eq_some_iff.mp hstep
  obtain ⟨poll, hpoll, rfl⟩ := lift_some hlift
  have hk := keeps_taskStep h.held (by rw [hpc]; trivial) hpoll
  refine Inv.of_task h (by rw [hpc]; trivial) hpoll (fun t' ht' => setPoller_of_ne ht') ?_
  have hpoll' : taskStep s.poll t ok = some poll := hpoll
  simp only [taskStep, hpc, Option.some.injEq] at hpoll'
  subst hpoll'
  refine @TaskInv.move s _ t .idle _ h hk (Function.update_self _ _ _) (setPoller_self _ _ _) ?_
    (fun _ _ hno => by cases hno) fun dev' hw hr _ => ?_
  · exact decide_eq_true_iff
  · have hrelies := ht.relies dev' hw hr (by rw [hpc]; trivial)
    exact hrelies.keep hk (ht.used dev' hw) (by rw [setPoller_self])

/-- The steps around the registration. -/
theorem inv_pollSetup {s s' : State} {t dev : Nat} {ok : Bool} (h : Inv s)
    (hheard : Heard s (.task t ok)) (hpc : s.poll.tasks t = .pollSetup dev)
    (hstep : pollStep s t ok = some s') : Inv s' := by
  have ht := h.task t
  have hplace := ht.place
  rw [hpc] at hplace
  obtain ⟨htold, hwaits, hready⟩ := hplace
  unfold pollStep at hstep
  rw [hpc] at hstep
  refine h.of_lift (by rw [hpc]; trivial) hstep fun poll hpoll hk => ?_
  simp only [taskStep, hpc] at hpoll
  split at hpoll
  · next e notifier hset =>
    cases hpoll
    refine @TaskInv.move s _ t _ false h hk (Function.update_self _ _ _) (by rw [← htold]) ?_
      (fun dev' e' heq => ?_) fun _ _ _ hr => hr.elim
    · exact ⟨rfl, hwaits, hready⟩
    · cases heq
      exact (h.held.lists.setupEntry hset).info_self
  · next hnone =>
    cases hpoll
    refine @TaskInv.move s _ t _ false h hk (Function.update_self _ _ _) (by rw [← htold]) ?_
      (fun _ _ hno => by cases hno) fun dev' hw _ _ => ?_
    · exact ⟨rfl, hwaits, hready⟩
    · obtain rfl : dev = dev' := Option.some.inj (hwaits.symm.trans hw)
      exact (hheard.2 dev hpc hnone).keep hk (ht.used dev hw) rfl

theorem inv_pollLink {s s' : State} {t dev e : Nat} {ok : Bool} (h : Inv s)
    (hpc : s.poll.tasks t = .pollLink dev e) (hstep : pollStep s t ok = some s') : Inv s' := by
  have ht := h.task t
  have hplace := ht.place
  rw [hpc] at hplace
  obtain ⟨htold, hwaits, hready⟩ := hplace
  unfold pollStep at hstep
  rw [hpc] at hstep
  refine h.of_lift (by rw [hpc]; trivial) hstep fun poll hpoll hk => ?_
  simp only [taskStep, hpc, Option.some.injEq] at hpoll
  subst hpoll
  refine @TaskInv.move s _ t _ false h hk (Function.update_self _ _ _) (by rw [← htold]) ?_
    (fun _ _ hno => by cases hno) fun dev' hw _ _ => ?_
  · exact ⟨rfl, hwaits, hready⟩
  · -- from here on a notification is pending
    obtain rfl : dev = dev' := Option.some.inj (hwaits.symm.trans hw)
    refine .inr (.inl ⟨e, List.mem_append_right _ (List.mem_singleton.mpr rfl), ?_⟩)
    exact (setupLink_info e).trans (ht.link dev e hpc)

theorem inv_pollStore {s s' : State} {t dev : Nat} {ret : Int} {ok : Bool} (h : Inv s)
    (hpc : s.poll.tasks t = .pollStore dev ret) (hstep : pollStep s t ok = some s') : Inv s' := by
  have ht := h.task t
  have hplace := ht.place
  rw [hpc] at hplace
  obtain ⟨htold, hwaits, hready⟩ := hplace
  unfold pollStep at hstep
  rw [hpc] at hstep
  refine h.of_lift (by rw [hpc]; trivial) hstep fun poll hpoll hk => ?_
  simp only [taskStep, hpc, Option.some.injEq] at hpoll
  subst hpoll
  refine @TaskInv.move s _ t _ false h hk (Function.update_self _ _ _) (by rw [← htold]) ?_
    (fun _ _ hno => by cases hno) fun dev' hw hr _ => ?_
  · have hne : (s.poller t).ready ≠ none := by
      rw [show (s.poller t).ready = _ from hready]
      exact Option.some_ne_none _
    exact ⟨rfl, hwaits, hne⟩
  · exact (ht.relies dev' hw hr (by rw [hpc]; trivial)).keep hk (ht.used dev' hw) rfl

theorem inv_pollLock {s s' : State} {t dev : Nat} {ok : Bool} (h : Inv s)
    (hpc : s.poll.tasks t = .pollLock dev) (hstep : pollStep s t ok = some s') : Inv s' := by
  have ht := h.task t
  have hplace := ht.place
  rw [hpc] at hplace
  obtain ⟨htold, hready, hdev⟩ := hplace
  unfold pollStep at hstep
  rw [hpc] at hstep
  refine h.of_lift (by rw [hpc]; trivial) hstep fun poll hpoll hk => ?_
  simp only [taskStep, hpc] at hpoll
  split at hpoll
  · cases hpoll
    refine @TaskInv.move s _ t _ false h hk (Function.update_self _ _ _) (by rw [← htold]) ?_
      (fun _ _ hno => by cases hno) fun _ _ _ hr => hr.elim
    exact ⟨rfl, hdev, fun _ => hready⟩
  · cases hpoll

theorem inv_pollStep {s s' : State} {t : Nat} {ok : Bool} (h : Inv s)
    (hheard : Heard s (.task t ok)) (hstep : pollStep s t ok = some s') : Inv s' := by
  cases hpc : s.poll.tasks t with
  | pollLock dev => exact inv_pollLock h hpc hstep
  | pollCheck dev => exact inv_pollCheck h hheard hpc hstep
  | pollSetup dev => exact inv_pollSetup h hheard hpc hstep
  | pollLink dev e => exact inv_pollLink h hpc hstep
  | pollStore dev ret => exact inv_pollStore h hpc hstep
  | pollUnlock dev => exact inv_pollUnlock h hpc hstep
  | _ =>
    unfold pollStep at hstep
    rw [hpc] at hstep
    cases hstep

/-! ### The worker and the interrupts -/

theorem workerStep_tasks {s s' : SndPoll.State} (hstep : SndPoll.workerStep s = some s') :
    s'.tasks = s.tasks := by
  cases hw : s.worker with
  | idle =>
    simp only [SndPoll.workerStep, hw] at hstep
    obtain ⟨p, -, rfl⟩ := Option.map_eq_some_iff.mp hstep
    rfl
  | _ =>
    simp only [SndPoll.workerStep, hw, Option.some.injEq] at hstep
    subst hstep
    rfl

/-- What a poller is told does not depend on events and wake-ups. -/
theorem Place.congr {pc : Pc} {p p' : Poller} (h : Place pc p) (hwaits : p'.waits = p.waits)
    (hready : p'.ready = p.ready) (htold : p'.told = p.told) : Place pc p' := by
  cases pc <;> simp_all [Place]

/-- The worker wakes whoever is in the wait queue. -/
theorem TaskInv.wake_up {s : State} {t e dev : Nat} (h : TaskInv s t)
    (hw : s.poll.worker = .wakeUp e dev) :
    TaskInv (State.wake_up { s with poll := { s.poll with worker := .clearKey e dev } } dev) t := by
  -- the wake-ups of other devices stay where they are
  have hcoming : ∀ d, d ≠ dev → Coming s.poll d →
      Coming { s.poll with worker := .clearKey e dev } d := by
    intro d hne hc
    rcases hc with hq | ⟨e', he'⟩
    · exact .inl hq
    · rw [hw] at he'
      cases he'
      exact absurd rfl hne
  generalize hs' : State.wake_up _ dev = s'
  have hpoll : s'.poll = { s.poll with worker := .clearKey e dev } := by rw [← hs']; rfl
  have hpoller : s'.poller t = if (s.poller t).waits = some dev then
      { s.poller t with woken := true } else s.poller t := by rw [← hs']; rfl
  have hwaits : (s'.poller t).waits = (s.poller t).waits := by rw [hpoller]; split <;> rfl
  have hready : (s'.poller t).ready = (s.poller t).ready := by rw [hpoller]; split <;> rfl
  have htold : (s'.poller t).told = (s.poller t).told := by rw [hpoller]; split <;> rfl
  have hevent : (s'.poller t).event = (s.poller t).event := by rw [hpoller]; split <;> rfl
  have hwoken : (s.poller t).waits = some dev → (s'.poller t).woken = true := fun hd => by
    rw [hpoller, if_pos hd]
  have hsame : (s.poller t).waits ≠ some dev → s'.poller t = s.poller t := fun hd => by
    rw [hpoller, if_neg hd]
  constructor
  · rw [hpoll]
    exact h.place.congr hwaits hready htold
  · rw [hpoll]
    exact h.link
  · intro d hd
    rw [hpoll]
    exact h.used d (hwaits.symm.trans hd)
  · intro d hd hr he
    rw [hwaits] at hd
    by_cases hdev : d = dev
    · exact .inl (hwoken (hdev ▸ hd))
    · have hne : (s.poller t).waits ≠ some dev := fun heq =>
        hdev (Option.some.inj (hd.symm.trans heq))
      rw [hsame hne, hpoll]
      exact (h.event d hd (hready.symm.trans hr) (hevent.symm.trans he)).imp_right (hcoming d hdev)
  · intro d hd hr hrel
    rw [hwaits] at hd
    rw [hpoll] at hrel
    by_cases hdev : d = dev
    · exact .inl (hwoken (hdev ▸ hd))
    · have hne : (s.poller t).waits ≠ some dev := fun heq =>
        hdev (Option.some.inj (hd.symm.trans heq))
      unfold Covered
      rw [hsame hne, hpoll]
      exact (h.relies d hd (hready.symm.trans hr) hrel).imp_right (.imp_right (hcoming d hdev))

/-- The thread of the queue. -/
theorem inv_workerStep {s s' : State} (h : Inv s) (hstep : workerStep s = some s') : Inv s' := by
  unfold workerStep at hstep
  split at hstep
  · next e dev hw =>
    obtain ⟨s₁, hlift, rfl⟩ := Option.map_eq_some_iff.mp hstep
    obtain ⟨poll, hpoll, rfl⟩ := lift_some hlift
    have hheld := held_step h.held hpoll
    have hlocks := locksInv_step h.locks hpoll
    simp only [SndPoll.step, SndPoll.workerStep, hw, Option.some.injEq] at hpoll
    subst hpoll
    exact ⟨hheld, hlocks, fun t => (h.task t).wake_up hw⟩
  · next hwake =>
    obtain ⟨poll, hpoll, rfl⟩ := lift_some hstep
    refine ⟨held_step h.held hpoll, locksInv_step h.locks hpoll, fun t => ?_⟩
    exact .keep h (keeps_workerStep h.held hwake hpoll)
      (congrFun (workerStep_tasks hpoll) t) rfl

/-- An interrupt that makes a device ready finds its pollers covered. -/
theorem inv_interrupt {s s' : State} {platform frames : Nat} (h : Inv s)
    (hheard : Heard s (.interrupt platform frames))
    (hstep : step s (.interrupt platform frames) = some s') : Inv s' := by
  unfold step at hstep
  obtain ⟨s₁, hlift, heq⟩ := Option.map_eq_some_iff.mp hstep
  obtain ⟨poll, hpoll, rfl⟩ := lift_some hlift
  have hheld := held_step h.held hpoll
  have hlocks := locksInv_step h.locks hpoll
  cases hpoll
  have hk := keeps_signal h.held SND_EVENT_AVAIL platform
  have hpoll' : s'.poll = { s.poll with
      notifier := s.poll.notifier.work_notifier_signal SND_EVENT_AVAIL platform } := by
    rw [← heq]
    rfl
  refine ⟨by rw [hpoll']; exact hheld, by rw [hpoll']; exact hlocks, fun t => ?_⟩
  have ht := h.task t
  have htasks : s'.poll.tasks = s.poll.tasks := by rw [hpoll']
  -- a poller only takes note of the event
  have hnote : s'.poller t = s.poller t ∨
      (∃ dev, (s.poller t).waits = some dev ∧ (s.poll.devs dev).platform = platform ∧
        s.avail_min dev ≤ frames) ∧ s'.poller t = { s.poller t with event := true } := by
    rw [← heq]
    unfold State.note
    dsimp only
    split
    · next dev hdev =>
      split
      · next hevent =>
        obtain ⟨-, hplatform, henough⟩ := hevent
        have hplatform' : (s.poll.devs dev).platform = platform := hplatform
        refine .inr ⟨⟨dev, hdev, hplatform', ?_⟩, rfl⟩
        have hle : s.avail_min dev ≤ Function.update s.avail platform frames
            (s.poll.devs dev).platform := of_decide_eq_true henough
        rw [hplatform', Function.update_self] at hle
        exact hle
      · exact .inl rfl
    · exact .inl rfl
  rw [← hpoll'] at hk
  rcases hnote with hsame | ⟨⟨dev, hdev, hplatform, hmin⟩, hset⟩
  · exact .keep h hk (congrFun htasks t) hsame
  · have hkeep := @TaskInv.keep s { s' with poller := s.poller } t h hk (congrFun htasks t) rfl
    constructor
    · rw [hset]
      exact hkeep.place.congr rfl rfl rfl
    · exact hkeep.link
    · intro d hd
      rw [hset] at hd
      exact hkeep.used d hd
    · intro d hd hr _
      rw [hset] at hd hr ⊢
      obtain rfl : dev = d := Option.some.inj (hdev.symm.trans hd)
      have hcovered : Covered s t dev := by
        rcases ht.undecided_or_relies hd hr with hund | hrel
        · exact hheard t dev hund hplatform hmin
        · exact ht.relies dev hd hr hrel
      rcases hcovered with hwoken | harmed | hcoming
      · exact .inl hwoken
      · right
        subst hplatform
        rw [hpoll']
        exact coming_signal h.held harmed
      · exact .inr (hk.coming dev hcoming)
    · intro d hd hr hrel
      rw [hset] at hd hr
      unfold Covered
      rw [hset]
      exact hkeep.relies d hd hr hrel

/-! ### Runs -/

/-- A poll begins. -/
theorem inv_poll {s s' : State} {t dev : Nat} {p : Poller} (h : Inv s)
    (hp : p.told = false ∧ p.ready = none ∧ ∀ d ∈ p.waits, d = dev)
    (hused : ∀ d, p.waits = some d → s.poll.phase d ≠ .unused)
    (hstep : (s.lift (.poll t dev)).map (fun s => s.setPoller t p) = some s') : Inv s' := by
  obtain ⟨s₁, hlift, rfl⟩ := Option.map_eq_some_iff.mp hstep
  obtain ⟨poll, hpoll, rfl⟩ := lift_some hlift
  have hheld := held_step h.held hpoll
  have hlocks := locksInv_step h.locks hpoll
  obtain ⟨-, hgoto⟩ := Option.ite_none_right_eq_some.mp hpoll
  cases hgoto
  have hk : Keeps s.poll (s.poll.goto t (.pollLock dev)) :=
    .of_notifier rfl (fun _ _ h => h) (fun _ h => h) fun _ _ => rfl
  have hpc : (s.poll.goto t (.pollLock dev)).tasks t = .pollLock dev := Function.update_self _ _ _
  refine ⟨hheld, hlocks, fun t' => ?_⟩
  by_cases ht : t' = t
  · subst ht
    constructor
    · rw [setPoller_self]
      show Place ((s.poll.goto t' (.pollLock dev)).tasks t') p
      rw [hpc]
      exact hp
    · intro dev' e he
      cases hpc.symm.trans he
    · intro d hd
      rw [setPoller_self] at hd
      exact hused d hd
    · intro d _ hr
      rw [setPoller_self, hp.2.1] at hr
      cases hr
    · intro d _ hr
      rw [setPoller_self, hp.2.1] at hr
      cases hr
  · exact .keep h hk (Function.update_of_ne ht _ _) (setPoller_of_ne ht)

/-- A device is opened that nobody has polled. -/
theorem inv_open {s s' : State} {dev platform : Nat} (h : Inv s)
    (hstep : step s (.open dev platform) = some s') : Inv s' := by
  unfold step at hstep
  obtain ⟨s₁, hlift, rfl⟩ := Option.map_eq_some_iff.mp hstep
  obtain ⟨poll, hpoll, rfl⟩ := lift_some hlift
  have hheld := held_step h.held hpoll
  have hlocks := locksInv_step h.locks hpoll
  obtain ⟨hunused, hopen⟩ := Option.ite_none_right_eq_some.mp hpoll
  cases hopen
  refine ⟨hheld, hlocks, fun t => .keep h (.of_notifier rfl (fun _ _ h => h) ?_ ?_) rfl rfl⟩
  · intro d hd
    have hne : d ≠ dev := fun heq => hd (heq ▸ hunused)
    show Function.update s.poll.phase dev .opened d ≠ .unused
    rw [Function.update_of_ne hne]
    exact hd
  · intro d hd
    have hne : d ≠ dev := fun heq => hd (heq ▸ hunused)
    exact congrArg SndPlatformDevice.platform (Function.update_of_ne hne _ _)

theorem inv_step {s s' : State} {a : Action} (h : Inv s) (hheard : Heard s a)
    (hstep : step s a = some s') : Inv s' := by
  cases a with
  | «open» dev platform => exact inv_open h hstep
  | availMin dev frames =>
    obtain ⟨-, hset⟩ := Option.ite_none_right_eq_some.mp hstep
    cases hset
    exact ⟨h.held, h.locks, fun t => .keep h (.refl s.poll) rfl rfl⟩
  | poll t dev =>
    exact inv_poll h ⟨rfl, rfl, by simp [Poller.fresh]⟩ (by simp [Poller.fresh]) hstep
  | again t dev =>
    obtain ⟨⟨-, hwaits⟩, hpoll⟩ := Option.ite_none_right_eq_some.mp hstep
    refine inv_poll h ⟨rfl, rfl, fun d hd => (Option.some.inj hd).symm⟩ (fun d hd => ?_) hpoll
    exact (h.task t).used d (hwaits.trans hd)
  | task t ok => exact inv_pollStep h hheard hstep
  | worker => exact inv_workerStep h hstep
  | frames platform frames =>
    cases hstep
    exact ⟨h.held, h.locks, fun t => .keep h (.refl s.poll) rfl rfl⟩
  | interrupt platform frames => exact inv_interrupt h hheard hstep

/-- Along every run whose steps are heard, no event is missed. -/
theorem unmissed_of_heard {tr : List Action} (hheard : Meets step Heard init tr) :
    Always step Unmissed init tr :=
  always_of_meets step (fun _ h => h.unmissed) (fun _ _ _ h hh hs => inv_step h hh hs) inv_init
    hheard

/-- A poll up to its reading of the frames, with a threshold of 4, and what it does then. -/
def exampleRead : List Action :=
  [.open 0 5, .availMin 0 4, .poll 0 0, .task 0 true, .task 0 true, .task 0 true]
def exampleRegister : List Action :=
  [.task 0 true, .task 0 true, .task 0 true, .task 0 true, .task 0 true]

/-- The frames come when the poll has registered. The worker takes the notification. -/
theorem unmissed_exampleRun :
    Meets step Heard init (exampleRead ++ exampleRegister ++ [.interrupt 5 4, .worker]) ∧
    Always step Unmissed init (exampleRead ++ exampleRegister ++ [.interrupt 5 4, .worker]) := by
  have hheard :
      Meets step Heard init (exampleRead ++ exampleRegister ++ [.interrupt 5 4, .worker]) := by
    refine ⟨trivial, fun s₁ h₁ => ?_⟩
    cases h₁
    refine ⟨trivial, fun s₂ h₂ => ?_⟩
    cases h₂
    refine ⟨trivial, fun s₃ h₃ => ?_⟩
    cases h₃
    refine ⟨⟨nofun, nofun⟩, fun s₄ h₄ => ?_⟩
    cases h₄
    -- nothing is read yet
    refine ⟨⟨fun _ _ hr => absurd hr nofun, nofun⟩, fun s₅ h₅ => ?_⟩
    cases h₅
    refine ⟨⟨fun _ _ hr => absurd hr nofun, nofun⟩, fun s₆ h₆ => ?_⟩
    cases h₆
    -- there is no key, so that the poll registers
    refine ⟨⟨fun dev hpc _ hkey => ?_, nofun⟩, fun s₇ h₇ => ?_⟩
    · cases hpc
      exact absurd hkey (by decide)
    cases h₇
    refine ⟨⟨nofun, fun dev hpc hsetup => ?_⟩, fun s₈ h₈ => ?_⟩
    · cases hpc
      cases hsetup
    cases h₈
    refine ⟨⟨nofun, nofun⟩, fun s₉ h₉ => ?_⟩
    cases h₉
    refine ⟨⟨nofun, nofun⟩, fun s₁₀ h₁₀ => ?_⟩
    cases h₁₀
    refine ⟨⟨nofun, nofun⟩, fun s₁₁ h₁₁ => ?_⟩
    cases h₁₁
    refine ⟨fun t dev hund _ _ => ?_, fun s₁₂ h₁₂ => ?_⟩
    · -- the only poller has been told to wait
      obtain ⟨-, hpc⟩ := hund
      by_cases ht : t = 0
      · subst ht
        rcases hpc with hpc | hpc | ⟨_, hpc⟩ <;> cases hpc
      · simp [SndPoll.State.goto, SndPoll.State.setMutex, SndPoll.State.setNtkey,
          SndPoll.State.setPhase, State.setPoller, SndPoll.init, init] at hpc
    cases h₁₂
    exact ⟨trivial, fun _ _ => trivial⟩
  exact ⟨hheard, unmissed_of_heard hheard⟩

/-- The frames come between the reading and the registration. -/
theorem unmissed_fails : ∃ s, run step init (exampleRead ++ [.interrupt 5 4] ++ exampleRegister) =
    some s ∧ ¬ Unmissed s := by
  refine ⟨_, rfl, fun h => ?_⟩
  rcases h 0 0 rfl rfl rfl with hwoken | ⟨e, he, -⟩ | ⟨e, he⟩
  · cases hwoken
  · cases he
  · cases he

end Hcrtos.Native.SndEvents
