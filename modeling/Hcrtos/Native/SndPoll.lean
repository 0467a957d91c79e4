import Mathlib.Algebra.Ring.Nat
import Hcrtos.ForStd.Lts
import Hcrtos.Native.WorkNotifier

/-!
# Polling a sound device

`snd_poll`, `snd_wakeup_poll` and `snd_close` of `snd_core.c`, over the work notifications: any
number of tasks poll and close, the driver of a platform signals, and the thread of the
high-priority queue runs the wake-up workers. A task or the worker can be interrupted between
any two accesses to what others share.

A device is the number of its allocation, so none is opened twice. The file layer lets no new
poll of a file begin once its close has begun; one that is under way goes on. The events that a
poll reports, the wait queue and the clocks are left out.
-/

namespace Hcrtos.Native.SndPoll

def SND_EVENT_AVAIL : Nat := 0
def ENOMEM : Int := 12

/-- The fields of `struct snd_platform_device`; the mutex is the task that holds it. -/
structure SndPlatformDevice where
  platform : Nat
  mutex : Option Nat
  ntkey : Int

/-- How far the file of a device has got. -/
inductive Phase where
  | unused
  | opened
  /-- `snd_close` was called. -/
  | closing
  /-- `snd_close` gave the mutex back. -/
  | closed
  | freed
  deriving DecidableEq

/-- Where a task is in `snd_poll` or `snd_close`. -/
inductive Pc where
  | idle
  | pollLock (dev : Nat)
  | pollCheck (dev : Nat)
  /-- At the two parts of `work_notifier_setup`, then before its result is stored. -/
  | pollSetup (dev : Nat)
  | pollLink (dev e : Nat)
  | pollStore (dev : Nat) (ret : Int)
  | pollUnlock (dev : Nat)
  | closeLock (dev : Nat)
  | closeTest (dev : Nat)
  | closeTeardown (dev : Nat)
  | closeUnlock (dev : Nat)
  | closeFree (dev : Nat)
  deriving DecidableEq

/-- Where the thread of the queue is with an entry. -/
inductive Worker where
  | idle
  /-- In `snd_wakeup_poll`, before `wake_up` and before the store. -/
  | wakeUp (e dev : Nat)
  | clearKey (e dev : Nat)
  /-- After it, in `work_notifier_worker` and in `work_process`. -/
  | recycle (e : Nat)
  | finish (e : Nat)

/-- A freed device keeps its contents. -/
structure State where
  devs : Nat → SndPlatformDevice
  phase : Nat → Phase
  notifier : WorkNotifier
  tasks : Nat → Pc
  worker : Worker

def init : State := ⟨fun _ => ⟨0, none, 0⟩, fun _ => .unused, .init, fun _ => .idle, .idle⟩

def State.goto (s : State) (t : Nat) (pc : Pc) : State :=
  { s with tasks := Function.update s.tasks t pc }

def State.setPhase (s : State) (dev : Nat) (phase : Phase) : State :=
  { s with phase := Function.update s.phase dev phase }

def State.setMutex (s : State) (dev : Nat) (mutex : Option Nat) : State :=
  { s with devs := Function.update s.devs dev { s.devs dev with mutex := mutex } }

def State.setNtkey (s : State) (dev : Nat) (ntkey : Int) : State :=
  { s with devs := Function.update s.devs dev { s.devs dev with ntkey := ntkey } }

/-- The next step of task `t`; `ok` is whether enough frames are available, or whether `malloc`
    succeeds. -/
def taskStep (s : State) (t : Nat) (ok : Bool) : Option State :=
  match s.tasks t with
  | .idle => none
  | .pollLock dev =>
    if (s.devs dev).mutex = none then some ((s.setMutex dev (some t)).goto t (.pollCheck dev))
    else none
  | .pollCheck dev =>
    if ok then some (s.goto t (.pollUnlock dev))
    else if (s.devs dev).ntkey ≤ 0 then some (s.goto t (.pollSetup dev))
    else some (s.goto t (.pollUnlock dev))
  | .pollSetup dev =>
    match s.notifier.setupEntry ⟨SND_EVENT_AVAIL, (s.devs dev).platform, dev⟩ ok with
    | some (e, notifier) => some ({ s with notifier := notifier }.goto t (.pollLink dev e))
    | none => some (s.goto t (.pollStore dev (-ENOMEM)))
  | .pollLink dev e =>
    let (notifier, ret) := s.notifier.setupLink e
    some ({ s with notifier := notifier }.goto t (.pollStore dev ret))
  | .pollStore dev ret => some ((s.setNtkey dev ret).goto t (.pollUnlock dev))
  | .pollUnlock dev => some ((s.setMutex dev none).goto t .idle)
  | .closeLock dev =>
    if (s.devs dev).mutex = none then some ((s.setMutex dev (some t)).goto t (.closeTest dev))
    else none
  | .closeTest dev =>
    if (s.devs dev).ntkey > 0 then some (s.goto t (.closeTeardown dev))
    else some (s.goto t (.closeUnlock dev))
  | .closeTeardown dev =>
    let notifier := (s.notifier.work_notifier_teardown (s.devs dev).ntkey).1
    some ({ s with notifier := notifier }.goto t (.closeUnlock dev))
  | .closeUnlock dev => some (((s.setMutex dev none).setPhase dev .closed).goto t (.closeFree dev))
  | .closeFree dev => some ((s.setPhase dev .freed).goto t .idle)

/-- The next step of the thread of the queue. -/
def workerStep (s : State) : Option State :=
  match s.worker with
  | .idle =>
    s.notifier.startWork.map fun (e, notifier) =>
      { s with notifier := notifier, worker := .wakeUp e (notifier.info e).arg }
  | .wakeUp e dev => some { s with worker := .clearKey e dev }
  | .clearKey e dev => some { s.setNtkey dev (-1) with worker := .recycle e }
  | .recycle e => some { s with notifier := s.notifier.recycle e, worker := .finish e }
  | .finish e => some { s with notifier := s.notifier.finishWork e, worker := .idle }

/-- A step of the system. -/
inductive Action where
  /-- `snd_open`, which gets the allocation `dev`. -/
  | open (dev platform : Nat)
  /-- Task `t` calls `snd_poll` or `snd_close`. -/
  | poll (t dev : Nat)
  | close (t dev : Nat)
  | task (t : Nat) (ok : Bool)
  /-- `work_notifier_signal`. -/
  | signal (evtype qualifier : Nat)
  | worker

/-- The step function. -/
def step (s : State) : Action → Option State
  | .open dev platform =>
    if s.phase dev = .unused then
      some { s.setPhase dev .opened with
        devs := Function.update s.devs dev ⟨platform, none, -1⟩ }
    else none
  | .poll t dev =>
    if s.tasks t = .idle ∧ s.phase dev = .opened then some (s.goto t (.pollLock dev)) else none
  | .close t dev =>
    if s.tasks t = .idle ∧ s.phase dev = .opened then
      some ((s.setPhase dev .closing).goto t (.closeLock dev))
    else none
  | .task t ok => taskStep s t ok
  | .signal evtype qualifier =>
    some { s with notifier := s.notifier.work_notifier_signal evtype qualifier }
  | .worker => workerStep s

/-- The device that `snd_wakeup_poll` is running on. -/
def Worker.dev : Worker → Option Nat
  | .wakeUp _ dev | .clearKey _ dev => some dev
  | _ => none

/-- The wake-up worker does not run on a freed device. -/
def WorkerSafe (s : State) : Prop := ∀ dev ∈ s.worker.dev, s.phase dev ≠ .freed

instance (s : State) : Decidable (WorkerSafe s) := inferInstanceAs (Decidable (∀ dev ∈ _, _))

/-- The device that a poll is about to have a notification linked for. -/
def Pc.links : Pc → Option Nat
  | .pollLink dev _ => some dev
  | _ => none

/-- The device that a close is about to free. -/
def Pc.frees : Pc → Option Nat
  | .closeFree dev => some dev
  | _ => none

/-- No notification of the device was signalled and has not run yet. -/
def State.Quiet (s : State) (dev : Nat) : Prop :=
  (∀ e ∈ s.notifier.g_hpwork.q, (s.notifier.info e).arg ≠ dev) ∧ s.worker.dev ≠ some dev

instance (s : State) (dev : Nat) : Decidable (s.Quiet dev) := inferInstanceAs (Decidable (_ ∧ _))

/-- A notification is linked with a key that fits an `int`, for a device whose close has not given
    the mutex back; and a device is freed when no signalled notification of it is left to run. -/
def Timely (s : State) : Action → Prop
  | .task t _ =>
    (∀ dev ∈ (s.tasks t).links,
      s.notifier.notifier_key.toNat + 1 < 2 ^ 31 ∧
        (s.phase dev = .opened ∨ s.phase dev = .closing)) ∧
      ∀ dev ∈ (s.tasks t).frees, s.Quiet dev
  | _ => True

instance (s : State) : ∀ a, Decidable (Timely s a)
  | .task _ _ => inferInstanceAs (Decidable ((∀ dev ∈ _, _) ∧ ∀ dev ∈ _, _))
  | .open _ _ | .poll _ _ | .close _ _ | .signal _ _ | .worker => inferInstanceAs (Decidable True)

end Hcrtos.Native.SndPoll

/-! ## Polling a sound device: events

The steps of `snd_poll` and of the wake-up worker, now with what a poll reports: the frames that
are available, the wait queue, and the interrupts that raise the frames and signal the event. A
poll joins the wait queue, reads the frames, and looks at the key of the device in three steps.

A task that polls several files at once is as many pollers. One that is woken takes the wake-up
and polls again; it stays in the wait queue for that. Nothing is closed.
-/

namespace Hcrtos.Native.SndEvents

open SndPoll

/-- A poller: the device whose wait queue it is in; what it read, whether the frames were enough;
    whether its poll has returned 0; whether the device has become ready and signalled since it
    read; and whether it was woken since it joined the queue. -/
structure Poller where
  waits : Option Nat
  ready : Option Bool
  told : Bool
  event : Bool
  woken : Bool

/-- A poller that has not joined a queue. -/
def Poller.fresh : Poller := ⟨none, none, false, false, false⟩

structure State where
  poll : SndPoll.State
  avail : Nat → Nat
  avail_min : Nat → Nat
  poller : Nat → Poller

def init : State := ⟨SndPoll.init, fun _ => 0, fun _ => 0, fun _ => .fresh⟩

def State.setPoller (s : State) (t : Nat) (p : Poller) : State :=
  { s with poller := Function.update s.poller t p }

/-- `platform->driver->get_avail(platform) >= dev->avail_min`. -/
def State.enough (s : State) (dev : Nat) : Bool :=
  s.avail_min dev ≤ s.avail (s.poll.devs dev).platform

/-- A step of `SndPoll` that is no business of the pollers. -/
def State.lift (s : State) (a : SndPoll.Action) : Option State :=
  (SndPoll.step s.poll a).map fun poll => { s with poll := poll }

/-- The next step of task `t` in `snd_poll`; `ok` is whether `malloc` succeeds. -/
def pollStep (s : State) (t : Nat) (ok : Bool) : Option State :=
  match s.poll.tasks t with
  | .pollCheck dev =>
    match (s.poller t).waits, (s.poller t).ready with
    -- poll_wait(filep, &dev->wait, wait);
    | none, _ => some (s.setPoller t { s.poller t with waits := some dev, woken := false })
    | some _, none =>
      some (s.setPoller t { s.poller t with ready := some (s.enough dev), event := false })
    | some _, some ready => s.lift (.task t ready)
  | .pollUnlock _ =>
    (s.lift (.task t ok)).map fun s =>
      s.setPoller t { s.poller t with told := (s.poller t).ready = some false }
  | .pollLock _ | .pollSetup _ | .pollLink _ _ | .pollStore _ _ => s.lift (.task t ok)
  | _ => none

/-- `wake_up(&dev->wait)`. -/
def State.wake_up (s : State) (dev : Nat) : State :=
  { s with poller := fun t =>
      if (s.poller t).waits = some dev then { s.poller t with woken := true } else s.poller t }

/-- The next step of the thread of the queue. -/
def workerStep (s : State) : Option State :=
  match s.poll.worker with
  | .wakeUp _ dev => (s.lift .worker).map fun s => s.wake_up dev
  | _ => s.lift .worker

/-- An event of which the pollers that have read the frames take note. -/
def State.note (s : State) (platform : Nat) : State :=
  { s with poller := fun t =>
      match (s.poller t).waits with
      | some dev =>
        if (s.poller t).ready ≠ none ∧ (s.poll.devs dev).platform = platform ∧ s.enough dev then
          { s.poller t with event := true }
        else s.poller t
      | none => s.poller t }

/-- A step of the system. -/
inductive Action where
  | open (dev platform : Nat)
  /-- `SND_IOCTL_AVAIL_MIN`. -/
  | availMin (dev frames : Nat)
  | poll (t dev : Nat)
  /-- A poller that was told to wait polls again, without leaving the queue. -/
  | again (t dev : Nat)
  | task (t : Nat) (ok : Bool)
  | worker
  /-- The frames of a platform change without an event. -/
  | frames (platform frames : Nat)
  /-- An interrupt sets the frames of a platform and signals the event. -/
  | interrupt (platform frames : Nat)

/-- The step function. -/
def step (s : State) : Action → Option State
  | .open dev platform =>
    (s.lift (.open dev platform)).map fun s =>
      { s with avail_min := Function.update s.avail_min dev 0 }
  | .availMin dev frames =>
    if (s.poll.devs dev).mutex = none then
      some { s with avail_min := Function.update s.avail_min dev frames }
    else none
  | .poll t dev => (s.lift (.poll t dev)).map fun s => s.setPoller t .fresh
  | .again t dev =>
    if (s.poller t).told = true ∧ (s.poller t).waits = some dev then
      (s.lift (.poll t dev)).map fun s => s.setPoller t { Poller.fresh with waits := some dev }
    else none
  | .task t ok => pollStep s t ok
  | .worker => workerStep s
  | .frames platform frames =>
    some { s with avail := Function.update s.avail platform frames }
  | .interrupt platform frames =>
    (s.lift (.signal SND_EVENT_AVAIL platform)).map fun s =>
      State.note { s with avail := Function.update s.avail platform frames } platform

/-- A wake-up of the device is queued, or the worker is about to carry it out. -/
def Coming (s : SndPoll.State) (dev : Nat) : Prop :=
  (∃ e ∈ s.notifier.g_hpwork.q, (s.notifier.info e).arg = dev) ∨ ∃ e, s.worker = .wakeUp e dev

/-- A notification for the device is pending. -/
def Armed (s : SndPoll.State) (dev : Nat) : Prop :=
  ∃ e ∈ s.notifier.g_notifier_pending,
    s.notifier.info e = ⟨SND_EVENT_AVAIL, (s.devs dev).platform, dev⟩

/-- Every poller that was told that the device is not ready, and whose device has become ready and
    signalled since it read the frames, was woken, or its wake-up is coming. -/
def Unmissed (s : State) : Prop :=
  ∀ t dev, (s.poller t).told = true → (s.poller t).waits = some dev →
    (s.poller t).event = true → (s.poller t).woken = true ∨ Coming s.poll dev

/-- The poller was woken, or a notification will wake it, or is about to. -/
def Covered (s : State) (t dev : Nat) : Prop :=
  (s.poller t).woken = true ∨ Armed s.poll dev ∨ Coming s.poll dev

/-- Between its reading of the frames, which were not enough, and its registration. -/
def Undecided (s : State) (t dev : Nat) : Prop :=
  (s.poller t).ready = some false ∧
    (s.poll.tasks t = .pollCheck dev ∨ s.poll.tasks t = .pollSetup dev ∨
      ∃ e, s.poll.tasks t = .pollLink dev e)

/-- An interrupt that makes a device ready finds its undecided pollers covered. A poller that does
    not register, because the key is that of a notification or `malloc` fails, is covered. -/
def Heard (s : State) : Action → Prop
  | .interrupt platform frames =>
    ∀ t dev, Undecided s t dev → (s.poll.devs dev).platform = platform →
      s.avail_min dev ≤ frames → Covered s t dev
  | .task t ok =>
    (∀ dev, s.poll.tasks t = .pollCheck dev → (s.poller t).ready = some false →
      0 < (s.poll.devs dev).ntkey → Covered s t dev) ∧
    ∀ dev, s.poll.tasks t = .pollSetup dev →
      s.poll.notifier.setupEntry ⟨SND_EVENT_AVAIL, (s.poll.devs dev).platform, dev⟩ ok = none →
      Covered s t dev
  | _ => True

end Hcrtos.Native.SndEvents
