import Hcrtos.Native.FileuartTasks
import Hcrtos.Spec.WorkQueueCorrect

/-!
# No stuck bytes and no stray log handle

The log is only open on the recorded device while the driver is not suspended, and bytes
that could be written have their flush queued as soon as every operation is over. Whatever
makes the flush necessary ends with a call of `fileuart_schedule_flush` under way, and such
a call only gives up on a read that shows the flush to be unnecessary or queued already.

## Key results

- `handleInv_step`, `flushInv_step`: what one step preserves
- `serial_step`: the operations of `Fileuart.step` are quiet runs of this system
- `settled_run`: both hold in every quiet state
-/

namespace Hcrtos.Native.FileuartTasks

open Fileuart

/-! ### What the locked parts do to the descriptor -/

/-- An open descriptor belongs to the recorded device, and the driver is not suspended. -/
def Handle (g : FileuartDev) (opened : Option CString) : Prop :=
  g.fd ≥ 0 → g.suspend_depth = 0 ∧ g.devname ≠ [] ∧ opened = some g.devname

/-- The operation keeps the device name and the suspend depth, and it opens no log. -/
structure Keeps (g g' : FileuartDev) : Prop where
  fd : g'.fd = g.fd ∨ g'.fd < 0
  devname : g'.devname = g.devname
  depth : g'.suspend_depth = g.suspend_depth

theorem Keeps.refl (g : FileuartDev) : Keeps g g := ⟨.inl rfl, rfl, rfl⟩

theorem Keeps.trans {g g' g'' : FileuartDev} (h : Keeps g g') (h' : Keeps g' g'') :
    Keeps g g'' where
  fd := by
    have := h.fd
    have := h'.fd
    omega
  devname := h'.devname.trans h.devname
  depth := h'.depth.trans h.depth

theorem Keeps.handle {g g' : FileuartDev} {opened : Option CString} (h : Keeps g g')
    (hh : Handle g opened) : Handle g' opened := by
  intro hfd
  have hfd' : g.fd ≥ 0 := by
    have := h.fd
    omega
  rw [h.depth, h.devname]
  exact hh hfd'

theorem keeps_close (g : FileuartDev) : Keeps g (fileuart_close_log_locked g false) :=
  ⟨.inr (by show (-1 : Int) < 0; omega), rfl, rfl⟩

theorem keeps_enqueue_byte (g : FileuartDev) (ch : UInt8) :
    Keeps g (fileuart_enqueue_byte g ch) := by
  unfold fileuart_enqueue_byte
  dsimp only
  split <;> exact ⟨.inl rfl, rfl, rfl⟩

theorem keeps_enqueue (g : FileuartDev) (buf : List UInt8) :
    Keeps g (fileuart_enqueue g buf) := by
  induction buf generalizing g with
  | nil => exact .refl g
  | cons ch buf ih =>
    by_cases hch : ch = 10
    · have h := (keeps_enqueue_byte g 13).trans (keeps_enqueue_byte _ ch)
      simpa [fileuart_enqueue, hch] using h.trans (ih _)
    · have h := keeps_enqueue_byte g ch
      simpa [fileuart_enqueue, hch] using h.trans (ih _)

/-- A flush that has its log open keeps it or closes it. -/
theorem keeps_flushLoop (g : FileuartDev) (answers : List Int) :
    Keeps g (flushLoop g answers).1 := by
  induction answers generalizing g with
  | nil =>
    unfold flushLoop
    split
    · exact keeps_close g
    · exact .refl g
  | cons answer answers ih =>
    unfold flushLoop
    split
    · dsimp only
      split
      · exact keeps_close g
      · split
        · exact ⟨.inl rfl, rfl, rfl⟩
        · apply Keeps.trans _ (ih _)
          exact ⟨.inl rfl, rfl, rfl⟩
    · exact .refl g

/-- The end of a flush, after the log was found or made open. -/
theorem keeps_flush_locked {g g' : FileuartDev} {r : FlushAnswers}
    (hcount : g.tx_count ≠ 0) (hopen : fileuart_open_mounted_log_locked g r.fd = (g', true)) :
    Keeps g' (fileuart_flush_locked g r).1 := by
  have hloop := keeps_flushLoop g' r.writes
  unfold fileuart_flush_locked
  rw [if_neg hcount, hopen]
  dsimp only
  split
  · contradiction
  · split
    · exact hloop
    · split
      · split
        · exact ⟨hloop.fd, hloop.devname, hloop.depth⟩
        · exact hloop.trans (keeps_close _)
      · exact hloop

/-- A flush opens the log only by the successful call that `fileuart_open_log` records. -/
theorem handle_flush {g : FileuartDev} {opened : Option CString} (h : Handle g opened)
    (hdepth : g.suspend_depth = 0) (r : FlushAnswers) :
    Handle (fileuart_flush_locked g r).1 ((fileuart_open_log g r).or opened) := by
  have hpos : ¬ g.suspend_depth > 0 := by simp [hdepth]
  by_cases hcount : g.tx_count = 0
  · have hnone : fileuart_open_log g r = none := by simp [fileuart_open_log, hcount]
    simpa [fileuart_flush_locked, hcount, hnone] using h
  by_cases hfd : g.fd ≥ 0
  · -- the log is open already, so no `open` is called
    have hnone : fileuart_open_log g r = none := by
      simp only [fileuart_open_log]
      rw [if_neg (by omega)]
    rw [hnone, Option.none_or]
    have hopen : fileuart_open_mounted_log_locked g r.fd = (g, true) := by
      simp [fileuart_open_mounted_log_locked, hpos, hfd]
    exact (keeps_flush_locked hcount hopen).handle h
  by_cases hname : g.devname = []
  · have hsame : (fileuart_flush_locked g r).1 = g := by
      simp [fileuart_flush_locked, fileuart_open_mounted_log_locked, hcount, hpos, hfd, hname]
    rw [hsame]
    exact fun hfd' => absurd hfd' hfd
  by_cases hr : r.fd < 0
  · have hfailed : (fileuart_flush_locked g r).1 = { g with fd := r.fd } := by
      simp [fileuart_flush_locked, fileuart_open_mounted_log_locked, hcount, hpos, hfd, hname, hr]
    rw [hfailed]
    intro hfd'
    have : r.fd ≥ 0 := hfd'
    omega
  · -- `open` succeeds for the recorded device
    have hsome : fileuart_open_log g r = some g.devname := by
      simp only [fileuart_open_log]
      rw [if_pos ⟨hdepth, hcount, by omega, hname, by omega⟩]
    have hopen : fileuart_open_mounted_log_locked g r.fd =
        ({ g with fd := r.fd, dirty_bytes := 0 }, true) := by
      simp [fileuart_open_mounted_log_locked, hpos, hfd, hname, hr]
    rw [hsome, Option.some_or]
    apply (keeps_flush_locked hcount hopen).handle
    exact fun _ => ⟨hdepth, hname, rfl⟩

theorem open_devname (g : FileuartDev) (fd : Int) :
    (fileuart_open_mounted_log_locked g fd).1.devname = g.devname := by
  unfold fileuart_open_mounted_log_locked
  split
  · rfl
  · split
    · rfl
    · split
      · rfl
      · split <;> rfl

theorem flush_devname (g : FileuartDev) (r : FlushAnswers) :
    (fileuart_flush_locked g r).1.devname = g.devname := by
  by_cases hcount : g.tx_count = 0
  · simp [fileuart_flush_locked, hcount]
  have hname := open_devname g r.fd
  cases hopen : fileuart_open_mounted_log_locked g r.fd with
  | mk g' opened =>
    rw [hopen] at hname
    cases opened with
    | false =>
      have hsame : (fileuart_flush_locked g r).1 = g' := by
        simp [fileuart_flush_locked, hcount, hopen]
      rw [hsame]
      exact hname
    | true => exact (keeps_flush_locked hcount hopen).devname.trans hname

/-- The locked part of `fileuart_delayed_work`. -/
theorem handle_delayed_work {g : FileuartDev} {opened : Option CString} (h : Handle g opened)
    (r : FlushAnswers) :
    let g' := (if g.suspend_depth = 0 then fileuart_flush_locked g r else (g, [])).1
    Handle g' ((fileuart_open_log g r).or opened) ∧ g'.devname = g.devname := by
  dsimp only
  by_cases hdepth : g.suspend_depth = 0
  · rw [if_pos hdepth]
    exact ⟨handle_flush h hdepth r, flush_devname g r⟩
  · have hnone : fileuart_open_log g r = none := by simp [fileuart_open_log, hdepth]
    rw [if_neg hdepth, hnone]
    exact ⟨h, rfl⟩

/-- A mount that leaves the descriptor open was for the recorded device: `strncmp` over the
    whole array also tells a name from its truncation. -/
theorem handle_mount {g : FileuartDev} {opened : Option CString} (h : Handle g opened)
    (hlen : g.devname.length < DISK_NAME_LEN) (dev : Option CString) :
    Handle (fileuart_mount_locked g dev) opened := by
  unfold fileuart_mount_locked
  split
  · exact h
  · exact h
  · rename_i dev hne
    split
    · intro hfd
      have : (-1 : Int) ≥ 0 := hfd
      omega
    · rename_i hcmp
      intro hfd
      obtain ⟨hdepth, hname, hopened⟩ := h hfd
      have heq : g.devname.take DISK_NAME_LEN = dev.take DISK_NAME_LEN := by
        simpa [hname, strncmpEq] using hcmp
      rw [List.take_of_length_le (by omega)] at heq
      -- the recorded name ends before the array does, so the new one is no longer than it
      have hsame : dev.take (DISK_NAME_LEN - 1) = g.devname := by
        have hlen' := congrArg List.length heq
        rw [List.length_take] at hlen'
        have hshort : dev.length < DISK_NAME_LEN := by omega
        rw [List.take_of_length_le (by omega), heq, List.take_of_length_le (by omega)]
      show g.suspend_depth = 0 ∧ dev.take (DISK_NAME_LEN - 1) ≠ [] ∧ _
      rw [hsame]
      exact ⟨hdepth, hname, hopened⟩

theorem handle_umount {g : FileuartDev} {opened : Option CString} (h : Handle g opened)
    (dev : Option CString) : Handle (fileuart_umount_locked g dev) opened := by
  unfold fileuart_umount_locked
  split
  · intro hfd
    have : (-1 : Int) ≥ 0 := hfd
    omega
  · exact h

theorem handle_suspend {g : FileuartDev} {opened : Option CString} (h : Handle g opened)
    (suspended : Bool) : Handle (fileuart_suspend_locked g suspended) opened := by
  unfold fileuart_suspend_locked
  split
  · intro hfd
    have : (-1 : Int) ≥ 0 := hfd
    omega
  · split
    · -- a suspended driver has no log open, and resuming opens none
      rename_i hpos
      intro hfd
      have hdepth := (h hfd).1
      simp [hdepth] at hpos
    · exact h

/-- A recorded name is cut to the array it is kept in. -/
theorem mount_devname_length {g : FileuartDev} (hlen : g.devname.length < DISK_NAME_LEN)
    (dev : Option CString) :
    (fileuart_mount_locked g dev).devname.length < DISK_NAME_LEN := by
  unfold fileuart_mount_locked
  split
  · exact hlen
  · exact hlen
  · show (List.take (DISK_NAME_LEN - 1) _).length < DISK_NAME_LEN
    rw [List.length_take]
    have : DISK_NAME_LEN = 32 := rfl
    omega

/-! ### The descriptor over a step -/

/-- What holds of the log handle, also while operations are in progress. -/
structure HandleInv (s : State) : Prop where
  handle : Handle s.base.dev s.opened
  name : s.base.dev.devname.length < DISK_NAME_LEN

theorem handleInv_init : HandleInv init where
  handle := by
    intro hfd
    have : (-1 : Int) ≥ 0 := hfd
    omega
  name := by decide

/-- `fileuart_schedule_flush` does not touch the device. -/
@[simp] theorem scheduleStep_dev (s : Fileuart.State) (stage : Stage) :
    (scheduleStep s stage).1.dev = s.dev := by
  cases stage <;> rfl

theorem handleInv_step {s s' : State} {a : Action} (h : HandleInv s)
    (hs : step s a = some s') : HandleInv s' := by
  obtain ⟨hh, hlen⟩ := h
  cases a with
  | write buf =>
    cases hs
    have hk := keeps_enqueue s.base.dev buf
    constructor
    · exact hk.handle hh
    · show (fileuart_enqueue s.base.dev buf).devname.length < _
      rw [hk.devname]
      exact hlen
  | mount dev =>
    cases hs
    exact ⟨handle_mount hh hlen dev, mount_devname_length hlen dev⟩
  | umount dev =>
    cases hs
    constructor
    · exact handle_umount hh dev
    · show (fileuart_umount_locked s.base.dev dev).devname.length < _
      unfold fileuart_umount_locked
      split
      · show 0 < DISK_NAME_LEN
        decide
      · exact hlen
  | setSuspended suspended =>
    cases hs
    constructor
    · exact handle_suspend hh suspended
    · show (fileuart_suspend_locked s.base.dev suspended).devname.length < _
      unfold fileuart_suspend_locked
      split
      · exact hlen
      · split <;> exact hlen
  | schedule i =>
    simp only [step] at hs
    split at hs
    · contradiction
    · rename_i stage hstage
      have hdev := scheduleStep_dev s.base stage
      split at hs <;> rename_i base _ hb <;> cases hs <;> rw [hb] at hdev
      · exact ⟨by rw [hdev]; exact hh, by rw [hdev]; exact hlen⟩
      · exact ⟨by rw [hdev]; exact hh, by rw [hdev]; exact hlen⟩
  | take =>
    simp only [step] at hs
    split at hs
    · cases hs
      exact ⟨hh, hlen⟩
    · contradiction
  | flush r =>
    simp only [step] at hs
    split at hs
    · cases hs
      obtain ⟨hh', hname⟩ := handle_delayed_work hh r
      exact ⟨hh', lt_of_eq_of_lt (congrArg List.length hname) hlen⟩
    · contradiction
  | workerSchedule =>
    simp only [step] at hs
    split at hs
    · rename_i stage hstage
      have hdev := scheduleStep_dev s.base stage
      split at hs <;> rename_i base _ hb <;> cases hs <;> rw [hb] at hdev
      · exact ⟨by rw [hdev]; exact hh, by rw [hdev]; exact hlen⟩
      · exact ⟨by rw [hdev]; exact hh, by rw [hdev]; exact hlen⟩
    · contradiction
  | finish =>
    simp only [step] at hs
    split at hs
    · cases hs
      exact ⟨hh, hlen⟩
    · contradiction

/-- Only the notifications change the recorded name. -/
theorem devname_step {s s' : State} {a : Action} (ha : ∀ dev, a ≠ .mount dev ∧ a ≠ .umount dev)
    (hs : step s a = some s') : s'.base.dev.devname = s.base.dev.devname := by
  cases a with
  | write buf =>
    cases hs
    exact (keeps_enqueue s.base.dev buf).devname
  | mount dev => exact absurd rfl (ha dev).1
  | umount dev => exact absurd rfl (ha dev).2
  | setSuspended suspended =>
    cases hs
    show (fileuart_suspend_locked s.base.dev suspended).devname = _
    unfold fileuart_suspend_locked
    split
    · rfl
    · split <;> rfl
  | schedule i =>
    simp only [step] at hs
    split at hs
    · contradiction
    · rename_i stage _
      have hdev := scheduleStep_dev s.base stage
      split at hs <;> rename_i hb <;> cases hs <;> rw [hb] at hdev <;>
        exact congrArg FileuartDev.devname hdev
  | take =>
    simp only [step] at hs
    split at hs
    · cases hs
      rfl
    · contradiction
  | flush r =>
    simp only [step] at hs
    split at hs
    · cases hs
      by_cases hdepth : s.base.dev.suspend_depth = 0
      · simpa [hdepth] using flush_devname s.base.dev r
      · simp [hdepth]
    · contradiction
  | workerSchedule =>
    simp only [step] at hs
    split at hs
    · rename_i stage _
      have hdev := scheduleStep_dev s.base stage
      split at hs <;> rename_i hb <;> cases hs <;> rw [hb] at hdev <;>
        exact congrArg FileuartDev.devname hdev
    · contradiction
  | finish =>
    simp only [step] at hs
    split at hs
    · cases hs
      rfl
    · contradiction

/-! ### The queued flush over a step -/

/-- A flush could write something. -/
def Wanted (g : FileuartDev) : Prop :=
  g.suspend_depth = 0 ∧ g.tx_count > 0 ∧ g.devname ≠ []

theorem wantsFlush_iff (g : FileuartDev) : wantsFlush g = true ↔ Wanted g := by
  simp [wantsFlush, Wanted]

/-- Some call of `fileuart_schedule_flush` is under way, or is bound to follow. -/
def Underway (s : State) : Prop :=
  s.pending ≠ [] ∨ s.worker = .taken ∨ ∃ stage, s.worker = .scheduling stage

/-- What holds of the flush work, also while operations are in progress. -/
structure FlushInv (s : State) : Prop where
  wf : s.base.wq.Wf
  flushed : Wanted s.base.dev → () ∈ s.base.wq.q ∨ Underway s

theorem flushInv_init : FlushInv init where
  wf := WorkQueue.wf_empty
  flushed := by
    intro hw
    exact absurd rfl hw.2.2

/-- A call of `fileuart_schedule_flush` that ends leaves the flush queued or unnecessary. -/
theorem scheduleStep_ends {s s' : Fileuart.State} {stage : Stage} (hwf : s.wq.Wf)
    (hs : scheduleStep s stage = (s', none)) (hw : Wanted s.dev) : () ∈ s'.wq.q := by
  cases stage with
  | readDepth => simp [scheduleStep, hw.1] at hs
  | readDevname => simp [scheduleStep, hw.2.2] at hs
  | readWork =>
    simp only [scheduleStep, Prod.mk.injEq] at hs
    obtain ⟨rfl, hnone⟩ := hs
    by_contra hmem
    rw [if_pos ((hwf.work_available_iff ()).mpr hmem)] at hnone
    contradiction
  | queueWork =>
    simp only [scheduleStep, Prod.mk.injEq] at hs
    obtain ⟨rfl, -⟩ := hs
    apply hwf.mem_work_qqueue.mpr
    exact .inl rfl

theorem scheduleStep_wf {s : Fileuart.State} (hwf : s.wq.Wf) (stage : Stage) :
    (scheduleStep s stage).1.wq.Wf := by
  cases stage with
  | readDepth => exact hwf
  | readDevname => exact hwf
  | readWork => exact hwf
  | queueWork => exact hwf.work_qqueue () () () _

/-- An operation with a call of `fileuart_schedule_flush` at its end. -/
theorem flushInv_unlock {s : State} (h : FlushInv s) (dev : FileuartDev) :
    FlushInv (s.unlock dev true) where
  wf := h.wf
  flushed := by
    intro _
    right; left
    show s.pending ++ [Stage.readDepth] ≠ []
    simp

/-- An operation that makes no flush necessary. -/
theorem flushInv_unlock_of_wanted {s : State} (h : FlushInv s) (dev : FileuartDev)
    (calls : Bool) (hw : Wanted dev → Wanted s.base.dev ∨ calls = true) :
    FlushInv (s.unlock dev calls) := by
  cases calls with
  | true => exact flushInv_unlock h dev
  | false =>
    constructor
    · exact h.wf
    · intro hdev
      have hwanted : Wanted s.base.dev := by simpa using hw hdev
      exact h.flushed hwanted

theorem flushInv_step {s s' : State} {a : Action} (h : FlushInv s)
    (hs : step s a = some s') : FlushInv s' := by
  cases a with
  | write buf =>
    cases hs
    exact flushInv_unlock h _
  | mount dev =>
    cases hs
    exact flushInv_unlock h _
  | umount dev =>
    cases hs
    apply flushInv_unlock_of_wanted h
    intro hw
    unfold fileuart_umount_locked at hw
    split at hw
    · exact absurd rfl hw.2.2
    · exact .inl hw
  | setSuspended suspended =>
    cases hs
    apply flushInv_unlock_of_wanted h
    intro hw
    exact .inr ((wantsFlush_iff _).mpr hw)
  | schedule i =>
    simp only [step] at hs
    split at hs
    · contradiction
    · rename_i stage hstage
      have hdev := scheduleStep_dev s.base stage
      have hwf := scheduleStep_wf h.wf stage
      split at hs <;> rename_i base _ hb <;> cases hs
      · -- the call goes on, so it is still under way
        rw [hb] at hwf
        constructor
        · exact hwf
        · intro _
          right; left
          show s.pending.set i _ ≠ []
          intro hnil
          simp only [List.set_eq_nil_iff] at hnil
          simp [hnil] at hstage
      · rw [hb] at hwf hdev
        constructor
        · exact hwf
        · intro hw
          left
          apply scheduleStep_ends h.wf hb
          rw [← hdev]
          exact hw
  | take =>
    simp only [step] at hs
    split at hs
    · rename_i _ _ _ _ wq hidle htake
      cases hs
      exact ⟨h.wf.take htake, fun _ => .inr (.inr (.inl rfl))⟩
    · contradiction
  | flush r =>
    simp only [step] at hs
    split at hs
    · cases hs
      constructor
      · exact h.wf
      · intro hw
        right; right; right
        exact ⟨.readDepth, if_pos ((wantsFlush_iff _).mpr hw)⟩
    · contradiction
  | workerSchedule =>
    simp only [step] at hs
    split at hs
    · rename_i stage hstage
      have hdev := scheduleStep_dev s.base stage
      have hwf := scheduleStep_wf h.wf stage
      split at hs <;> rename_i base _ hb <;> cases hs <;> rw [hb] at hwf hdev
      · exact ⟨hwf, fun _ => .inr (.inr (.inr ⟨_, rfl⟩))⟩
      · constructor
        · exact hwf
        · intro hw
          left
          apply scheduleStep_ends h.wf hb
          rw [← hdev]
          exact hw
    · contradiction
  | finish =>
    simp only [step] at hs
    split at hs
    · rename_i hret
      cases hs
      constructor
      · exact h.wf.finish ()
      · intro hw
        obtain hmem | hpend | hwork | ⟨stage, hwork⟩ := h.flushed hw
        · left
          simpa using hmem
        · exact .inr (.inl hpend)
        · rw [hret] at hwork
          contradiction
        · rw [hret] at hwork
          contradiction
    · contradiction

/-! ### Serialised operations -/

/-- An uninterrupted call of `fileuart_schedule_flush` in a task. -/
theorem serial_schedule (b : Fileuart.State) (o : Option CString) :
    ∃ tr, Lts.run step ⟨b, o, [.readDepth], .idle⟩ tr =
      some ⟨fileuart_schedule_flush b, o, [], .idle⟩ := by
  by_cases hdepth : b.dev.suspend_depth = 0
  · by_cases hname : b.dev.devname = []
    · exact ⟨[.schedule 0, .schedule 0], by
        simp [Lts.run_cons, step, scheduleStep, fileuart_schedule_flush, hdepth, hname]⟩
    · by_cases hwork : b.wq.work_available () = true
      · exact ⟨[.schedule 0, .schedule 0, .schedule 0, .schedule 0], by
          simp [Lts.run_cons, step, scheduleStep, fileuart_schedule_flush, hdepth, hname, hwork]⟩
      · exact ⟨[.schedule 0, .schedule 0, .schedule 0], by
          simp [Lts.run_cons, step, scheduleStep, fileuart_schedule_flush, hdepth, hname, hwork]⟩
  · exact ⟨[.schedule 0], by
      simp [Lts.run_cons, step, scheduleStep, fileuart_schedule_flush, hdepth]⟩

/-- An uninterrupted call of `fileuart_schedule_flush` in the worker. -/
theorem serial_workerSchedule (b : Fileuart.State) (o : Option CString) :
    ∃ tr, Lts.run step ⟨b, o, [], .scheduling .readDepth⟩ tr =
      some ⟨fileuart_schedule_flush b, o, [], .returned⟩ := by
  by_cases hdepth : b.dev.suspend_depth = 0
  · by_cases hname : b.dev.devname = []
    · exact ⟨[.workerSchedule, .workerSchedule], by
        simp [Lts.run_cons, step, scheduleStep, fileuart_schedule_flush, hdepth, hname]⟩
    · by_cases hwork : b.wq.work_available () = true
      · exact ⟨[.workerSchedule, .workerSchedule, .workerSchedule, .workerSchedule], by
          simp [Lts.run_cons, step, scheduleStep, fileuart_schedule_flush, hdepth, hname, hwork]⟩
      · exact ⟨[.workerSchedule, .workerSchedule, .workerSchedule], by
          simp [Lts.run_cons, step, scheduleStep, fileuart_schedule_flush, hdepth, hname, hwork]⟩
  · exact ⟨[.workerSchedule], by
      simp [Lts.run_cons, step, scheduleStep, fileuart_schedule_flush, hdepth]⟩

/-- A locked part followed by an uninterrupted `fileuart_schedule_flush`. -/
theorem serial_unlock (b : Fileuart.State) (o : Option CString) (a : Action)
    (dev : FileuartDev)
    (hs : step ⟨b, o, [], .idle⟩ a = some (State.unlock ⟨b, o, [], .idle⟩ dev true)) :
    ∃ tr, Lts.run step ⟨b, o, [], .idle⟩ tr =
      some ⟨fileuart_schedule_flush { b with dev := dev }, o, [], .idle⟩ := by
  obtain ⟨tr, htr⟩ := serial_schedule { b with dev := dev } o
  refine ⟨a :: tr, (Lts.run_cons_some step).mpr ⟨_, hs, ?_⟩⟩
  exact htr

/-- A firing of the work that is not interrupted. -/
theorem serial_flush (b : Fileuart.State) (o : Option CString) (r : FlushAnswers)
    {f : Unit} {x : Option Unit} (wq : WorkQueue Unit Unit Unit)
    (htake : b.wq.take () = some (f, x, wq)) :
    let b' := fileuart_delayed_work { b with wq := wq } r
    ∃ tr o', Lts.run step ⟨b, o, [], .idle⟩ tr =
      some ⟨{ b' with wq := b'.wq.finish () }, o', [], .idle⟩ := by
  -- the device and the bytes that the locked part leaves
  let locked := if b.dev.suspend_depth = 0 then fileuart_flush_locked b.dev r else (b.dev, [])
  let mid : Fileuart.State := ⟨locked.1, wq, b.file ++ locked.2⟩
  let o' := (fileuart_open_log b.dev r).or o
  have hflush : Lts.run step ⟨b, o, [], .idle⟩ [.take, .flush r] =
      some ⟨mid, o', [], if wantsFlush locked.1 then .scheduling .readDepth else .returned⟩ := by
    simp [Lts.run_cons, step, htake, mid, o', locked]
  by_cases hwants : wantsFlush locked.1 = true
  · have hwork : fileuart_delayed_work { b with wq := wq } r = fileuart_schedule_flush mid :=
      if_pos hwants
    obtain ⟨tr, htr⟩ := serial_workerSchedule mid o'
    refine ⟨[.take, .flush r] ++ (tr ++ [.finish]), o', ?_⟩
    rw [Lts.run_append, hflush, if_pos hwants, Option.bind_some, Lts.run_append, htr, hwork]
    rfl
  · have hwork : fileuart_delayed_work { b with wq := wq } r = mid := if_neg hwants
    refine ⟨[.take, .flush r] ++ [.finish], o', ?_⟩
    rw [Lts.run_append, hflush, if_neg hwants, Option.bind_some, hwork]
    rfl

/-- Each operation of the serialised driver is a run from a quiet state to a quiet state. -/
theorem serial_step {b b' : Fileuart.State} {a : Fileuart.Action}
    (hs : Fileuart.step b a = some b') (o : Option CString) :
    ∃ tr o', Lts.run step ⟨b, o, [], .idle⟩ tr = some ⟨b', o', [], .idle⟩ := by
  cases a with
  | write buf =>
    cases hs
    obtain ⟨tr, htr⟩ := serial_unlock b o (.write buf) _ rfl
    exact ⟨tr, o, htr⟩
  | mount dev =>
    cases hs
    obtain ⟨tr, htr⟩ := serial_unlock b o (.mount dev) _ rfl
    exact ⟨tr, o, htr⟩
  | umount dev =>
    cases hs
    exact ⟨[.umount dev], o, rfl⟩
  | setSuspended suspended =>
    cases hs
    by_cases hwants : wantsFlush (fileuart_suspend_locked b.dev suspended) = true
    · obtain ⟨tr, htr⟩ := serial_unlock b o (.setSuspended suspended)
        (fileuart_suspend_locked b.dev suspended) (by simp [step, hwants])
      refine ⟨tr, o, ?_⟩
      rw [htr]
      simp [fileuart_set_storage_suspended, hwants]
    · refine ⟨[.setSuspended suspended], o, ?_⟩
      simp [Lts.run_cons, step, State.unlock, fileuart_set_storage_suspended, hwants]
  | flush r =>
    simp only [Fileuart.step] at hs
    split at hs
    · contradiction
    · rename_i wq htake
      cases hs
      exact serial_flush b o r wq htake

/-! ### Quiet states -/

/-- In every quiet state that the tasks, the worker and the notifications reach, an open log
    is open on the recorded device while the driver is not suspended, and the flush that the
    buffered bytes need is queued. -/
theorem settled_run (tr : List Action) (s : State) (hrun : Lts.run step init tr = some s)
    (hquiet : s.Quiet) :
    (s.base.dev.fd ≥ 0 →
      s.base.dev.suspend_depth = 0 ∧ s.base.dev.devname ≠ [] ∧
        s.opened = some s.base.dev.devname) ∧
    (s.base.dev.tx_count > 0 → s.base.dev.suspend_depth = 0 → s.base.dev.devname ≠ [] →
      () ∈ s.base.wq.q) := by
  have hhandle := Lts.run_invariant step (fun _ _ _ => handleInv_step) handleInv_init hrun
  have hflush := Lts.run_invariant step (fun _ _ _ => flushInv_step) flushInv_init hrun
  constructor
  · exact hhandle.handle
  · intro hcount hdepth hname
    obtain hmem | hpend | hwork | ⟨stage, hwork⟩ := hflush.flushed ⟨hdepth, hcount, hname⟩
    · exact hmem
    · exact absurd hquiet.1 hpend
    · rw [hquiet.2] at hwork
      contradiction
    · rw [hquiet.2] at hwork
      contradiction

/-- The log of `sda` is open, and a byte that came during the flush waits for the next one. -/
def openLogRun : List Action :=
  [.mount (some [115, 100, 97]), .write [65],
   .schedule 0, .schedule 0, .schedule 0, .schedule 1, .schedule 0, .schedule 0, .schedule 0,
   .take, .flush ⟨3, [1], 0⟩, .write [66], .finish,
   .schedule 0, .schedule 0, .schedule 0, .schedule 0]

theorem settled_run_openLogRun :
    ∃ s, Lts.run step init openLogRun = some s ∧ s.base.dev.fd = 3 ∧
      s.base.dev.tx_count = 1 ∧ s.base.dev.suspend_depth = 0 ∧
      s.opened = some [115, 100, 97] ∧ () ∈ s.base.wq.q := by
  have hend : (Lts.run step init openLogRun).map (fun s =>
      ((s.pending, s.worker), s.base.dev.fd, s.base.dev.tx_count, s.base.dev.devname)) =
      some (([], .idle), 3, 1, [115, 100, 97]) := by decide +kernel
  obtain ⟨s, hrun, heq⟩ := Option.map_eq_some_iff.mp hend
  simp only [Prod.mk.injEq] at heq
  obtain ⟨hquiet, hfd, hcount, hname⟩ := heq
  obtain ⟨hhandle, hqueued⟩ := settled_run openLogRun s hrun hquiet
  obtain ⟨hdepth, hne, hopened⟩ := hhandle (by omega)
  exact ⟨s, hrun, hfd, hcount, hdepth, by rw [hopened, hname], hqueued (by omega) hdepth hne⟩

end Hcrtos.Native.FileuartTasks
