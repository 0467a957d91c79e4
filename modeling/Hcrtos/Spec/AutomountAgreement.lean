import Hcrtos.Spec.AutomountLifetime

/-!
# The automounter: agreement with the latest event

A DISCONNECT cancels the mount retry of its device, a CONNECT does not cancel the lazy
umount. Calls therefore agree with the latest event of their device in the runs without a
CONNECT that finds a lazy umount queued.

## Key results

- `agrees_of_connectsClean`: calls agree with the latest event as long as no CONNECT arrives
  while a lazy umount of its device is queued
- `stale_umount_of_not_connectsClean`: such a CONNECT leaves a work queued that unmounts the
  device
- `agrees_fails`: a run in which it does
-/

namespace Hcrtos.Native.Automount

open Lts WorkQueue

/-- The queued works belong to the latest event of their device, and so did every logged
    call: retries to a CONNECT, lazy umounts to a DISCONNECT. -/
structure Current (s : State) : Prop where
  mount : ∀ a, (a, .mount_dwork) ∈ s.wq.q → s.latest (s.heap a).devname = some .connect
  umount : ∀ a, (a, .umount_dwork) ∈ s.wq.q → s.latest (s.heap a).devname = some .disconnect
  log : ∀ e ∈ s.log, Agrees e

theorem current_init : Current init where
  mount := by simp [init, WorkQueue.empty]
  umount := by simp [init, WorkQueue.empty]
  log := by simp [init]

private theorem agrees_connect {c : Call} (hc : NoUmount c) : Agrees (c, some .connect) := by
  cases c with
  | mount => exact fun _ => by simp
  | umount => exact hc.elim
  | sys_notify_event => trivial

private theorem agrees_disconnect {c : Call} (hc : NoMount c) : Agrees (c, some .disconnect) := by
  cases c with
  | mount => exact hc.elim
  | umount => exact fun _ => by simp
  | sys_notify_event => trivial

/-- The calls of one kind of attempt agree with the event that kind of attempt belongs to. -/
private theorem Current.quiet {P : Call → Prop} {e : Event} (hP : ∀ c, P c → Agrees (c, some e))
    {s s' : State} {a : Addr} (h : Current s) (hl : s.latest (s.heap a).devname = some e)
    (hq : Quiet P s s' a) : Current s' where
  mount := by
    intro b hb
    rw [hq.frame.latest, hq.frame.devname_eq]
    exact h.mount b (hq.wq ▸ hb)
  umount := by
    intro b hb
    rw [hq.frame.latest, hq.frame.devname_eq]
    exact h.umount b (hq.wq ▸ hb)
  log := by
    obtain ⟨cs, hlog, hcs⟩ := hq.log
    intro c hc
    rw [hlog] at hc
    rcases List.mem_append.mp hc with hc | hc
    · exact h.log c hc
    · obtain ⟨hPc, heq⟩ := hcs c hc
      obtain ⟨c, l⟩ := c
      rw [hl] at heq
      cases heq
      exact hP c hPc

theorem Current.attempt {s s' : State} {a : Addr} (h : Current s) (hwf : Wf s)
    (hl : s.latest (s.heap a).devname = some .connect) (hat : Attempt s s' a) : Current s' := by
  obtain ⟨s₁, hq, rfl | ⟨-, rfl⟩⟩ := hat
  · exact h.quiet (fun _ => agrees_connect) hl hq
  · have h₁ := h.quiet (fun _ => agrees_connect) hl hq
    have hwf₁ := hwf.quiet hq
    refine ⟨?_, ?_, h₁.log⟩
    · intro b hb
      rcases hwf₁.wq.mem_work_qqueue.mp hb with hb | hb
      · cases hb
        show s₁.latest (s₁.heap a).devname = _
        rw [hq.frame.latest, hq.frame.devname]
        exact hl
      · exact h₁.mount b hb
    · intro b hb
      exact h₁.umount b ((hwf₁.wq.mem_work_qqueue.mp hb).resolve_left (by simp))

theorem Current.release {s s' : State} {a : Addr} {umountOk : Bool} (h : Current s) (hwf : Wf s)
    (hl : s.latest (s.heap a).devname = some .disconnect) (hr : Release s s' a umountOk) :
    Current s' := by
  obtain ⟨s₁, hq, hcase⟩ := hr
  have h₁ := h.quiet (fun _ => agrees_disconnect) hl hq
  have hwf₁ := hwf.quiet hq
  rcases hcase with ⟨-, rfl⟩ | ⟨-, rfl | rfl⟩
  · exact ⟨h₁.mount, h₁.umount, h₁.log⟩
  · exact h₁
  · refine ⟨?_, ?_, h₁.log⟩
    · intro b hb
      exact h₁.mount b ((hwf₁.wq.mem_work_qqueue.mp hb).resolve_left (by simp))
    · intro b hb
      rcases hwf₁.wq.mem_work_qqueue.mp hb with hb | hb
      · cases hb
        show s₁.latest (s₁.heap a).devname = _
        rw [hq.frame.latest, hq.frame.devname]
        exact hl
      · exact h₁.umount b hb

theorem Current.malloc {s : State} (h : Current s) (hwf : Wf s) (d : Devname) :
    Current (s.malloc d) := by
  have hold : ∀ a k, (a, k) ∈ s.wq.q → (s.malloc d).heap a = s.heap a := by
    intro a k hmem
    exact Function.update_of_ne (Nat.ne_of_lt (hwf.known _ hmem)) _ _
  refine ⟨?_, ?_, h.log⟩
  · intro a ha
    rw [hold a _ ha]
    exact h.mount a ha
  · intro a ha
    rw [hold a _ ha]
    exact h.umount a ha

theorem Current.started {s : State} (h : Current s) (hwf : Wf s) {w : Addr × Dwork}
    {f : Worker} {x : Option Addr} {wq : WorkQueue (Addr × Dwork) Worker Addr}
    (ht : s.wq.take w = some (f, x, wq)) : Current (started s w wq) :=
  ⟨fun a ha => h.mount a ((hwf.wq.mem_take ht).mp ha).2,
    fun a ha => h.umount a ((hwf.wq.mem_take ht).mp ha).2, h.log⟩

/-- No CONNECT arrives for a device while a lazy umount of an object of that name is queued. -/
def ConnectsClean (s : State) : Action → Prop
  | .connect (some d) _ _ => d ≠ [] →
      ∀ w ∈ s.wq.q, w.2 = .umount_dwork → (s.heap w.1).devname ≠ d
  | _ => True

instance (s : State) (act : Action) : Decidable (ConnectsClean s act) := by
  unfold ConnectsClean; split <;> infer_instance

/-- The latest event of a named device is the one just recorded. -/
theorem event_latest (s : State) {d : Devname} (hd : d ≠ []) (e : Event) (d' : Devname) :
    (s.event (some d) e).latest d' = if d' = d then some e else s.latest d' := by
  unfold State.event
  split
  · contradiction
  · simp_all
  · rename_i heq
    cases heq
    simp [Function.update_apply]

theorem Current.event_connect {s : State} (h : Current s) {info : Option Devname}
    {mallocOk : Bool} {r : MountResults} (hclean : ConnectsClean s (.connect info mallocOk r)) :
    Current (s.event info .connect) := by
  match info with
  | none => exact h
  | some [] => exact h
  | some (c :: cs) =>
    have hd : c :: cs ≠ [] := by simp
    refine ⟨?_, ?_, h.log⟩
    · intro a ha
      rw [event_latest s hd]
      split
      · rfl
      · exact h.mount a ha
    · intro a ha
      have hname : (s.heap a).devname ≠ c :: cs :=
        hclean hd (a, .umount_dwork) (by simpa using ha) rfl
      rw [event_latest s hd, event_heap, if_neg hname]
      exact h.umount a ha

/-- A DISCONNECT of a device without a linked object finds no mount retry of that device. -/
theorem Current.event_ignored {s : State} (h : Current s) (hwf : Wf s) {info : Option Devname}
    (hnone : ∀ d, info = some d → d ≠ [] → automount_find s d = none) :
    Current (s.event info .disconnect) := by
  match info with
  | none => exact h
  | some [] => exact h
  | some (c :: cs) =>
    have hd : c :: cs ≠ [] := by simp
    refine ⟨?_, ?_, h.log⟩
    · intro a ha
      have hname := automount_find_eq_none (hnone _ rfl hd) a (hwf.mount_live a ha)
      rw [event_latest s hd, event_heap, if_neg hname]
      exact h.mount a ha
    · intro a ha
      rw [event_latest s hd]
      split
      · rfl
      · exact h.umount a ha

/-- A DISCONNECT cancels the only mount retry of its device. -/
theorem Current.event_cancel {s : State} (h : Current s) (hwf : Wf s) {d : Devname} {a : Addr}
    (hd : d ≠ []) (hfind : automount_find s d = some a) :
    Current (cancelMount (s.event (some d) .disconnect) a) := by
  obtain ⟨ha, hname⟩ := automount_find_eq_some hfind
  have hwe := hwf.event (some d) .disconnect
  refine ⟨?_, ?_, ?_⟩
  · intro b hb
    obtain ⟨hne, hb⟩ := hwe.wq.mem_work_qcancel.mp hb
    rw [event_wq] at hb
    have hbd : (s.heap b).devname ≠ d := by
      intro hbd
      have hba := hwf.unique b (hwf.mount_live b hb) a ha (hbd.trans hname.symm)
      exact hne (by rw [hba])
    show (s.event (some d) .disconnect).latest ((s.event (some d) .disconnect).heap b).devname = _
    rw [event_heap, event_latest s hd, if_neg hbd]
    exact h.mount b hb
  · intro b hb
    have hb := (hwe.wq.mem_work_qcancel.mp hb).2
    rw [event_wq] at hb
    show (s.event (some d) .disconnect).latest ((s.event (some d) .disconnect).heap b).devname = _
    rw [event_heap, event_latest s hd]
    split
    · rfl
    · exact h.umount b hb
  · have hlog : (s.event (some d) .disconnect).log = s.log := by
      unfold State.event; split <;> rfl
    show ∀ e ∈ (s.event (some d) .disconnect).log, Agrees e
    rw [hlog]
    exact h.log

theorem current_step {s s' : State} {act : Action} (hwf : Wf s) (h : Current s)
    (hclean : ConnectsClean s act) (hs : step s act = some s') : Current s' := by
  cases act with
  | connect info mallocOk r =>
    have he := h.event_connect hclean
    have hwe := hwf.event info .connect
    rcases automount_fs_cases (Option.some.inj hs) with
      rfl | ⟨d, rfl, hd, ⟨a, ha, hname, hat⟩ | ⟨hnew, hat⟩⟩
    · exact he
    · refine he.attempt hwe ?_ hat
      rw [hname, event_latest s hd, if_pos rfl]
    · refine (he.malloc hwe d).attempt (hwe.malloc hnew) ?_ hat
      have hname : (((s.event (some d) .connect).malloc d).heap
          (s.event (some d) .connect).next).devname = d := by
        simp [State.malloc, State.write]
      rw [hname]
      show (s.event (some d) .connect).latest d = _
      rw [event_latest s hd, if_pos rfl]
  | disconnect info umountOk =>
    have hwe := hwf.event info .disconnect
    rcases automount_disconnect_cases (Option.some.inj hs) with
      ⟨rfl, hnone⟩ | ⟨d, a, rfl, hd, hfind, hcase⟩
    · exact h.event_ignored hwf (by simpa using hnone)
    · have hc := h.event_cancel hwf hd (by simpa using hfind)
      rcases hcase with ⟨-, rfl⟩ | ⟨-, hr⟩
      · exact ⟨hc.mount, hc.umount, hc.log⟩
      · refine hc.release (hwe.cancelMount a) ?_ hr
        show (s.event (some d) .disconnect).latest
          ((s.event (some d) .disconnect).heap a).devname = _
        rw [(automount_find_eq_some hfind).2, event_latest s hd, if_pos rfl]
  | fire w r umountOk =>
    obtain ⟨hmem, f, x, wq, s₁, ht, rfl, hrun⟩ := fire_cases hwf.carries hs
    have hstart := h.started hwf ht
    obtain ⟨a, k⟩ := w
    rcases hrun with ⟨rfl, hat⟩ | ⟨rfl, hr⟩
    · have h₁ := hstart.attempt (hwf.started ht) (h.mount a hmem) hat
      exact ⟨h₁.mount, h₁.umount, h₁.log⟩
    · have h₁ := hstart.release (hwf.started ht) (h.umount a hmem) hr
      exact ⟨h₁.mount, h₁.umount, h₁.log⟩

/-- In every run in which no CONNECT arrives while a lazy umount of its device is queued, no
    device is unmounted when its latest event is a CONNECT, and none is mounted when its
    latest event is a DISCONNECT. -/
theorem agrees_of_connectsClean (tr : List Action) (s : State) (hrun : run step init tr = some s)
    (hmeets : Meets step ConnectsClean init tr) : ∀ e ∈ s.log, Agrees e := by
  have hinv : Wf s ∧ Current s :=
    run_invariant_of_meets step (I := fun s => Wf s ∧ Current s)
      (fun _ _ _ h hG hs => ⟨wf_step h.1 hs, current_step h.1 h.2 hG hs⟩)
      ⟨wf_init, current_init⟩ hmeets hrun
  exact hinv.2.log

/-- A mount attempt unlinks no work and keeps the names and the latest events. -/
theorem Attempt.keeps {s s' : State} {a : Addr} (hat : Attempt s s' a) (hwf : Wf s) :
    (∀ w ∈ s.wq.q, w ∈ s'.wq.q) ∧ s'.latest = s.latest ∧
      ∀ b, (s'.heap b).devname = (s.heap b).devname := by
  obtain ⟨s₁, hq, rfl | ⟨-, rfl⟩⟩ := hat
  · exact ⟨fun w hw => hq.wq ▸ hw, hq.frame.latest, hq.frame.devname_eq⟩
  · refine ⟨?_, hq.frame.latest, hq.frame.devname_eq⟩
    intro w hw
    exact (hwf.quiet hq).wq.mem_work_qqueue.mpr (.inr (hq.wq ▸ hw))

/-- A CONNECT that breaks the condition leaves a work queued that unmounts the device when it
    fires. -/
theorem stale_umount_of_not_connectsClean {s : State} {act : Action} (hwf : Wf s)
    (hclean : ¬ ConnectsClean s act) : ∃ s', step s act = some s' ∧ ∃ w ∈ s'.wq.q,
      w.2 = .umount_dwork ∧ s'.latest (s'.heap w.1).devname = some .connect := by
  unfold ConnectsClean at hclean
  split at hclean
  · rename_i d mallocOk r
    push Not at hclean
    obtain ⟨hd, w, hmem, hk, hname⟩ := hclean
    have hwe := hwf.event (some d) .connect
    have hlatest : (s.event (some d) .connect).latest d = some .connect := by
      rw [event_latest s hd, if_pos rfl]
    have hmem' : w ∈ (s.event (some d) .connect).wq.q := by simpa using hmem
    refine ⟨_, rfl, w, ?_, hk, ?_⟩
    all_goals
      rcases automount_fs_cases
        (rfl : automount_fs (s.event (some d) .connect) (some d) mallocOk r = _) with
        heq | ⟨d', hd', -, ⟨a, -, -, hat⟩ | ⟨hnew, hat⟩⟩
    · rw [heq]; exact hmem'
    · exact (hat.keeps hwe).1 w hmem'
    · exact (hat.keeps (hwe.malloc hnew)).1 w hmem'
    · rw [heq, event_heap, hname, hlatest]
    · rw [(hat.keeps hwe).2.1, (hat.keeps hwe).2.2, event_heap, hname, hlatest]
    · rw [(hat.keeps (hwe.malloc hnew)).2.1, (hat.keeps (hwe.malloc hnew)).2.2]
      have hold : ((s.event (some d) .connect).malloc d').heap w.1 = s.heap w.1 := by
        rw [← event_heap s (some d) .connect]
        exact Function.update_of_ne (Nat.ne_of_lt (hwe.known w hmem')) _ _
      rw [hold, hname]
      exact hlatest
  · exact absurd trivial hclean

/-- `sda` is plugged in and out. -/
def plugRun : List Action :=
  [.connect (some sda) true ⟨.ok, .ok⟩, .disconnect (some sda) true]

theorem agrees_plugRun : ∃ s, run step init plugRun = some s ∧ ∀ e ∈ s.log, Agrees e :=
  ⟨_, rfl, agrees_of_connectsClean plugRun _ rfl (by decide)⟩

/-- `sda` is plugged in again while its lazy umount is queued. -/
def replugRun : List Action :=
  [.connect (some sda) true ⟨.ok, .ok⟩, .disconnect (some sda) false,
    .connect (some sda) true ⟨.ok, .ok⟩, .fire (0, .umount_dwork) ⟨.ok, .ok⟩ true]

/-- The lazy umount unmounts the device after the CONNECT. -/
theorem agrees_fails : ∃ s, run step init replugRun = some s ∧
    (.umount sda true, some .connect) ∈ s.log ∧ ¬ ∀ e ∈ s.log, Agrees e := by
  have hmem : (Call.umount sda true, some Event.connect) ∈
      ((run step init replugRun).map State.log).getD [] := by decide
  exact ⟨_, rfl, hmem, fun h => h _ hmem rfl rfl⟩

end Hcrtos.Native.Automount
