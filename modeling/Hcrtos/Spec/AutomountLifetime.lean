import Hcrtos.Spec.AutomountInvariant

/-!
# The automounter: object lifetime

A state is freed by its own lazy umount or by a DISCONNECT. The DISCONNECT cancels the mount
retry of the state but not its lazy umount, which a duplicate DISCONNECT can leave in the
queue of a freed state.

## Key results

- `always_lifetime_iff`: the lifetime rule holds along a run exactly when no DISCONNECT
  frees a state whose lazy umount is queued
- `lifetime_fails`: a run that breaks it
-/

namespace Hcrtos.Native.Automount

open Lts WorkQueue

/-- The lifetime rule with its supporting fact: a linked object is not freed. -/
structure Live (s : State) : Prop where
  lifetime : Lifetime s
  live : ∀ a ∈ s.mounters, a ∉ s.freed

theorem live_init : Live init where
  lifetime := ⟨rfl, by simp [init, WorkQueue.empty], List.nodup_nil⟩
  live := by simp [init]

theorem Live.quiet {P : Call → Prop} {s s' : State} {a : Addr} (h : Live s)
    (hq : Quiet P s s' a) : Live s' where
  lifetime := by
    refine ⟨hq.frame.stale.trans h.lifetime.callback, ?_, hq.freed ▸ h.lifetime.once⟩
    rw [hq.wq, hq.freed]
    exact h.lifetime.queue
  live := by rw [hq.mounters, hq.freed]; exact h.live

theorem Live.work_queue {s : State} {w : Addr × Dwork} (h : Live s) (hwf : Wf s)
    (hw : w.1 ∉ s.freed) (f : Worker) (delay : Nat) : Live (s.work_queue w f delay) where
  lifetime := by
    refine ⟨h.lifetime.callback, ?_, h.lifetime.once⟩
    intro w' hw'
    rcases hwf.wq.mem_work_qqueue.mp hw' with rfl | hw'
    · exact hw
    · exact h.lifetime.queue w' hw'
  live := h.live

/-- Freeing an object that is live and has no work queued. -/
theorem Live.del_free {s : State} {a : Addr} (h : Live s) (hwf : Wf s) (ha : a ∉ s.freed)
    (hq : ∀ k, (a, k) ∉ s.wq.q) : Live (s.del_free a) where
  lifetime := by
    refine ⟨h.lifetime.callback, ?_, ?_⟩
    · intro w hw hfreed
      rcases List.mem_append.mp hfreed with hfreed | hfreed
      · exact h.lifetime.queue w hw hfreed
      · have hwa : w.1 = a := List.mem_singleton.mp hfreed
        exact hq w.2 (hwa ▸ hw)
    · refine List.Nodup.append h.lifetime.once (List.nodup_singleton a) ?_
      intro b hb hb'
      exact ha (List.mem_singleton.mp hb' ▸ hb)
  live := by
    intro b hb hfreed
    obtain ⟨hba, hb⟩ := hwf.nodup.mem_erase_iff.mp hb
    rcases List.mem_append.mp hfreed with hfreed | hfreed
    · exact h.live b hb hfreed
    · exact hba (List.mem_singleton.mp hfreed)

theorem Live.malloc {s : State} (h : Live s) (hwf : Wf s) (d : Devname) : Live (s.malloc d) where
  lifetime := ⟨h.lifetime.callback, h.lifetime.queue, h.lifetime.once⟩
  live := by
    intro a ha hfreed
    rcases List.mem_append.mp ha with ha | ha
    · exact h.live a ha hfreed
    · have hlt := hwf.freed_known a hfreed
      exact absurd (List.mem_singleton.mp ha) (Nat.ne_of_lt hlt)

theorem Live.event {s : State} (h : Live s) (info : Option Devname) (e : Event) :
    Live (s.event info e) := by
  unfold State.event
  split
  · exact h
  · exact h
  · exact ⟨⟨h.lifetime.callback, h.lifetime.queue, h.lifetime.once⟩, h.live⟩

theorem Live.cancelMount {s : State} (h : Live s) (hwf : Wf s) (a : Addr) :
    Live (cancelMount s a) where
  lifetime := ⟨h.lifetime.callback,
    fun w hw => h.lifetime.queue w (hwf.wq.mem_work_qcancel.mp hw).2, h.lifetime.once⟩
  live := h.live

/-- A linked work belongs to a live object, so its worker starts on one. -/
theorem Live.started {s : State} (h : Live s) (hwf : Wf s) {w : Addr × Dwork} {f : Worker}
    {x : Option Addr} {wq : WorkQueue (Addr × Dwork) Worker Addr} (hw : w ∈ s.wq.q)
    (ht : s.wq.take w = some (f, x, wq)) : Live (started s w wq) where
  lifetime := by
    refine ⟨?_, fun w' hw' => h.lifetime.queue w' ((hwf.wq.mem_take ht).mp hw').2,
      h.lifetime.once⟩
    simp [Automount.started, h.lifetime.callback, h.lifetime.queue w hw]
  live := h.live

theorem Live.finished {s : State} (h : Live s) (w : Addr × Dwork) : Live (finished s w) :=
  ⟨⟨h.lifetime.callback, h.lifetime.queue, h.lifetime.once⟩, h.live⟩

theorem Live.attempt {s s' : State} {a : Addr} (h : Live s) (hwf : Wf s) (ha : a ∉ s.freed)
    (hat : Attempt s s' a) : Live s' := by
  obtain ⟨s₁, hq, rfl | ⟨-, rfl⟩⟩ := hat
  · exact h.quiet hq
  · exact (h.quiet hq).work_queue (hwf.quiet hq) (hq.freed ▸ ha) _ _

theorem Live.release {s s' : State} {a : Addr} {umountOk : Bool} (h : Live s) (hwf : Wf s)
    (ha : a ∉ s.freed) (hno : umountOk = true → ∀ k, (a, k) ∉ s.wq.q)
    (hr : Release s s' a umountOk) : Live s' := by
  obtain ⟨s₁, hq, ⟨hok, rfl⟩ | ⟨-, rfl | rfl⟩⟩ := hr
  · exact (h.quiet hq).del_free (hwf.quiet hq) (hq.freed ▸ ha) (hq.wq ▸ hno hok)
  · exact h.quiet hq
  · exact (h.quiet hq).work_queue (hwf.quiet hq) (hq.freed ▸ ha) _ _

/-- No DISCONNECT frees an object (its umount succeeds) while the lazy umount of that object
    is queued. -/
def FreesClean (s : State) : Action → Prop
  | .disconnect (some d) umountOk => d ≠ [] → umountOk = true →
      ∀ a ∈ automount_find s d, (s.heap a).mounted = true → (a, .umount_dwork) ∉ s.wq.q
  | _ => True

theorem live_step {s s' : State} {act : Action} (hwf : Wf s) (h : Live s)
    (hclean : FreesClean s act) (hs : step s act = some s') : Live s' := by
  cases act with
  | connect info mallocOk r =>
    have he := h.event info .connect
    have hwe := hwf.event info .connect
    rcases automount_fs_cases (Option.some.inj hs) with
      rfl | ⟨d, -, -, ⟨a, ha, -, hat⟩ | ⟨hd, hat⟩⟩
    · exact he
    · exact he.attempt hwe (he.live a ha) hat
    · refine (he.malloc hwe d).attempt (hwe.malloc hd) ?_ hat
      intro hfreed
      exact absurd rfl (Nat.ne_of_lt (hwe.freed_known _ hfreed))
  | disconnect info umountOk =>
    have he := h.event info .disconnect
    have hwe := hwf.event info .disconnect
    rcases automount_disconnect_cases (Option.some.inj hs) with
      ⟨rfl, -⟩ | ⟨d, a, rfl, hd, hfind, ⟨hm, rfl⟩ | ⟨hm, hr⟩⟩
    · exact he
    · have ha := he.live a (automount_find_eq_some hfind).1
      refine (he.cancelMount hwe a).del_free (hwe.cancelMount a) ha ?_
      intro k hk
      cases k with
      | mount_dwork => exact hwe.not_mem_cancelMount a hk
      | umount_dwork =>
        have hmounted := (hwe.umount_mounted a (hwe.wq.mem_work_qcancel.mp hk).2).1
        rw [hm] at hmounted
        cases hmounted
    · have ha := he.live a (automount_find_eq_some hfind).1
      refine (he.cancelMount hwe a).release (hwe.cancelMount a) ha ?_ hr
      intro hok k hk
      cases k with
      | mount_dwork => exact hwe.not_mem_cancelMount a hk
      | umount_dwork =>
        rw [event_find] at hfind
        rw [event_heap] at hm
        have hmem := (hwe.wq.mem_work_qcancel.mp hk).2
        rw [event_wq] at hmem
        exact hclean hd hok a hfind hm hmem
  | fire w r umountOk =>
    obtain ⟨hmem, f, x, wq, s₁, ht, rfl, hrun⟩ := fire_cases hwf.carries hs
    have hw := h.lifetime.queue w hmem
    have hstart := h.started hwf hmem ht
    rcases hrun with ⟨-, hat⟩ | ⟨hk, hr⟩
    · exact (hstart.attempt (hwf.started ht) hw hat).finished w
    · refine (hstart.release (hwf.started ht) hw ?_ hr).finished w
      rintro - k hk'
      obtain ⟨a, k'⟩ := w
      cases hk
      obtain ⟨hne, hk'⟩ := (hwf.wq.mem_take ht).mp hk'
      cases k with
      | mount_dwork => exact (hwf.umount_mounted a hmem).2 hk'
      | umount_dwork => exact hne rfl

/-- A step that breaks the condition leaves the queue with a work of the object it freed. -/
theorem not_lifetime_of_not_freesClean {s : State} {act : Action} (hwf : Wf s)
    (hclean : ¬ FreesClean s act) : ∃ s', step s act = some s' ∧ ¬ Lifetime s' := by
  unfold FreesClean at hclean
  split at hclean
  · rename_i d umountOk
    push Not at hclean
    obtain ⟨hd, rfl, a, hfind, hm, hmem⟩ := hclean
    refine ⟨_, rfl, ?_⟩
    have hwe := hwf.event (some d) .disconnect
    obtain ⟨s₁, hq, ⟨-, heq⟩ | ⟨hno, -⟩⟩ := automount_disconnect_mounted hd
      (s := s.event (some d) .disconnect) (by simpa using hfind) (by simpa using hm) true
    · rw [heq]
      intro hlife
      refine hlife.queue (a, .umount_dwork) ?_ (List.mem_append_right _ (List.mem_singleton.mpr rfl))
      show (a, Dwork.umount_dwork) ∈ s₁.wq.q
      rw [hq.wq]
      exact hwe.wq.mem_work_qcancel.mpr ⟨by simp, by simpa using hmem⟩
    · cases hno
  · exact absurd trivial hclean

/-- Along a run the lifetime rule holds exactly when no DISCONNECT frees an object whose lazy
    umount is queued. -/
theorem always_lifetime_iff (tr : List Action) :
    Always step Lifetime init tr ↔ Meets step FreesClean init tr :=
  always_iff_meets step (I := fun s => Wf s ∧ Live s) (fun _ h => h.2.lifetime)
    (fun _ _ _ h hG hs => ⟨wf_step h.1 hs, live_step h.1 h.2 hG hs⟩)
    (fun _ _ h hG => not_lifetime_of_not_freesClean h.1 hG) ⟨wf_init, live_init⟩

/-- The device `sda`. -/
def sda : Devname := [115, 100, 97]

/-- A duplicate DISCONNECT frees the state of `sda` while its lazy umount is queued, and the
    umount fires. -/
def staleUmountRun : List Action :=
  [.connect (some sda) true ⟨.ok, .ok⟩, .disconnect (some sda) false, .disconnect (some sda) true,
    .fire (0, .umount_dwork) ⟨.ok, .ok⟩ true]

/-- The worker runs on the freed state and frees it again. -/
theorem lifetime_fails : ∃ s, run step init staleUmountRun = some s ∧ s.freed = [0, 0] ∧
    ¬ Lifetime s :=
  ⟨_, rfl, rfl, fun h => absurd h.callback (by decide)⟩

end Hcrtos.Native.Automount
