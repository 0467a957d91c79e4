import Hcrtos.Spec.AutomountStep

/-!
# The automounter: well-formed states

What holds of the work queue and of the list of mounters in every run, whatever the order of
the events.

## Key results

- `wf_init`, `wf_step`: the initial state is well formed, and every step keeps it so
-/

namespace Hcrtos.Native.Automount

open WorkQueue

/-! ### Well-formed states -/

/-- What holds of the work queue and the list of mounters in every run. A mount retry is
    queued for linked states only; a state with a queued umount is mounted and has no mount
    retry queued. -/
structure Wf (s : State) : Prop where
  wq : s.wq.Wf
  carries : Carries OwnWork s.wq
  known : ∀ w ∈ s.wq.q, w.1 < s.next
  mounters_known : ∀ a ∈ s.mounters, a < s.next
  freed_known : ∀ a ∈ s.freed, a < s.next
  nodup : s.mounters.Nodup
  unique : ∀ a ∈ s.mounters, ∀ b ∈ s.mounters,
    (s.heap a).devname = (s.heap b).devname → a = b
  mount_live : ∀ a, (a, .mount_dwork) ∈ s.wq.q → a ∈ s.mounters
  umount_mounted : ∀ a, (a, .umount_dwork) ∈ s.wq.q →
    (s.heap a).mounted = true ∧ (a, .mount_dwork) ∉ s.wq.q

theorem wf_init : Wf init where
  wq := wf_empty
  carries := carries_empty OwnWork
  known := by simp [init, WorkQueue.empty]
  mounters_known := by simp [init]
  freed_known := by simp [init]
  nodup := List.nodup_nil
  unique := by simp [init]
  mount_live := by simp [init, WorkQueue.empty]
  umount_mounted := by simp [init, WorkQueue.empty]

/-- Unlinking works keeps the state well formed. -/
theorem Wf.shrink {s : State} (h : Wf s) {wq : WorkQueue (Addr × Dwork) Worker Addr}
    (hwq : wq.Wf) (hc : Carries OwnWork wq) (hsub : ∀ w ∈ wq.q, w ∈ s.wq.q) :
    Wf { s with wq := wq } where
  wq := hwq
  carries := hc
  known := fun w hw => h.known w (hsub w hw)
  mounters_known := h.mounters_known
  freed_known := h.freed_known
  nodup := h.nodup
  unique := h.unique
  mount_live := fun a ha => h.mount_live a (hsub _ ha)
  umount_mounted := fun a ha =>
    ⟨(h.umount_mounted a (hsub _ ha)).1, fun hm => (h.umount_mounted a (hsub _ ha)).2 (hsub _ hm)⟩

/-- The names of two objects compare the same after a step that keeps the frame. -/
theorem Frame.devname_eq {s s' : State} {a : Addr} (h : Frame s s' a) (b : Addr) :
    (s'.heap b).devname = (s.heap b).devname := by
  by_cases hb : b = a
  · rw [hb, h.devname]
  · rw [h.heap_ne b hb]

theorem Frame.mounted_of {s s' : State} {a : Addr} (h : Frame s s' a) {b : Addr}
    (hb : (s.heap b).mounted = true) : (s'.heap b).mounted = true := by
  by_cases hba : b = a
  · subst hba; exact h.mounted hb
  · rwa [h.heap_ne b hba]

/-- Logging, and writing the object without unmounting it, keeps the state well formed. -/
theorem Wf.quiet {P : Call → Prop} {s s' : State} {a : Addr} (h : Wf s)
    (hq : Quiet P s s' a) : Wf s' where
  wq := hq.wq ▸ h.wq
  carries := hq.wq ▸ h.carries
  known := by rw [hq.wq, hq.frame.next]; exact h.known
  mounters_known := by rw [hq.mounters, hq.frame.next]; exact h.mounters_known
  freed_known := by rw [hq.freed, hq.frame.next]; exact h.freed_known
  nodup := hq.mounters ▸ h.nodup
  unique := by
    intro b hb c hc hbc
    rw [hq.frame.devname_eq, hq.frame.devname_eq] at hbc
    exact h.unique b (hq.mounters ▸ hb) c (hq.mounters ▸ hc) hbc
  mount_live := by rw [hq.wq, hq.mounters]; exact h.mount_live
  umount_mounted := by
    rw [hq.wq]
    intro b hb
    exact ⟨hq.frame.mounted_of (h.umount_mounted b hb).1, (h.umount_mounted b hb).2⟩

/-- A mount retry is queued for a linked object that is not mounted. -/
theorem Wf.queue_mount {s : State} {a : Addr} (h : Wf s) (ha : a ∈ s.mounters)
    (hm : (s.heap a).mounted = false) :
    Wf (s.work_queue (a, .mount_dwork) .automount_mount_retry AUTOMOUNT_RETRY_DELAY) where
  wq := h.wq.work_qqueue _ _ _ _
  carries := h.carries.work_qqueue h.wq ⟨rfl, rfl⟩
  known := by
    intro w hw
    rcases h.wq.mem_work_qqueue.mp hw with rfl | hw
    · exact h.mounters_known a ha
    · exact h.known w hw
  mounters_known := h.mounters_known
  freed_known := h.freed_known
  nodup := h.nodup
  unique := h.unique
  mount_live := by
    intro b hb
    rcases h.wq.mem_work_qqueue.mp hb with hb | hb
    · cases hb; exact ha
    · exact h.mount_live b hb
  umount_mounted := by
    intro b hb
    have hb' : (b, .umount_dwork) ∈ s.wq.q := (h.wq.mem_work_qqueue.mp hb).resolve_left (by simp)
    refine ⟨(h.umount_mounted b hb').1, ?_⟩
    intro hmem
    rcases h.wq.mem_work_qqueue.mp hmem with hmem | hmem
    · cases hmem
      have hmounted := (h.umount_mounted a hb').1
      rw [hm] at hmounted
      cases hmounted
    · exact (h.umount_mounted b hb').2 hmem

/-- A lazy umount is queued for a mounted object without a mount retry. -/
theorem Wf.queue_umount {s : State} {a : Addr} (h : Wf s) (ha : a < s.next)
    (hm : (s.heap a).mounted = true) (hq : (a, .mount_dwork) ∉ s.wq.q) :
    Wf (s.work_queue (a, .umount_dwork) .autoumount_fs 2000) where
  wq := h.wq.work_qqueue _ _ _ _
  carries := h.carries.work_qqueue h.wq ⟨rfl, rfl⟩
  known := by
    intro w hw
    rcases h.wq.mem_work_qqueue.mp hw with rfl | hw
    · exact ha
    · exact h.known w hw
  mounters_known := h.mounters_known
  freed_known := h.freed_known
  nodup := h.nodup
  unique := h.unique
  mount_live := fun b hb => h.mount_live b ((h.wq.mem_work_qqueue.mp hb).resolve_left (by simp))
  umount_mounted := by
    intro b hb
    have hno : (b, .mount_dwork) ∉ s.wq.q → (b, Dwork.mount_dwork) ∉
        (s.wq.work_qqueue (a, .umount_dwork) .autoumount_fs a 2000).q := by
      intro hno hmem
      exact hno ((h.wq.mem_work_qqueue.mp hmem).resolve_left (by simp))
    rcases h.wq.mem_work_qqueue.mp hb with hb | hb
    · cases hb
      exact ⟨hm, hno hq⟩
    · exact ⟨(h.umount_mounted b hb).1, hno (h.umount_mounted b hb).2⟩

/-- Unlinking and freeing an object that has no mount retry queued. -/
theorem Wf.del_free {s : State} {a : Addr} (h : Wf s) (ha : a < s.next)
    (hq : (a, .mount_dwork) ∉ s.wq.q) : Wf (s.del_free a) where
  wq := h.wq
  carries := h.carries
  known := h.known
  mounters_known := fun b hb => h.mounters_known b (List.mem_of_mem_erase hb)
  freed_known := by
    intro b hb
    rcases List.mem_append.mp hb with hb | hb
    · exact h.freed_known b hb
    · rwa [List.mem_singleton.mp hb]
  nodup := h.nodup.erase a
  unique := fun b hb c hc =>
    h.unique b (List.mem_of_mem_erase hb) c (List.mem_of_mem_erase hc)
  mount_live := by
    intro b hb
    refine h.nodup.mem_erase_iff.mpr ⟨?_, h.mount_live b hb⟩
    intro hba
    exact hq (hba ▸ hb)
  umount_mounted := h.umount_mounted

/-- The new object of a device that no linked object is named after. -/
theorem Wf.malloc {s : State} {d : Devname} (h : Wf s)
    (hd : ∀ a ∈ s.mounters, (s.heap a).devname ≠ d) :
    Wf (s.malloc d) := by
  have hne : ∀ a ∈ s.mounters, a ≠ s.next := fun a ha => Nat.ne_of_lt (h.mounters_known a ha)
  refine ⟨h.wq, h.carries, fun w hw => Nat.lt_succ_of_lt (h.known w hw), ?_,
    fun a ha => Nat.lt_succ_of_lt (h.freed_known a ha), ?_, ?_,
    fun a ha => List.mem_append_left _ (h.mount_live a ha), ?_⟩
  · intro a ha
    rcases List.mem_append.mp ha with ha | ha
    · exact Nat.lt_succ_of_lt (h.mounters_known a ha)
    · rw [List.mem_singleton.mp ha]; exact Nat.lt_succ_self _
  · refine List.Nodup.append h.nodup (List.nodup_singleton _) ?_
    intro a ha ha'
    exact hne a ha (List.mem_singleton.mp ha')
  · intro a ha b hb hab
    rcases List.mem_append.mp ha with ha | ha <;> rcases List.mem_append.mp hb with hb | hb
    · simp only [State.malloc, State.write, Function.update_of_ne (hne a ha),
        Function.update_of_ne (hne b hb)] at hab
      exact h.unique a ha b hb hab
    · rw [List.mem_singleton.mp hb] at hab ⊢
      simp only [State.malloc, State.write, Function.update_of_ne (hne a ha), Function.update_self] at hab
      exact absurd hab (hd a ha)
    · rw [List.mem_singleton.mp ha] at hab ⊢
      simp only [State.malloc, State.write, Function.update_of_ne (hne b hb), Function.update_self] at hab
      exact absurd hab.symm (hd b hb)
    · rw [List.mem_singleton.mp ha, List.mem_singleton.mp hb]
  · intro a ha
    have hlt : a ≠ s.next := Nat.ne_of_lt (h.known _ ha)
    simpa [State.malloc, State.write, hlt] using h.umount_mounted a ha

theorem Wf.attempt {s s' : State} {a : Addr} (h : Wf s) (ha : a ∈ s.mounters)
    (hat : Attempt s s' a) : Wf s' := by
  obtain ⟨s₁, hq, rfl | ⟨hm, rfl⟩⟩ := hat
  · exact h.quiet hq
  · exact (h.quiet hq).queue_mount (hq.mounters ▸ ha) hm

theorem Wf.release {s s' : State} {a : Addr} {umountOk : Bool} (h : Wf s) (ha : a < s.next)
    (hm : (s.heap a).mounted = true) (hno : (a, .mount_dwork) ∉ s.wq.q)
    (hr : Release s s' a umountOk) : Wf s' := by
  obtain ⟨s₁, hq, ⟨-, rfl⟩ | ⟨-, rfl | rfl⟩⟩ := hr
  · exact (h.quiet hq).del_free (hq.frame.next ▸ ha) (hq.wq ▸ hno)
  · exact h.quiet hq
  · exact (h.quiet hq).queue_umount (hq.frame.next ▸ ha) (hq.frame.mounted hm) (hq.wq ▸ hno)

@[simp] theorem event_heap (s : State) (info : Option Devname) (e : Event) :
    (s.event info e).heap = s.heap := by
  unfold State.event; split <;> rfl

@[simp] theorem event_mounters (s : State) (info : Option Devname) (e : Event) :
    (s.event info e).mounters = s.mounters := by
  unfold State.event; split <;> rfl

@[simp] theorem event_wq (s : State) (info : Option Devname) (e : Event) :
    (s.event info e).wq = s.wq := by
  unfold State.event; split <;> rfl

@[simp] theorem event_find (s : State) (info : Option Devname) (e : Event) (d : Devname) :
    automount_find (s.event info e) d = automount_find s d := by
  unfold State.event; split <;> rfl

theorem Wf.event {s : State} (h : Wf s) (info : Option Devname) (e : Event) :
    Wf (s.event info e) := by
  unfold State.event
  split
  · exact h
  · exact h
  · exact ⟨h.wq, h.carries, h.known, h.mounters_known, h.freed_known, h.nodup, h.unique,
      h.mount_live, h.umount_mounted⟩

theorem Wf.cancelMount {s : State} (h : Wf s) (a : Addr) : Wf (cancelMount s a) :=
  h.shrink (h.wq.work_qcancel _) (h.carries.work_qcancel h.wq _)
    fun _ hw => (h.wq.mem_work_qcancel.mp hw).2

theorem Wf.not_mem_cancelMount {s : State} (h : Wf s) (a : Addr) :
    (a, .mount_dwork) ∉ (Automount.cancelMount s a).wq.q :=
  fun hmem => (h.wq.mem_work_qcancel.mp hmem).1 rfl

theorem Wf.started {s : State} (h : Wf s) {w : Addr × Dwork} {f : Worker} {x : Option Addr}
    {wq : WorkQueue (Addr × Dwork) Worker Addr} (ht : s.wq.take w = some (f, x, wq)) :
    Wf (started s w wq) := by
  have hshrink := h.shrink (h.wq.take ht) (h.carries.take h.wq ht)
    fun _ hw => ((h.wq.mem_take ht).mp hw).2
  exact ⟨hshrink.wq, hshrink.carries, hshrink.known, hshrink.mounters_known,
    hshrink.freed_known, hshrink.nodup, hshrink.unique, hshrink.mount_live,
    hshrink.umount_mounted⟩

theorem Wf.finished {s : State} (h : Wf s) (w : Addr × Dwork) : Wf (finished s w) :=
  h.shrink (h.wq.finish w) (h.carries.finish w) fun _ hw => hw

/-- Every step keeps the state well formed. -/
theorem wf_step {s s' : State} {act : Action} (h : Wf s) (hs : step s act = some s') :
    Wf s' := by
  cases act with
  | connect info mallocOk r =>
    have he := h.event info .connect
    rcases automount_fs_cases (Option.some.inj hs) with
      rfl | ⟨d, -, -, ⟨a, ha, -, hat⟩ | ⟨hd, hat⟩⟩
    · exact he
    · exact he.attempt ha hat
    · exact (he.malloc hd).attempt (List.mem_append_right _ (List.mem_singleton.mpr rfl)) hat
  | disconnect info umountOk =>
    have he := h.event info .disconnect
    rcases automount_disconnect_cases (Option.some.inj hs) with
      ⟨rfl, -⟩ | ⟨d, a, -, -, hfind, ⟨-, rfl⟩ | ⟨hm, hr⟩⟩
    · exact he
    · have ha := he.mounters_known a (automount_find_eq_some hfind).1
      exact (he.cancelMount a).del_free ha (he.not_mem_cancelMount a)
    · have ha := he.mounters_known a (automount_find_eq_some hfind).1
      exact (he.cancelMount a).release ha hm (he.not_mem_cancelMount a) hr
  | fire w r umountOk =>
    obtain ⟨hmem, f, x, wq, s₁, ht, rfl, hrun⟩ := fire_cases h.carries hs
    obtain ⟨a, k⟩ := w
    rcases hrun with ⟨rfl, hat⟩ | ⟨rfl, hr⟩
    · exact ((h.started ht).attempt (h.mount_live a hmem) hat).finished _
    · obtain ⟨hm, hno⟩ := h.umount_mounted a hmem
      refine ((h.started ht).release (h.known _ hmem) hm ?_ hr).finished _
      exact fun hmount => hno ((h.wq.mem_take ht).mp hmount).2

end Hcrtos.Native.Automount
