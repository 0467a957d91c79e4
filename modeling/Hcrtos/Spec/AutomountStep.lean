import Hcrtos.Native.Automount
import Hcrtos.Spec.WorkQueueCorrect

/-!
# The automounter: what one step changes

One lemma for each function of the automounter says everything the function can do to the
system, and one for each kind of step says which function runs on which object. The
invariants of the other `Automount` files are derived from these.

## Key results

- `automount_try_mount_attempt`, `autoumount_fs_release`: the effects of a mount attempt and
  of an umount attempt
- `automount_fs_cases`, `automount_disconnect_cases`, `fire_cases`: the cases of a CONNECT, a
  DISCONNECT and a work that fires
-/

namespace Hcrtos.Native.Automount

open WorkQueue

/-! ### What one function changes -/

/-- The works of an object carry the function for their kind and the object itself. -/
def OwnWork (w : Addr × Dwork) (worker : Worker) (arg : Addr) : Prop :=
  arg = w.1 ∧
    worker = match w.2 with
      | .mount_dwork => .automount_mount_retry
      | .umount_dwork => .autoumount_fs

/-- The calls logged between two states, all on behalf of the object at `a`. -/
def LogsOnly (P : Call → Prop) (s s' : State) (a : Addr) : Prop :=
  ∃ cs, s'.log = s.log ++ cs ∧
    ∀ c ∈ cs, P c.1 ∧ c.2 = s.latest (s.heap a).devname

/-- Not a call of `umount`. -/
def NoUmount : Call → Prop
  | .umount _ _ => False
  | _ => True

/-- Not a call of `mount`. -/
def NoMount : Call → Prop
  | .mount _ _ => False
  | _ => True

/-- The parts of the system that neither function touches. -/
structure Frame (s s' : State) (a : Addr) : Prop where
  next : s'.next = s.next
  latest : s'.latest = s.latest
  stale : s'.staleCallback = s.staleCallback
  heap_ne : ∀ b, b ≠ a → s'.heap b = s.heap b
  devname : (s'.heap a).devname = (s.heap a).devname
  mounted : (s.heap a).mounted = true → (s'.heap a).mounted = true

/-- What a function can do before it queues a work or frees the object. -/
structure Quiet (P : Call → Prop) (s s' : State) (a : Addr) : Prop where
  frame : Frame s s' a
  mounters : s'.mounters = s.mounters
  freed : s'.freed = s.freed
  wq : s'.wq = s.wq
  log : LogsOnly P s s' a

/-- What a mount attempt for the object at `a` can do: it may end with the object unmounted
    and a retry queued. -/
def Attempt (s s' : State) (a : Addr) : Prop :=
  ∃ s₁, Quiet NoUmount s s₁ a ∧
    (s' = s₁ ∨ (s₁.heap a).mounted = false ∧
      s' = s₁.work_queue (a, .mount_dwork) .automount_mount_retry AUTOMOUNT_RETRY_DELAY)

/-- What an umount attempt for the object at `a` can do: on success the object is freed, on
    failure the umount may be queued. -/
def Release (s s' : State) (a : Addr) (umountOk : Bool) : Prop :=
  ∃ s₁, Quiet NoMount s s₁ a ∧
    (umountOk = true ∧ s' = s₁.del_free a ∨ umountOk = false ∧
      (s' = s₁ ∨ s' = s₁.work_queue (a, .umount_dwork) .autoumount_fs 2000))

theorem LogsOnly.refl (P : Call → Prop) (s : State) (a : Addr) : LogsOnly P s s a :=
  ⟨[], by simp, by simp⟩

/-- Logging one more call after a function that kept the frame. -/
theorem LogsOnly.call {P : Call → Prop} {s s' : State} {a : Addr} {c : Devname → Call}
    (h : LogsOnly P s s' a) (hf : Frame s s' a) (hc : ∀ d, P (c d)) :
    LogsOnly P s (s'.call a c) a := by
  obtain ⟨cs, hlog, hcs⟩ := h
  refine ⟨cs ++ [(c (s'.heap a).devname, s'.latest (s'.heap a).devname)], ?_, ?_⟩
  · simp [State.call, hlog]
  · intro e he
    rcases List.mem_append.mp he with he | he
    · exact hcs e he
    · rw [List.mem_singleton.mp he]
      exact ⟨hc _, by rw [hf.latest, hf.devname]⟩

theorem Frame.refl (s : State) (a : Addr) : Frame s s a :=
  ⟨rfl, rfl, rfl, fun _ _ => rfl, rfl, id⟩

theorem Frame.call {s s' : State} {a : Addr} (h : Frame s s' a) (c : Devname → Call) :
    Frame s (s'.call a c) a :=
  ⟨h.next, h.latest, h.stale, h.heap_ne, h.devname, h.mounted⟩

/-- Writing the object at `a` keeps the frame if it keeps the name and does not unmount. -/
theorem Frame.write {s s' : State} {a : Addr} (h : Frame s s' a) {v : AutomounterState}
    (hdev : v.devname = (s'.heap a).devname)
    (hm : (s'.heap a).mounted = true → v.mounted = true) : Frame s (s'.write a v) a where
  next := h.next
  latest := h.latest
  stale := h.stale
  heap_ne := fun b hb => by simp [State.write, hb, h.heap_ne b hb]
  devname := by simp [State.write, hdev, h.devname]
  mounted := fun hs => by simpa [State.write] using hm (h.mounted hs)

theorem Quiet.refl (P : Call → Prop) (s : State) (a : Addr) : Quiet P s s a :=
  ⟨Frame.refl s a, rfl, rfl, rfl, LogsOnly.refl P s a⟩

theorem Quiet.call {P : Call → Prop} {s s' : State} {a : Addr} (h : Quiet P s s' a)
    {c : Devname → Call} (hc : ∀ d, P (c d)) : Quiet P s (s'.call a c) a :=
  ⟨h.frame.call c, h.mounters, h.freed, h.wq, h.log.call h.frame hc⟩

theorem Quiet.write {P : Call → Prop} {s s' : State} {a : Addr} (h : Quiet P s s' a)
    {v : AutomounterState} (hdev : v.devname = (s'.heap a).devname)
    (hm : (s'.heap a).mounted = true → v.mounted = true) : Quiet P s (s'.write a v) a :=
  ⟨h.frame.write hdev hm, h.mounters, h.freed, h.wq, h.log⟩

theorem Quiet.attempt {s s' : State} {a : Addr} (h : Quiet NoUmount s s' a) : Attempt s s' a :=
  ⟨s', h, .inl rfl⟩

/-- Scheduling a retry after a failed attempt. -/
theorem Quiet.schedule_retry {s s' : State} {a : Addr} (h : Quiet NoUmount s s' a) :
    Attempt s (automount_schedule_retry s' a) a := by
  rw [automount_schedule_retry]
  split
  · exact h.attempt
  · rename_i hmounted
    split
    · exact h.attempt
    · split
      · exact ⟨s', h, .inr ⟨Bool.eq_false_iff.mpr hmounted, rfl⟩⟩
      · exact h.attempt

theorem Quiet.mountedLabel {s s' : State} {a : Addr} (h : Quiet NoUmount s s' a) :
    Attempt s (mountedLabel s' a) a :=
  ((h.write (v := { s'.heap a with mounted := true, notify_umount := false, mount_attempts := 0 })
    rfl fun _ => rfl).call (c := .sys_notify_event .USB_MSC_NOTIFY_MOUNT)
      fun _ => trivial).attempt

theorem automount_try_mount_attempt (s : State) (a : Addr) (r : MountResults) :
    Attempt s (automount_try_mount s a r) a := by
  rw [automount_try_mount]
  split
  · exact (Quiet.refl _ s a).attempt
  · have hvfat : Quiet NoUmount s
        ((s.write a { s.heap a with mount_attempts := (s.heap a).mount_attempts + 1 }).call a
          (.mount · r.vfat)) a := by
      apply Quiet.call
      · exact (Quiet.refl _ s a).write rfl id
      · exact fun _ => trivial
    dsimp only
    split
    · exact hvfat.mountedLabel
    · split
      · exact hvfat.mountedLabel
      · have hntfs := hvfat.call (c := (.mount · r.ntfs)) fun _ => trivial
        split
        · exact hntfs.mountedLabel
        · split
          · exact hntfs.mountedLabel
          · exact (hntfs.call (c := .sys_notify_event .USB_MSC_NOTIFY_MOUNT_FAIL)
              fun _ => trivial).schedule_retry

theorem automount_mount_retry_attempt (s : State) (a : Addr) (r : MountResults) :
    Attempt s (automount_mount_retry s a r) a := by
  rw [automount_mount_retry]
  split
  · exact (Quiet.refl _ s a).attempt
  · exact automount_try_mount_attempt s a r

theorem announceUmount_quiet (s : State) (a : Addr) : Quiet NoMount s (announceUmount s a) a := by
  rw [announceUmount]
  split
  · exact ((Quiet.refl _ s a).call (c := .sys_notify_event .USB_MSC_NOTIFY_UMOUNT)
      fun _ => trivial).write rfl id
  · exact Quiet.refl _ s a

theorem autoumount_fs_release (s : State) (a : Addr) (umountOk : Bool) :
    Release s (autoumount_fs s a umountOk) a umountOk := by
  rw [autoumount_fs]
  have humount := (announceUmount_quiet s a).call (c := (.umount · umountOk)) fun _ => trivial
  dsimp only
  cases umountOk with
  | false =>
    have hfail := humount.call (c := .sys_notify_event .USB_MSC_NOTIFY_UMOUNT_FAIL)
      fun _ => trivial
    rw [if_pos rfl]
    split
    · exact ⟨_, hfail, .inr ⟨rfl, .inr rfl⟩⟩
    · exact ⟨_, hfail, .inr ⟨rfl, .inl rfl⟩⟩
  | true =>
    rw [if_neg (by decide)]
    exact ⟨_, humount, .inl ⟨rfl, rfl⟩⟩

/-- `automount_find` returns a linked state of that name, if there is one. -/
theorem automount_find_eq_some {s : State} {d : Devname} {a : Addr}
    (h : automount_find s d = some a) : a ∈ s.mounters ∧ (s.heap a).devname = d := by
  have hname := List.find?_some h
  exact ⟨List.mem_of_find?_eq_some h, by simpa using hname⟩

theorem automount_find_eq_none {s : State} {d : Devname} (h : automount_find s d = none) :
    ∀ a ∈ s.mounters, (s.heap a).devname ≠ d := by
  simpa [automount_find] using h

/-! ### What one step changes -/

/-- A CONNECT is ignored, or retries the mount of a linked object of that name, or mounts a
    new object when there is none. -/
theorem automount_fs_cases {s s' : State} {info : Option Devname} {mallocOk : Bool}
    {r : MountResults} (h : automount_fs s info mallocOk r = s') :
    s' = s ∨ ∃ d, info = some d ∧ d ≠ [] ∧
      ((∃ a ∈ s.mounters, (s.heap a).devname = d ∧ Attempt s s' a) ∨
        ((∀ a ∈ s.mounters, (s.heap a).devname ≠ d) ∧ Attempt (s.malloc d) s' s.next)) := by
  unfold automount_fs at h
  split at h
  · exact .inl h.symm
  · exact .inl h.symm
  · rename_i d hd
    split at h
    · rename_i a hfind
      obtain ⟨ha, hname⟩ := automount_find_eq_some hfind
      refine .inr ⟨d, rfl, hd, .inl ⟨a, ha, hname, ?_⟩⟩
      split at h
      · rw [← h]
        exact ((Quiet.refl _ s a).call (c := .sys_notify_event .USB_MSC_NOTIFY_MOUNT)
          fun _ => trivial).attempt
      · rw [← h]
        exact automount_try_mount_attempt s a r
    · rename_i hfind
      split at h
      · exact .inl h.symm
      · refine .inr ⟨d, rfl, hd, .inr ⟨automount_find_eq_none hfind, ?_⟩⟩
        rw [← h]
        exact automount_try_mount_attempt _ _ r

/-- `(void)work_cancel(LPWORK, &state->mount_dwork)`. -/
def cancelMount (s : State) (a : Addr) : State :=
  { s with wq := s.wq.work_qcancel (a, .mount_dwork) }

/-- A DISCONNECT of a mounted object cancels its mount retry and attempts to umount it. -/
theorem automount_disconnect_mounted {s : State} {d : Devname} {a : Addr} (hd : d ≠ [])
    (hfind : automount_find s d = some a) (hm : (s.heap a).mounted = true) (umountOk : Bool) :
    Release (cancelMount s a) (automount_disconnect s (some d) umountOk) a umountOk := by
  unfold automount_disconnect
  split
  · contradiction
  · simp_all
  · rename_i d' _ heq
    cases heq
    rw [hfind]
    change Release _ (if (s.heap a).mounted = false then _ else _) a umountOk
    rw [if_neg (by simp [hm])]
    exact autoumount_fs_release _ a umountOk

/-- A DISCONNECT that names no linked object is ignored; another one cancels the mount retry
    of the object and frees it or attempts to umount it. -/
theorem automount_disconnect_cases {s s' : State} {info : Option Devname} {umountOk : Bool}
    (h : automount_disconnect s info umountOk = s') :
    s' = s ∧ (∀ d, info = some d → d ≠ [] → automount_find s d = none) ∨
      ∃ d a, info = some d ∧ d ≠ [] ∧ automount_find s d = some a ∧
        ((s.heap a).mounted = false ∧ s' = (cancelMount s a).del_free a ∨
          (s.heap a).mounted = true ∧ Release (cancelMount s a) s' a umountOk) := by
  cases info with
  | none => exact .inl ⟨h.symm, by simp⟩
  | some d =>
    by_cases hd : d = []
    · subst hd; exact .inl ⟨h.symm, by simp⟩
    · cases hfind : automount_find s d with
      | none =>
        refine .inl ⟨?_, fun _ heq _ => by cases heq; exact hfind⟩
        rw [← h]
        unfold automount_disconnect
        split <;> simp_all
      | some a =>
        refine .inr ⟨d, a, rfl, hd, hfind, ?_⟩
        cases hm : (s.heap a).mounted with
        | true =>
          rw [← h]
          exact .inr ⟨rfl, automount_disconnect_mounted hd hfind hm umountOk⟩
        | false =>
          refine .inl ⟨rfl, ?_⟩
          rw [← h]
          unfold automount_disconnect
          split
          · contradiction
          · simp_all
          · rename_i heq
            cases heq
            simp [hfind, hm, cancelMount]

/-- The state in which the worker of `w` starts. -/
def started (s : State) (w : Addr × Dwork) (wq : WorkQueue (Addr × Dwork) Worker Addr) : State :=
  { s with wq := wq, staleCallback := s.staleCallback || decide (w.1 ∈ s.freed) }

/-- The state after the worker of `w` returned. -/
def finished (s : State) (w : Addr × Dwork) : State := { s with wq := s.wq.finish w }

/-- A work that fires is linked, and its worker attempts a mount or an umount of its own
    object. -/
theorem fire_cases {s s' : State} {w : Addr × Dwork} {r : MountResults} {umountOk : Bool}
    (hc : Carries OwnWork s.wq) (h : step s (.fire w r umountOk) = some s') :
    w ∈ s.wq.q ∧ ∃ f x wq s₁, s.wq.take w = some (f, x, wq) ∧ s' = finished s₁ w ∧
      (w.2 = .mount_dwork ∧ Attempt (started s w wq) s₁ w.1 ∨
        w.2 = .umount_dwork ∧ Release (started s w wq) s₁ w.1 umountOk) := by
  simp only [step] at h
  split at h
  · cases h
  · rename_i f x wq htake
    obtain ⟨hmem, y, rfl, rfl, hf⟩ := take_eq_some hc htake
    simp only [Option.some.injEq] at h
    refine ⟨hmem, f, some w.1, wq, _, htake, h.symm, ?_⟩
    cases hw : w.2 with
    | mount_dwork =>
      rw [hw] at hf
      subst hf
      exact .inl ⟨rfl, automount_mount_retry_attempt _ _ _⟩
    | umount_dwork =>
      rw [hw] at hf
      subst hf
      exact .inr ⟨rfl, autoumount_fs_release _ _ _⟩

end Hcrtos.Native.Automount
