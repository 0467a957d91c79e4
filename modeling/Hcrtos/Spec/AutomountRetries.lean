import Hcrtos.Spec.AutomountInvariant

/-!
# The automounter: automatic retries

A retry is a `mount_dwork` that fires on an unmounted state. The retries of a state are counted
beside the run. While an unmounted state has its retry pending, the retries so far are fewer
than its `mount_attempts`, which pass the limit with the first duplicate CONNECTs; what the
count cannot survive is the wrap of `mount_attempts`.

## Key results

- `automount_try_mount_outcome`: what a mount attempt does to the attempts and to the retry work
- `always_disciplined`: the retry discipline along every run in which `mount_attempts` does not wrap
- `disciplined_fails`: a run in which it wraps, with nine retries
-/

namespace Hcrtos.Native.Automount

open WorkQueue Lts

/-- A failure other than `EBUSY`. -/
def MountResult.fails : MountResult → Bool
  | .ok => false
  | .fail errno => errno ≠ EBUSY

/-- Both mounts of an attempt fail. -/
def MountResults.fails (r : MountResults) : Bool := r.vfat.fails && r.ntfs.fails

/-- The system with the number of automatic retries of each state. -/
structure Counted where
  sys : State
  retries : Addr → Nat

/-- No device connected, no retry made. -/
def Counted.init : Counted := ⟨Automount.init, fun _ => 0⟩

/-- The retries after a step that starts in `c`: a `mount_dwork` that fires on an unmounted
    state is one more. -/
def Counted.count (c : Counted) : Action → Addr → Nat
  | .fire (a, .mount_dwork) _ _ =>
    if (c.sys.heap a).mounted then c.retries else Function.update c.retries a (c.retries a + 1)
  | _ => c.retries

/-- The step function beside the count. -/
def countedStep (c : Counted) (act : Action) : Option Counted :=
  (step c.sys act).map fun s => ⟨s, c.count act⟩

/-- The retry discipline: the retries of a state are within the limit, a retry that fires on a
    mounted state calls nothing and leaves the states alone, and an unmounted state with attempts
    left has its retry pending. -/
structure Disciplined (c : Counted) : Prop where
  bounded : ∀ a, c.retries a ≤ AUTOMOUNT_MAX_RETRIES.toNat
  idle : ∀ a r umountOk s', (c.sys.heap a).mounted = true →
    step c.sys (.fire (a, .mount_dwork) r umountOk) = some s' →
      s'.log = c.sys.log ∧ s'.heap = c.sys.heap
  pending : ∀ a ∈ c.sys.mounters, (c.sys.heap a).mounted = false →
    (c.sys.heap a).mount_attempts < AUTOMOUNT_MAX_RETRIES →
      (a, .mount_dwork) ∈ c.sys.wq.q

/-- No attempt that fails wraps `mount_attempts`. -/
def CountsOn (c : Counted) : Action → Prop
  | .connect (some d) _ r => r.fails = true → ∀ a ∈ automount_find c.sys d,
      (c.sys.heap a).mounted = false → (c.sys.heap a).mount_attempts ≠ 4294967295
  | .fire (a, .mount_dwork) r _ => r.fails = true →
      (c.sys.heap a).mounted = false → (c.sys.heap a).mount_attempts ≠ 4294967295
  | _ => True

/-! ### What an attempt does to the retry work -/

/-- Whether the retry of the state at `b` is pending. -/
def Pending (s : State) (b : Addr) : Prop := (b, .mount_dwork) ∈ s.wq.q

instance (s : State) (b : Addr) : Decidable (Pending s b) :=
  inferInstanceAs (Decidable ((b, .mount_dwork) ∈ s.wq.q))

/-- The outcome of an attempt for the object at `a`: it is mounted and the queue is unchanged, or
    both mounts failed, the attempt is counted, and a retry is pending below the limit. -/
def Outcome (s s' : State) (a : Addr) (r : MountResults) : Prop :=
  (s'.heap a).mounted = true ∧ (∀ b, Pending s' b ↔ Pending s b) ∨
    r.fails = true ∧
      s'.heap a = { s.heap a with mount_attempts := (s.heap a).mount_attempts + 1 } ∧
      ∀ b, Pending s' b ↔ Pending s b ∨
        b = a ∧ (s.heap a).mount_attempts + 1 < AUTOMOUNT_MAX_RETRIES

theorem pending_schedule_retry {s : State} (hwf : s.wq.Wf) {a : Addr}
    (hm : (s.heap a).mounted = false) (b : Addr) :
    Pending (automount_schedule_retry s a) b ↔
      Pending s b ∨ b = a ∧ (s.heap a).mount_attempts < AUTOMOUNT_MAX_RETRIES := by
  rw [automount_schedule_retry, if_neg (by simp [hm])]
  split
  · rename_i hge
    have : ¬ (s.heap a).mount_attempts < AUTOMOUNT_MAX_RETRIES := UInt32.not_lt.mpr hge
    simp [this]
  · rename_i hlt
    have hlt : (s.heap a).mount_attempts < AUTOMOUNT_MAX_RETRIES := UInt32.not_le.mp hlt
    split
    · show (b, Dwork.mount_dwork) ∈ (s.wq.work_qqueue _ _ _ _).q ↔ _
      rw [hwf.mem_work_qqueue]
      simp [Pending, hlt, or_comm]
    · rename_i hbusy
      -- the work is not available, so it is pending already
      have hmem : Pending s a := by
        by_contra hmem
        exact hbusy ((hwf.work_available_iff _).mpr hmem)
      constructor
      · exact .inl
      · rintro (h | ⟨rfl, -⟩)
        · exact h
        · exact hmem

@[simp] theorem schedule_retry_heap (s : State) (a : Addr) :
    (automount_schedule_retry s a).heap = s.heap := by
  unfold automount_schedule_retry State.work_queue
  split
  · rfl
  · split
    · rfl
    · split <;> rfl

theorem automount_try_mount_outcome {s : State} (hwf : s.wq.Wf) {a : Addr}
    (hd : (s.heap a).devname ≠ []) (hm : (s.heap a).mounted = false) (r : MountResults) :
    Outcome s (automount_try_mount s a r) a r := by
  have hmounted : ∀ t : State, t.wq = s.wq → Outcome s (mountedLabel t a) a r := by
    intro t ht
    refine .inl ⟨by simp [mountedLabel, State.call, State.write], fun b => ?_⟩
    show (b, Dwork.mount_dwork) ∈ t.wq.q ↔ _
    rw [ht]
    rfl
  rw [automount_try_mount, if_neg hd]
  dsimp only
  cases hv : r.vfat with
  | ok => exact hmounted _ rfl
  | fail vfat_errno =>
    dsimp only
    split
    · exact hmounted _ rfl
    · rename_i hvbusy
      cases hn : r.ntfs with
      | ok => exact hmounted _ rfl
      | fail ntfs_errno =>
        dsimp only
        split
        · exact hmounted _ rfl
        · rename_i hnbusy
          refine .inr ⟨?_, ?_, fun b => ?_⟩
          · simp [MountResults.fails, MountResult.fails, hv, hn, hvbusy, hnbusy]
          · simp [State.call, State.write]
          · rw [pending_schedule_retry]
            · simp [State.call, State.write, Pending]
            · exact hwf
            · simpa [State.call, State.write] using hm

/-! ### The invariant -/

/-- The invariant of the count `n`. A pending retry is one that the limit has room for: the
    retries so far are fewer than the attempts, which were below the limit when it was queued.
    The state at `busy` is in the middle of an attempt. -/
structure Retries (s : State) (n : Addr → Nat) (busy : Option Addr) : Prop where
  fresh : ∀ a, s.next ≤ a → n a = 0
  named : ∀ a ∈ s.mounters, (s.heap a).devname ≠ []
  bounded : ∀ a, n a ≤ 7
  room : ∀ a, Pending s a → n a < 7
  counted : ∀ a ∈ s.mounters, (s.heap a).mounted = false →
    n a ≤ (s.heap a).mount_attempts.toNat
  ahead : ∀ a ∈ s.mounters, (s.heap a).mounted = false → Pending s a →
    n a < (s.heap a).mount_attempts.toNat
  pending : ∀ a ∈ s.mounters, some a ≠ busy → (s.heap a).mounted = false →
    (s.heap a).mount_attempts < AUTOMOUNT_MAX_RETRIES → Pending s a

theorem retries_init : Retries init (fun _ => 0) none where
  fresh := fun _ _ => rfl
  named := by simp [init]
  bounded := by simp
  room := by simp
  counted := by simp [init]
  ahead := by simp [init]
  pending := by simp [init]

/-- A step that leaves the unmounted states and their retries alone keeps the count. -/
theorem Retries.frame {s s' : State} {n : Addr → Nat} {busy : Option Addr}
    (h : Retries s n busy) (hnext : s.next ≤ s'.next)
    (hmounters : ∀ a ∈ s'.mounters, a ∈ s.mounters)
    (hdevname : ∀ a ∈ s'.mounters, (s'.heap a).devname = (s.heap a).devname)
    (hheap : ∀ a ∈ s'.mounters, (s'.heap a).mounted = false →
      (s.heap a).mounted = false ∧ (s'.heap a).mount_attempts = (s.heap a).mount_attempts ∧
        (Pending s a → Pending s' a))
    (hpending : ∀ a, Pending s' a → Pending s a) : Retries s' n busy where
  fresh := fun a ha => h.fresh a (Nat.le_trans hnext ha)
  named := fun a ha => hdevname a ha ▸ h.named a (hmounters a ha)
  bounded := h.bounded
  room := fun a ha => h.room a (hpending a ha)
  counted := by
    intro a ha hm
    obtain ⟨hm', hattempts, -⟩ := hheap a ha hm
    rw [hattempts]
    exact h.counted a (hmounters a ha) hm'
  ahead := by
    intro a ha hm hp
    obtain ⟨hm', hattempts, -⟩ := hheap a ha hm
    rw [hattempts]
    exact h.ahead a (hmounters a ha) hm' (hpending a hp)
  pending := by
    intro a ha hb hm hlt
    obtain ⟨hm', hattempts, hp⟩ := hheap a ha hm
    rw [hattempts] at hlt
    exact hp (h.pending a (hmounters a ha) hb hm' hlt)

/-- An attempt for the busy object: it is mounted, or its failure is counted and its retry is
    pending below the limit. -/
theorem Retries.attempt {s s' : State} {n : Addr → Nat} {a : Addr} {r : MountResults}
    (h : Retries s n (some a)) (hat : Attempt s s' a) (ho : Outcome s s' a r)
    (ha : a ∈ s.mounters) (hm : (s.heap a).mounted = false)
    (hwrap : r.fails = true → (s.heap a).mount_attempts ≠ 4294967295) : Retries s' n none := by
  obtain ⟨hnext, hmounters, hdevname, hne⟩ : s'.next = s.next ∧ s'.mounters = s.mounters ∧
      (∀ b, (s'.heap b).devname = (s.heap b).devname) ∧ ∀ b, b ≠ a → s'.heap b = s.heap b := by
    obtain ⟨s₁, hq, rfl | ⟨-, rfl⟩⟩ := hat
    · exact ⟨hq.frame.next, hq.mounters, hq.frame.devname_eq, hq.frame.heap_ne⟩
    · exact ⟨hq.frame.next, hq.mounters, hq.frame.devname_eq, hq.frame.heap_ne⟩
  rcases ho with ⟨hmounted, hpending⟩ | ⟨hfails, hheap, hpending⟩
  · -- the object is mounted, the others are as before
    have hother : ∀ b ∈ s'.mounters, (s'.heap b).mounted = false → b ≠ a := by
      rintro b - hb rfl
      rw [hmounted] at hb
      cases hb
    have hframe : Retries s' n (some a) := by
      apply h.frame (Nat.le_of_eq hnext.symm)
      · intro b hb
        rwa [hmounters] at hb
      · exact fun b _ => hdevname b
      · intro b hb hbm
        have hba := hother b hb hbm
        rw [hne b hba] at hbm ⊢
        exact ⟨hbm, rfl, (hpending b).mpr⟩
      · exact fun b => (hpending b).mp
    refine { hframe with pending := ?_ }
    intro b hb _ hbm hlt
    exact hframe.pending b hb (by simpa using hother b hb hbm) hbm hlt
  · have hattempts : (s'.heap a).mount_attempts.toNat = (s.heap a).mount_attempts.toNat + 1 := by
      have := hwrap hfails
      rw [hheap]
      show ((s.heap a).mount_attempts + 1).toNat = _
      have hlt := (s.heap a).mount_attempts.toNat_lt
      have hmax : (s.heap a).mount_attempts.toNat ≠ 4294967295 := by
        intro heq
        exact this (UInt32.toNat_inj.mp heq)
      rw [UInt32.toNat_add]
      show ((s.heap a).mount_attempts.toNat + 1) % 4294967296 = _
      omega
    have hcounted := h.counted a ha hm
    have hsucc : (s.heap a).mount_attempts + 1 < AUTOMOUNT_MAX_RETRIES ↔
        (s.heap a).mount_attempts.toNat + 1 < 8 := by
      rw [UInt32.lt_iff_toNat_lt, ← hattempts, hheap]
      rfl
    refine ⟨?_, ?_, h.bounded, ?_, ?_, ?_, ?_⟩
    · intro b hb
      exact h.fresh b (hnext ▸ hb)
    · intro b hb
      rw [hdevname]
      exact h.named b (hmounters ▸ hb)
    · intro b hb
      rcases (hpending b).mp hb with hb | ⟨rfl, hlt⟩
      · exact h.room b hb
      · have := hsucc.mp hlt
        omega
    · intro b hb hbm
      by_cases hba : b = a
      · subst hba
        omega
      · rw [hne b hba] at hbm ⊢
        exact h.counted b (hmounters ▸ hb) hbm
    · intro b hb hbm hp
      by_cases hba : b = a
      · subst hba
        omega
      · rw [hne b hba] at hbm ⊢
        exact h.ahead b (hmounters ▸ hb) hbm (((hpending b).mp hp).resolve_right fun h => hba h.1)
    · intro b hb _ hbm hlt
      by_cases hba : b = a
      · subst hba
        rw [hheap] at hlt
        exact (hpending b).mpr (.inr ⟨rfl, hlt⟩)
      · rw [hne b hba] at hbm hlt
        exact (hpending b).mpr
          (.inl (h.pending b (hmounters ▸ hb) (by simpa using hba) hbm hlt))

/-- A CONNECT attempts a mount of the unmounted object of that name, or of a new one. -/
theorem automount_fs_tries (s : State) (info : Option Devname) (mallocOk : Bool)
    (r : MountResults) :
    automount_fs s info mallocOk r = s ∨
      (∃ a, (s.heap a).mounted = true ∧
        automount_fs s info mallocOk r = s.call a (.sys_notify_event .USB_MSC_NOTIFY_MOUNT)) ∨
      (∃ d a, info = some d ∧ automount_find s d = some a ∧ (s.heap a).mounted = false ∧
        automount_fs s info mallocOk r = automount_try_mount s a r) ∨
      ∃ d, d ≠ [] ∧ automount_find s d = none ∧
        automount_fs s info mallocOk r = automount_try_mount (s.malloc d) s.next r := by
  unfold automount_fs
  split
  · exact .inl rfl
  · exact .inl rfl
  · rename_i d hd
    split
    · rename_i a hfind
      split
      · rename_i hm
        exact .inr (.inl ⟨a, hm, rfl⟩)
      · rename_i hm
        exact .inr (.inr (.inl ⟨d, a, rfl, hfind, Bool.eq_false_iff.mpr hm, rfl⟩))
    · rename_i hfind
      split
      · exact .inl rfl
      · exact .inr (.inr (.inr ⟨d, hd, hfind, rfl⟩))

theorem Retries.event {s : State} {n : Addr → Nat} (h : Retries s n none)
    (info : Option Devname) (e : Event) : Retries (s.event info e) n none := by
  unfold State.event
  split
  · exact h
  · exact h
  · exact ⟨h.fresh, h.named, h.bounded, h.room, h.counted, h.ahead, h.pending⟩

/-- The new object has made no retry, and its first attempt is to come. -/
theorem Retries.malloc {s : State} {n : Addr → Nat} (h : Retries s n none) (hwf : Wf s)
    {d : Devname} (hd : d ≠ []) : Retries (s.malloc d) n (some s.next) := by
  have hold : ∀ a, a ≠ s.next → (s.malloc d).heap a = s.heap a := by
    intro a ha
    simp [State.malloc, State.write, ha]
  have hnew : (s.malloc d).heap s.next = ⟨d, false, false, 0⟩ := by
    simp [State.malloc, State.write]
  have hidle : ¬ Pending s s.next := fun hp => absurd (hwf.known _ hp) (Nat.lt_irrefl _)
  have hlinked : ∀ a ∈ (s.malloc d).mounters, a ≠ s.next → a ∈ s.mounters := by
    intro a ha hne
    rcases List.mem_append.mp ha with ha | ha
    · exact ha
    · exact absurd (List.mem_singleton.mp ha) hne
  refine ⟨fun a ha => h.fresh a (Nat.le_of_succ_le ha), ?_, h.bounded, h.room, ?_, ?_, ?_⟩
  · intro a ha
    by_cases hne : a = s.next
    · rw [hne, hnew]
      exact hd
    · rw [hold a hne]
      exact h.named a (hlinked a ha hne)
  · intro a ha hm
    by_cases hne : a = s.next
    · rw [hne, h.fresh s.next (Nat.le_refl _)]
      exact Nat.zero_le _
    · rw [hold a hne] at hm ⊢
      exact h.counted a (hlinked a ha hne) hm
  · intro a ha hm hp
    by_cases hne : a = s.next
    · exact absurd (hne ▸ hp) hidle
    · rw [hold a hne] at hm ⊢
      exact h.ahead a (hlinked a ha hne) hm hp
  · intro a ha hb hm hlt
    have hne : a ≠ s.next := by simpa using hb
    rw [hold a hne] at hm hlt
    exact h.pending a (hlinked a ha hne) (by simp) hm hlt

/-- An umount attempt leaves the unmounted states alone: its own object is mounted. -/
theorem Retries.release {s s' : State} {n : Addr → Nat} {a : Addr} {umountOk : Bool}
    (h : Retries s n none) (hwf : Wf s) (hm : (s.heap a).mounted = true)
    (hr : Release s s' a umountOk) : Retries s' n none := by
  obtain ⟨s₁, hq, hs'⟩ := hr
  have hheap : s'.heap = s₁.heap ∧ s'.next = s₁.next ∧ (∀ b ∈ s'.mounters, b ∈ s₁.mounters) ∧
      ∀ b, Pending s' b ↔ Pending s₁ b := by
    rcases hs' with ⟨-, rfl⟩ | ⟨-, rfl | rfl⟩
    · exact ⟨rfl, rfl, fun b hb => List.mem_of_mem_erase hb, fun b => Iff.rfl⟩
    · exact ⟨rfl, rfl, fun b hb => hb, fun b => Iff.rfl⟩
    · refine ⟨rfl, rfl, fun b hb => hb, fun b => ?_⟩
      show (b, Dwork.mount_dwork) ∈ (s₁.wq.work_qqueue _ _ _ _).q ↔ _
      rw [(hwf.quiet hq).wq.mem_work_qqueue]
      simp [Pending]
  obtain ⟨hheap, hnext, hmounters, hpending⟩ := hheap
  have hpending' : ∀ b, Pending s' b ↔ Pending s b := by
    intro b
    rw [hpending]
    unfold Pending
    rw [hq.wq]
  apply h.frame
  · exact Nat.le_of_eq (hnext.trans hq.frame.next).symm
  · intro b hb
    exact hq.mounters ▸ hmounters b hb
  · intro b _
    rw [hheap, hq.frame.devname_eq]
  · intro b _ hbm
    rw [hheap] at hbm ⊢
    have hba : b ≠ a := by
      rintro rfl
      rw [hq.frame.mounted hm] at hbm
      cases hbm
    rw [hq.frame.heap_ne b hba] at hbm ⊢
    exact ⟨hbm, rfl, (hpending' b).mpr⟩
  · exact fun b => (hpending' b).mp

/-- A DISCONNECT cancels the retry of an object that it unlinks, or that is mounted. -/
theorem Retries.cancelMount {s : State} {n : Addr → Nat} (h : Retries s n none) (hwf : Wf s)
    (a : Addr) : Retries (cancelMount s a) n (some a) := by
  have hpending : ∀ b, Pending (Automount.cancelMount s a) b ↔ b ≠ a ∧ Pending s b := by
    intro b
    show (b, Dwork.mount_dwork) ∈ (s.wq.work_qcancel _).q ↔ _
    rw [hwf.wq.mem_work_qcancel]
    simp [Pending]
  refine ⟨h.fresh, h.named, h.bounded, fun b hb => h.room b ((hpending b).mp hb).2, h.counted,
    fun b hb hm hp => h.ahead b hb hm ((hpending b).mp hp).2, ?_⟩
  intro b hb hne hm hlt
  exact (hpending b).mpr ⟨by simpa using hne, h.pending b hb (by simp) hm hlt⟩

/-- An object in the middle of a DISCONNECT is settled when it is mounted or unlinked. -/
theorem Retries.settle {s : State} {n : Addr → Nat} {a : Addr} (h : Retries s n (some a))
    (ha : a ∈ s.mounters → (s.heap a).mounted = true) : Retries s n none := by
  refine { h with pending := ?_ }
  intro b hb _ hm hlt
  refine h.pending b hb ?_ hm hlt
  rintro ⟨rfl⟩
  rw [ha hb] at hm
  cases hm

theorem pending_started {s : State} (hwf : Wf s) {w : Addr × Dwork} {f : Worker}
    {x : Option Addr} {wq : WorkQueue (Addr × Dwork) Worker Addr}
    (ht : s.wq.take w = some (f, x, wq)) (b : Addr) :
    Pending (started s w wq) b ↔ (b, Dwork.mount_dwork) ≠ w ∧ Pending s b :=
  hwf.wq.mem_take ht

/-- The firing of a work that is no retry. -/
theorem Retries.started {s : State} {n : Addr → Nat} (h : Retries s n none) (hwf : Wf s)
    {w : Addr × Dwork} {f : Worker} {x : Option Addr}
    {wq : WorkQueue (Addr × Dwork) Worker Addr} (ht : s.wq.take w = some (f, x, wq))
    (hw : w.2 = .mount_dwork → (s.heap w.1).mounted = true) :
    Retries (started s w wq) n none := by
  apply @Retries.frame s (Automount.started s w wq) n none h (Nat.le_refl _) (fun _ ha => ha)
    (fun _ _ => rfl)
  · intro b hb hm
    refine ⟨hm, rfl, fun hp => (pending_started hwf ht b).mpr ⟨?_, hp⟩⟩
    rintro rfl
    rw [show (s.heap b).mounted = false from hm] at hw
    cases hw rfl
  · exact fun b hp => ((pending_started hwf ht b).mp hp).2

/-- The firing of a retry: it is counted, and the room for it is used up. -/
theorem Retries.retry {s : State} {n : Addr → Nat} (h : Retries s n none) (hwf : Wf s)
    {a : Addr} {f : Worker} {x : Option Addr} {wq : WorkQueue (Addr × Dwork) Worker Addr}
    (ht : s.wq.take (a, .mount_dwork) = some (f, x, wq)) (hp : Pending s a) :
    Retries (Automount.started s (a, .mount_dwork) wq) (Function.update n a (n a + 1))
      (some a) := by
  have ha := hwf.mount_live a hp
  have hold : ∀ b, b ≠ a → Function.update n a (n a + 1) b = n b :=
    fun b hb => Function.update_of_ne hb _ _
  have hpending := pending_started hwf ht
  have hidle : ¬ Pending (Automount.started s (a, .mount_dwork) wq) a :=
    fun hp => ((hpending a).mp hp).1 rfl
  have hne : ∀ b, Pending (Automount.started s (a, .mount_dwork) wq) b → b ≠ a := by
    rintro b hb rfl
    exact hidle hb
  refine ⟨?_, h.named, ?_, ?_, ?_, ?_, ?_⟩
  · intro b hb
    have hlt : a < s.next := hwf.known _ hp
    rw [hold b (by rintro rfl; exact absurd (Nat.lt_of_lt_of_le hlt hb) (Nat.lt_irrefl _))]
    exact h.fresh b hb
  · intro b
    by_cases hb : b = a
    · subst hb
      rw [Function.update_self]
      exact h.room b hp
    · rw [hold b hb]
      exact h.bounded b
  · intro b hb
    rw [hold b (hne b hb)]
    exact h.room b ((hpending b).mp hb).2
  · intro b hb hm
    by_cases hba : b = a
    · subst hba
      rw [Function.update_self]
      exact h.ahead b ha hm hp
    · rw [hold b hba]
      exact h.counted b hb hm
  · intro b hb hm hpb
    rw [hold b (hne b hpb)]
    exact h.ahead b hb hm ((hpending b).mp hpb).2
  · intro b hb hba hm hlt
    have hba : b ≠ a := by simpa using hba
    exact (hpending b).mpr ⟨by simpa using hba, h.pending b hb (by simp) hm hlt⟩

theorem Retries.finished {s : State} {n : Addr → Nat} (h : Retries s n none)
    (w : Addr × Dwork) : Retries (finished s w) n none :=
  ⟨h.fresh, h.named, h.bounded, h.room, h.counted, h.ahead, h.pending⟩

/-- A worker that is taken runs the function of its kind on its own object. -/
theorem fire_mount {s s' : State} {a : Addr} {r : MountResults} {umountOk : Bool}
    (hc : Carries OwnWork s.wq) (h : step s (.fire (a, .mount_dwork) r umountOk) = some s') :
    Pending s a ∧ ∃ f x wq, s.wq.take (a, .mount_dwork) = some (f, x, wq) ∧
      s' = finished (automount_mount_retry (started s (a, .mount_dwork) wq) a r)
        (a, .mount_dwork) := by
  simp only [step] at h
  split at h
  · cases h
  · rename_i f x wq htake
    obtain ⟨hmem, y, rfl, rfl, hf⟩ := take_eq_some hc htake
    subst hf
    exact ⟨hmem, _, _, wq, htake, (Option.some.inj h).symm⟩

/-- The invariant of the counted system. -/
structure Inv (c : Counted) : Prop where
  wf : Wf c.sys
  retries : Retries c.sys c.retries none

theorem inv_init : Inv .init := ⟨wf_init, retries_init⟩

theorem retries_connect {s : State} {n : Addr → Nat} (hwf : Wf s) (h : Retries s n none)
    {info : Option Devname} {mallocOk : Bool} {r : MountResults}
    (hwrap : CountsOn ⟨s, n⟩ (.connect info mallocOk r)) :
    Retries (automount_fs s info mallocOk r) n none := by
  obtain heq | ⟨a, hm, heq⟩ | ⟨d, a, rfl, hfind, hm, heq⟩ | ⟨d, hd, hfind, heq⟩ :=
    automount_fs_tries s info mallocOk r
  · rwa [heq]
  · rw [heq]
    exact ⟨h.fresh, h.named, h.bounded, h.room, h.counted, h.ahead, h.pending⟩
  · obtain ⟨ha, -⟩ := automount_find_eq_some hfind
    rw [heq]
    have hbusy : Retries s n (some a) :=
      { h with pending := fun b hb _ => h.pending b hb (by simp) }
    refine hbusy.attempt (automount_try_mount_attempt s a r)
      (automount_try_mount_outcome hwf.wq (h.named a ha) hm r) ha hm ?_
    intro hfails
    exact hwrap hfails a hfind hm
  · rw [heq]
    have hnew : (s.malloc d).heap s.next = ⟨d, false, false, 0⟩ := by
      simp [State.malloc, State.write]
    have hmalloc := hwf.malloc (automount_find_eq_none hfind)
    refine (h.malloc hwf hd).attempt (automount_try_mount_attempt _ _ r)
      (automount_try_mount_outcome hmalloc.wq ?_ ?_ r)
      (List.mem_append_right _ (List.mem_singleton.mpr rfl)) ?_ ?_
    · rw [hnew]
      exact hd
    · rw [hnew]
    · rw [hnew]
    · intro _
      rw [hnew]
      show (0 : UInt32) ≠ 4294967295
      decide

theorem retries_disconnect {s s' : State} {n : Addr → Nat} (hwf : Wf s) (h : Retries s n none)
    {info : Option Devname} {umountOk : Bool} (hs : automount_disconnect s info umountOk = s') :
    Retries s' n none := by
  obtain ⟨rfl, -⟩ | ⟨d, a, rfl, -, hfind, ⟨hm, rfl⟩ | ⟨hm, hr⟩⟩ := automount_disconnect_cases hs
  · exact h
  · -- the object is unlinked
    have hcancel := h.cancelMount hwf a
    apply Retries.settle (a := a)
    · exact hcancel.frame (Nat.le_refl _) (fun b hb => List.mem_of_mem_erase hb)
        (fun b _ => rfl) (fun b _ hbm => ⟨hbm, rfl, id⟩) (fun b => id)
    · intro ha
      exact absurd ha (hwf.nodup.not_mem_erase)
  · have hcancel := (h.cancelMount hwf a).settle fun _ => hm
    exact hcancel.release (hwf.cancelMount a) hm hr

theorem inv_step {c c' : Counted} {act : Action} (h : Inv c) (hcounts : CountsOn c act)
    (hs : countedStep c act = some c') : Inv c' := by
  obtain ⟨s', hstep, rfl⟩ := Option.map_eq_some_iff.mp hs
  refine ⟨wf_step h.wf hstep, ?_⟩
  cases act with
  | connect info mallocOk r =>
    rw [← Option.some.inj hstep]
    apply retries_connect (h.wf.event info .connect) (h.retries.event info .connect)
    cases info with
    | none => trivial
    | some d =>
      intro hfails a hfind hm
      rw [event_heap] at hm ⊢
      exact hcounts hfails a (by simpa using hfind) hm
  | disconnect info umountOk =>
    exact retries_disconnect (h.wf.event info .disconnect) (h.retries.event info .disconnect)
      (Option.some.inj hstep)
  | fire w r umountOk =>
    obtain ⟨a, k⟩ := w
    cases k with
    | mount_dwork =>
      obtain ⟨hp, f, x, wq, ht, rfl⟩ := fire_mount h.wf.carries hstep
      have hstart := h.wf.started ht
      cases hm : (c.sys.heap a).mounted with
      | true =>
        have hidle : automount_mount_retry (started c.sys (a, .mount_dwork) wq) a r =
            started c.sys (a, .mount_dwork) wq := if_pos hm
        have hcount : c.count (.fire (a, .mount_dwork) r umountOk) = c.retries := by
          simp [Counted.count, hm]
        dsimp only
        rw [hidle, hcount]
        exact (h.retries.started h.wf ht fun _ => hm).finished _
      | false =>
        have htry : automount_mount_retry (started c.sys (a, .mount_dwork) wq) a r =
            automount_try_mount (started c.sys (a, .mount_dwork) wq) a r := by
          exact if_neg (by rw [show ((started c.sys _ wq).heap a).mounted = false from hm]; decide)
        have hcount : c.count (.fire (a, .mount_dwork) r umountOk) =
            Function.update c.retries a (c.retries a + 1) := by
          simp [Counted.count, hm]
        dsimp only
        rw [htry, hcount]
        have ha := h.wf.mount_live a hp
        refine Retries.finished ?_ _
        exact (h.retries.retry h.wf ht hp).attempt (automount_try_mount_attempt _ a r)
          (automount_try_mount_outcome hstart.wq (h.retries.named a ha) hm r) ha hm
          fun hfails => hcounts hfails hm
    | umount_dwork =>
      obtain ⟨hmem, f, x, wq, s₁, ht, rfl, ⟨hk, -⟩ | ⟨-, hr⟩⟩ := fire_cases h.wf.carries hstep
      · cases hk
      · obtain ⟨hm, -⟩ := h.wf.umount_mounted a hmem
        have hstart := h.retries.started h.wf ht fun _ => hm
        exact (hstart.release (h.wf.started ht) hm hr).finished _

theorem Inv.disciplined {c : Counted} (h : Inv c) : Disciplined c where
  bounded := fun a => Nat.le_succ_of_le (h.retries.bounded a)
  idle := by
    intro a r umountOk s' hm hs
    obtain ⟨-, f, x, wq, -, rfl⟩ := fire_mount h.wf.carries hs
    have hidle : automount_mount_retry (started c.sys (a, .mount_dwork) wq) a r =
        started c.sys (a, .mount_dwork) wq := if_pos hm
    rw [hidle]
    exact ⟨rfl, rfl⟩
  pending := fun a ha => h.retries.pending a ha (by simp)

/-- The retry discipline holds along every run in which no failed attempt wraps
    `mount_attempts`. -/
theorem always_disciplined (tr : List Action) (h : Meets countedStep CountsOn .init tr) :
    Always countedStep Disciplined .init tr :=
  always_of_meets countedStep (fun _ hc => hc.disciplined)
    (fun _ _ _ hc hG hs => inv_step hc hG hs) inv_init h

instance (c : Counted) : ∀ act, Decidable (CountsOn c act)
  | .connect (some d) _ r => inferInstanceAs (Decidable (r.fails = true →
      ∀ a ∈ automount_find c.sys d, (c.sys.heap a).mounted = false →
        (c.sys.heap a).mount_attempts ≠ 4294967295))
  | .fire (a, .mount_dwork) r _ => inferInstanceAs (Decidable (r.fails = true →
      (c.sys.heap a).mounted = false → (c.sys.heap a).mount_attempts ≠ 4294967295))
  | .connect none _ _ => inferInstanceAs (Decidable True)
  | .disconnect _ _ => inferInstanceAs (Decidable True)
  | .fire (_, .umount_dwork) _ _ => inferInstanceAs (Decidable True)

/-- A device whose mounts fail with `EIO`. -/
def sdb : Devname := [115, 100, 98]

/-- A CONNECT, or a duplicate one, whose mounts fail. -/
def failedConnect : Action := .connect (some sdb) true ⟨.fail 5, .fail 5⟩

/-- A retry whose mounts fail. -/
def failedRetry : Action := .fire (0, .mount_dwork) ⟨.fail 5, .fail 5⟩ true

/-- A duplicate CONNECT mounts while a retry is pending, which fires then. -/
theorem always_disciplined_duplicate :
    Always countedStep Disciplined .init
      [failedConnect, failedRetry, .connect (some sdb) true ⟨.ok, .ok⟩, failedRetry] :=
  always_disciplined _ (by decide)

/-! ### The wrap of `mount_attempts` -/

/-- Six retries, duplicate CONNECTs until `mount_attempts` wraps, and three more retries. -/
def wrapRun : List Action :=
  failedConnect :: (List.replicate 6 failedRetry ++
    (List.replicate 4294967289 failedConnect ++ List.replicate 3 failedRetry))

/-- The device has failed to mount `attempts` times, modulo the wrap, and its retry is pending
    after `n` others. -/
structure Retrying (attempts : UInt32) (n : Nat) (c : Counted) : Prop where
  wf : Wf c.sys
  mounters : c.sys.mounters = [0]
  heap : c.sys.heap 0 = ⟨sdb, false, false, attempts⟩
  pending : Pending c.sys 0
  retries : c.retries 0 = n

/-- What a failed attempt leaves of the state, when a retry is pending after it. -/
theorem Retrying.attempt {s : State} {attempts : UInt32} (hwf : Wf s) (hm : s.mounters = [0])
    (hheap : s.heap 0 = ⟨sdb, false, false, attempts⟩)
    (hp : Pending s 0 ∨ attempts + 1 < AUTOMOUNT_MAX_RETRIES) :
    (automount_try_mount s 0 ⟨.fail 5, .fail 5⟩).mounters = [0] ∧
      (automount_try_mount s 0 ⟨.fail 5, .fail 5⟩).heap 0 = ⟨sdb, false, false, attempts + 1⟩ ∧
      Pending (automount_try_mount s 0 ⟨.fail 5, .fail 5⟩) 0 := by
  have hmounters : (automount_try_mount s 0 ⟨.fail 5, .fail 5⟩).mounters = [0] := by
    obtain ⟨s₁, hq, heq | ⟨-, heq⟩⟩ := automount_try_mount_attempt s 0 ⟨.fail 5, .fail 5⟩
    · rw [heq, hq.mounters, hm]
    · rw [heq]
      exact hq.mounters.trans hm
  refine ⟨hmounters, ?_⟩
  obtain ⟨hok, -⟩ | ⟨-, hheap', hpending⟩ := automount_try_mount_outcome (a := 0) hwf.wq
    (by rw [hheap]; exact List.cons_ne_nil _ _) (by rw [hheap]) ⟨.fail 5, .fail 5⟩
  · have hfail : ((automount_try_mount s 0 ⟨.fail 5, .fail 5⟩).heap 0).mounted = false := by
      simp [automount_try_mount, State.call, State.write, hheap, sdb, EBUSY]
    rw [hfail] at hok
    cases hok
  · rw [hheap] at hheap' hpending
    refine ⟨hheap', (hpending 0).mpr ?_⟩
    rcases hp with hp | hp
    · exact .inl hp
    · exact .inr ⟨rfl, hp⟩

/-- A CONNECT of a device whose state is unmounted attempts its mount. -/
theorem automount_fs_found {s : State} {d : Devname} {a : Addr} (hd : d ≠ [])
    (hfind : automount_find s d = some a) (hm : (s.heap a).mounted = false) (mallocOk : Bool)
    (r : MountResults) :
    automount_fs s (some d) mallocOk r = automount_try_mount s a r := by
  cases d with
  | nil => contradiction
  | cons b bs => simp [automount_fs, hfind, hm]

theorem Retrying.failedConnect {attempts : UInt32} {n : Nat} {c : Counted}
    (h : Retrying attempts n c) :
    ∃ c', countedStep c failedConnect = some c' ∧ Retrying (attempts + 1) n c' := by
  obtain ⟨s, hs⟩ : ∃ s, s = c.sys.event (some sdb) .connect := ⟨_, rfl⟩
  have hmounters : s.mounters = [0] := by
    rw [hs, event_mounters, h.mounters]
  have hheap : s.heap 0 = ⟨sdb, false, false, attempts⟩ := by
    rw [hs, event_heap, h.heap]
  have hpending : Pending s 0 := by
    unfold Pending
    rw [hs, event_wq]
    exact h.pending
  have hwf : Wf s := hs ▸ h.wf.event _ _
  have hfind : automount_find s sdb = some 0 := by
    simp [automount_find, hmounters, hheap]
  have hfs : automount_fs s (some sdb) true ⟨.fail 5, .fail 5⟩ =
      automount_try_mount s 0 ⟨.fail 5, .fail 5⟩ :=
    automount_fs_found (List.cons_ne_nil _ _) hfind (by rw [hheap]) true _
  obtain ⟨hm, hh, hp⟩ := Retrying.attempt hwf hmounters hheap (.inl hpending)
  refine ⟨⟨automount_try_mount s 0 ⟨.fail 5, .fail 5⟩, c.retries⟩, ?_, ?_, hm, hh, hp, h.retries⟩
  · rw [← hfs, hs]
    rfl
  · rw [← hfs, hs]
    exact @wf_step _ _ Automount.failedConnect h.wf rfl

theorem Retrying.failedRetry {attempts : UInt32} {n : Nat} {c : Counted}
    (h : Retrying attempts n c) (hlt : attempts + 1 < AUTOMOUNT_MAX_RETRIES) :
    ∃ c', countedStep c failedRetry = some c' ∧ Retrying (attempts + 1) (n + 1) c' := by
  have hmem : ((0, .mount_dwork) : Addr × Dwork) ∈ c.sys.wq.q := h.pending
  obtain ⟨s', hs⟩ : ∃ s', step c.sys Automount.failedRetry = some s' := by
    obtain ⟨f, x, hf, hx, -⟩ := h.wf.carries _ hmem
    simp [step, Automount.failedRetry, WorkQueue.take, hmem, hf, hx]
  obtain ⟨-, f, x, wq, ht, rfl⟩ := fire_mount h.wf.carries hs
  have hunmounted : ((started c.sys (0, .mount_dwork) wq).heap 0).mounted = false := by
    show (c.sys.heap 0).mounted = false
    rw [h.heap]
  have htry : automount_mount_retry (started c.sys (0, .mount_dwork) wq) 0 ⟨.fail 5, .fail 5⟩ =
      automount_try_mount (started c.sys (0, .mount_dwork) wq) 0 ⟨.fail 5, .fail 5⟩ :=
    if_neg (by simp [hunmounted])
  rw [htry] at hs
  obtain ⟨hm, hh, hp⟩ := Retrying.attempt (s := started c.sys (0, .mount_dwork) wq)
    (h.wf.started ht) h.mounters h.heap (.inr hlt)
  refine ⟨⟨_, c.count Automount.failedRetry⟩, ?_, wf_step h.wf hs, hm, hh, hp, ?_⟩
  · rw [countedStep, hs]
    rfl
  · show c.count (.fire (0, .mount_dwork) ⟨.fail 5, .fail 5⟩ true) 0 = n + 1
    rw [Counted.count, h.heap, if_neg (by simp), Function.update_self, h.retries]

/-- Duplicate CONNECTs that fail while a retry is pending count on, modulo the wrap. -/
theorem Retrying.failedConnects {n : Nat} (k : Nat) :
    ∀ {attempts : UInt32} {c : Counted}, Retrying attempts n c →
      ∃ c', run countedStep c (List.replicate k Automount.failedConnect) = some c' ∧
        Retrying (attempts + UInt32.ofNat k) n c' := by
  induction k with
  | zero =>
    intro attempts c h
    exact ⟨c, rfl, by simpa using h⟩
  | succ k ih =>
    intro attempts c h
    obtain ⟨t, ht, hretrying⟩ := h.failedConnect
    obtain ⟨c', hc', hend⟩ := ih hretrying
    refine ⟨c', (run_cons_some _).mpr ⟨t, ht, hc'⟩, ?_⟩
    rwa [UInt32.add_assoc, UInt32.add_comm 1, ← UInt32.ofNat_one, ← UInt32.ofNat_add] at hend

/-- Retries that fail below the limit. -/
theorem Retrying.failedRetries (k : Nat) :
    ∀ {attempts : UInt32} {n : Nat} {c : Counted}, Retrying attempts n c →
      attempts.toNat + k < AUTOMOUNT_MAX_RETRIES.toNat →
      ∃ c', run countedStep c (List.replicate k Automount.failedRetry) = some c' ∧
        Retrying (attempts + UInt32.ofNat k) (n + k) c' := by
  induction k with
  | zero =>
    intro attempts n c h _
    exact ⟨c, rfl, by simpa using h⟩
  | succ k ih =>
    intro attempts n c h hlt
    have hmax : AUTOMOUNT_MAX_RETRIES.toNat = 8 := rfl
    have hsucc : (attempts + 1).toNat = attempts.toNat + 1 := by
      rw [UInt32.toNat_add]
      show (attempts.toNat + 1) % 4294967296 = _
      omega
    obtain ⟨t, ht, hretrying⟩ := h.failedRetry (UInt32.lt_iff_toNat_lt.mpr (by omega))
    obtain ⟨c', hc', hend⟩ := ih hretrying (by omega)
    refine ⟨c', (run_cons_some _).mpr ⟨t, ht, hc'⟩, ?_⟩
    rwa [UInt32.add_assoc, UInt32.add_comm 1, ← UInt32.ofNat_one, ← UInt32.ofNat_add,
      Nat.add_assoc, Nat.add_comm 1] at hend

theorem retrying_first :
    ∃ c, countedStep .init failedConnect = some c ∧ Retrying 1 0 c :=
  ⟨_, rfl, @wf_step _ _ failedConnect wf_init rfl, rfl, rfl, by decide, rfl⟩

/-- After the duplicate CONNECTs have wrapped `mount_attempts` the retries go on. -/
theorem disciplined_fails :
    ∃ c, run countedStep .init wrapRun = some c ∧ c.retries 0 = 9 ∧ ¬ Disciplined c := by
  obtain ⟨c₁, h₁, hc₁⟩ := retrying_first
  obtain ⟨c₂, h₂, hc₂⟩ := hc₁.failedRetries 6 (by decide)
  obtain ⟨c₃, h₃, hc₃⟩ := hc₂.failedConnects 4294967289
  have hwrapped : (1 : UInt32) + UInt32.ofNat 6 + UInt32.ofNat 4294967289 = 0 := by decide
  rw [hwrapped] at hc₃
  obtain ⟨c₄, h₄, hc₄⟩ := hc₃.failedRetries 3 (by decide)
  refine ⟨c₄, ?_, hc₄.retries, ?_⟩
  · rw [wrapRun, run_cons, h₁, Option.bind_some, run_append, h₂, Option.bind_some, run_append, h₃,
      Option.bind_some, h₄]
  · intro h
    have hbounded := h.bounded 0
    rw [hc₄.retries] at hbounded
    exact absurd hbounded (by decide)

end Hcrtos.Native.Automount
