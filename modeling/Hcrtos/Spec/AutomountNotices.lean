import Mathlib.Data.List.Induction
import Hcrtos.Spec.AutomountAgreement
import Hcrtos.Spec.FileuartTasksCorrect

/-!
# The automounter: notices of an umount

The flag `notify_umount` of an object says that the UMOUNT notice of its mount was sent. A
MOUNT notice resets it only where the object is mounted anew, so a notice for a device whose
lazy umount is queued leaves that umount unannounced. In the runs without such a notice
every umount is announced, and the file UART has its log closed by then.

## Key results

- `noticed_step`: what one step preserves
- `bracketed_of_mountsClean`: umounts are announced, and find no log open, as long as no MOUNT
  notice is sent while a lazy umount of the device is queued
- `unannounced_of_not_mountsClean`: such a notice leaves a work queued that unmounts the device
  unannounced
- `bracketed_fails`: a run in which it does
-/

namespace Hcrtos.Native.Automount

open Lts WorkQueue

/-! ### Notices in a list of calls -/

/-- The MOUNT or UMOUNT notice that a call sends for the device `d`. -/
def noticeOf (d : Devname) : Call → Option Notify
  | .sys_notify_event .USB_MSC_NOTIFY_MOUNT d' =>
    if d' = d then some .USB_MSC_NOTIFY_MOUNT else none
  | .sys_notify_event .USB_MSC_NOTIFY_UMOUNT d' =>
    if d' = d then some .USB_MSC_NOTIFY_UMOUNT else none
  | _ => none

/-- The latest of these notices. -/
def lastNotice (cs : List Call) (d : Devname) : Option Notify :=
  (cs.filterMap (noticeOf d)).getLast?

/-- Each umount follows the UMOUNT notice of its device, with no MOUNT notice in between. -/
def Bracketed (cs : List Call) : Prop :=
  ∀ cs₁ d ok cs₂, cs = cs₁ ++ .umount d ok :: cs₂ →
    lastNotice cs₁ d = some .USB_MSC_NOTIFY_UMOUNT

/-- The calls that left the automounter. -/
def State.calls (s : State) : List Call := s.log.map Prod.fst

theorem lastNotice_append (cs cs' : List Call) (d : Devname) :
    lastNotice (cs ++ cs') d = (lastNotice cs' d).or (lastNotice cs d) := by
  simp [lastNotice, List.filterMap_append, List.getLast?_append]

/-- Calls that send no notice for the device. -/
theorem lastNotice_append_of_none {cs cs' : List Call} {d : Devname}
    (h : ∀ c ∈ cs', noticeOf d c = none) : lastNotice (cs ++ cs') d = lastNotice cs d := by
  have hnil : cs'.filterMap (noticeOf d) = [] := List.filterMap_eq_nil_iff.mpr h
  rw [lastNotice_append]
  simp [lastNotice, hnil]

theorem bracketed_nil : Bracketed [] := by
  intro cs₁ d ok cs₂ heq
  simp at heq

/-- One more call, which has to be announced if it is an umount. -/
theorem Bracketed.concat {cs : List Call} {c : Call} (h : Bracketed cs)
    (hc : ∀ d ok, c = .umount d ok → lastNotice cs d = some .USB_MSC_NOTIFY_UMOUNT) :
    Bracketed (cs ++ [c]) := by
  intro cs₁ d ok cs₂ heq
  obtain rfl | ⟨cs₃, c', rfl⟩ := cs₂.eq_nil_or_concat'
  · obtain ⟨rfl, hlast⟩ := List.append_inj' heq rfl
    apply hc d ok
    simpa using hlast
  · rw [← List.cons_append, ← List.append_assoc] at heq
    obtain ⟨rfl, -⟩ := List.append_inj' heq rfl
    exact h cs₁ d ok cs₃ rfl

theorem Bracketed.append {cs cs' : List Call} (h : Bracketed cs)
    (hcs : ∀ c ∈ cs', NoUmount c) : Bracketed (cs ++ cs') := by
  induction cs' generalizing cs with
  | nil => simpa using h
  | cons c cs' ih =>
    have hc : Bracketed (cs ++ [c]) := by
      apply h.concat
      intro d ok hcd
      have hno := hcs c List.mem_cons_self
      rw [hcd] at hno
      exact hno.elim
    rw [List.append_cons]
    exact ih hc fun c' hc' => hcs c' (List.mem_cons_of_mem c hc')

/-! ### The calls of one function -/

/-- A mount attempt with these answers ends with the device mounted. -/
def MountResults.Mounts (r : MountResults) : Prop :=
  r.vfat = .ok ∨ r.vfat = .fail EBUSY ∨ r.ntfs = .ok ∨ r.ntfs = .fail EBUSY

instance (r : MountResults) : Decidable r.Mounts := by
  unfold MountResults.Mounts; infer_instance

/-- The device that a call is about. -/
def Call.devname : Call → Devname
  | .mount d _ => d
  | .umount d _ => d
  | .sys_notify_event _ d => d

/-- A call on behalf of `d` that is not an umount and sends neither notice. -/
structure Silent (d : Devname) (c : Call) : Prop where
  devname : c.devname = d
  no_umount : NoUmount c
  no_notice : ∀ d', noticeOf d' c = none

theorem silent_mount (d : Devname) (r : MountResult) : Silent d (.mount d r) :=
  ⟨rfl, trivial, fun _ => rfl⟩

theorem silent_mount_fail (d : Devname) : Silent d (.sys_notify_event .USB_MSC_NOTIFY_MOUNT_FAIL d) :=
  ⟨rfl, trivial, fun _ => rfl⟩

@[simp] theorem calls_call (s : State) (a : Addr) (c : Devname → Call) :
    (s.call a c).calls = s.calls ++ [c (s.heap a).devname] := by
  simp [State.calls, State.call]

@[simp] theorem calls_write (s : State) (a : Addr) (v : AutomounterState) :
    (s.write a v).calls = s.calls := rfl

@[simp] theorem heap_call (s : State) (a : Addr) (c : Devname → Call) :
    (s.call a c).heap = s.heap := rfl

@[simp] theorem heap_write_self (s : State) (a : Addr) (v : AutomounterState) :
    (s.write a v).heap a = v := by
  simp [State.write]

@[simp] theorem calls_del_free (s : State) (a : Addr) : (s.del_free a).calls = s.calls := rfl

@[simp] theorem heap_del_free (s : State) (a : Addr) : (s.del_free a).heap = s.heap := rfl

@[simp] theorem calls_work_queue (s : State) (w : Addr × Dwork) (worker : Worker) (delay : Nat) :
    (s.work_queue w worker delay).calls = s.calls := rfl

@[simp] theorem heap_work_queue (s : State) (w : Addr × Dwork) (worker : Worker) (delay : Nat) :
    (s.work_queue w worker delay).heap = s.heap := rfl

theorem automount_schedule_retry_eq (s : State) (a : Addr) :
    (automount_schedule_retry s a).calls = s.calls ∧
      (automount_schedule_retry s a).heap = s.heap := by
  unfold automount_schedule_retry
  split
  · exact ⟨rfl, rfl⟩
  · split
    · exact ⟨rfl, rfl⟩
    · split <;> exact ⟨rfl, rfl⟩

/-- A mount attempt only resets the flag. -/
theorem automount_try_mount_notify (s : State) (a : Addr) (r : MountResults) :
    ((automount_try_mount s a r).heap a).notify_umount = true →
      (s.heap a).notify_umount = true := by
  rw [automount_try_mount]
  split
  · exact id
  · dsimp only
    split
    · simp [mountedLabel]
    · split
      · simp [mountedLabel]
      · split
        · simp [mountedLabel]
        · split
          · simp [mountedLabel]
          · simp [automount_schedule_retry_eq]

/-- What a mount attempt calls: after the silent calls it sends a MOUNT notice if the device
    is mounted. -/
structure AttemptCalls (s s' : State) (a : Addr) (noticed : Prop) : Prop where
  calls : ∃ cs, (∀ c ∈ cs, Silent (s.heap a).devname c) ∧
    (noticed ∧ s'.calls =
        s.calls ++ cs ++ [.sys_notify_event .USB_MSC_NOTIFY_MOUNT (s.heap a).devname] ∨
      ¬ noticed ∧ s'.calls = s.calls ++ cs)
  notify : (s'.heap a).notify_umount = true → (s.heap a).notify_umount = true
  armed : (s.heap a).mounted = true →
    (s.heap a).notify_umount = true → (s'.heap a).notify_umount = true

theorem automount_try_mount_calls {s : State} {a : Addr} (hm : (s.heap a).mounted = false)
    (r : MountResults) :
    AttemptCalls s (automount_try_mount s a r) a ((s.heap a).devname ≠ [] ∧ r.Mounts) := by
  have harmed : (s.heap a).mounted = true → (s.heap a).notify_umount = true →
      ((automount_try_mount s a r).heap a).notify_umount = true := by
    intro hmounted
    rw [hm] at hmounted
    contradiction
  refine ⟨?_, ?_, harmed⟩
  · rw [automount_try_mount]
    split
    · rename_i hd
      exact ⟨[], by simp, .inr ⟨by simp [hd], by simp⟩⟩
    · rename_i hd
      have hv := silent_mount (s.heap a).devname r.vfat
      have hn := silent_mount (s.heap a).devname r.ntfs
      have hf := silent_mount_fail (s.heap a).devname
      dsimp only
      split
      · rename_i hr
        exact ⟨[_], by simpa using hv, .inl ⟨⟨hd, .inl hr⟩, by simp [mountedLabel]⟩⟩
      · rename_i e hr
        split
        · rename_i he
          exact ⟨[_], by simpa using hv,
            .inl ⟨⟨hd, .inr (.inl (by rw [hr, he]))⟩, by simp [mountedLabel]⟩⟩
        · rename_i he
          have hvn : ∀ c ∈ [Call.mount (s.heap a).devname r.vfat,
              Call.mount (s.heap a).devname r.ntfs], Silent (s.heap a).devname c := by
            simpa using ⟨hv, hn⟩
          split
          · rename_i hr'
            exact ⟨_, hvn, .inl ⟨⟨hd, .inr (.inr (.inl hr'))⟩, by simp [mountedLabel]⟩⟩
          · rename_i e' hr'
            split
            · rename_i he'
              exact ⟨_, hvn, .inl ⟨⟨hd, .inr (.inr (.inr (by rw [hr', he'])))⟩,
                by simp [mountedLabel]⟩⟩
            · rename_i he'
              have hvnf : ∀ c ∈ [Call.mount (s.heap a).devname r.vfat,
                  Call.mount (s.heap a).devname r.ntfs,
                  .sys_notify_event .USB_MSC_NOTIFY_MOUNT_FAIL (s.heap a).devname],
                  Silent (s.heap a).devname c := by
                simpa using ⟨hv, hn, hf⟩
              refine ⟨_, hvnf, .inr ⟨?_, by simp [automount_schedule_retry_eq]⟩⟩
              rintro ⟨-, h | h | h | h⟩
              all_goals simp_all
  · exact automount_try_mount_notify s a r

theorem automount_mount_retry_calls (s : State) (a : Addr) (r : MountResults) :
    AttemptCalls s (automount_mount_retry s a r) a
      ((s.heap a).mounted = false ∧ (s.heap a).devname ≠ [] ∧ r.Mounts) := by
  unfold automount_mount_retry
  split
  · rename_i hm
    exact ⟨⟨[], by simp, .inr ⟨by simp [hm], by simp⟩⟩, id, fun _ => id⟩
  · rename_i hm
    have hm : (s.heap a).mounted = false := by simpa using hm
    obtain ⟨⟨cs, hcs, hcase⟩, hnotify, harmed⟩ := automount_try_mount_calls hm r
    refine ⟨⟨cs, hcs, ?_⟩, hnotify, harmed⟩
    simpa [hm] using hcase

/-- What an umount attempt calls, with the notice in front if the flag is not set. -/
def umountCalls (d : Devname) (notified umountOk : Bool) : List Call :=
  (if notified then [] else [.sys_notify_event .USB_MSC_NOTIFY_UMOUNT d]) ++
    .umount d umountOk ::
      (if umountOk then [] else [.sys_notify_event .USB_MSC_NOTIFY_UMOUNT_FAIL d])

theorem announceUmount_calls (s : State) (a : Addr) :
    (announceUmount s a).calls = s.calls ++ (if (s.heap a).notify_umount then [] else
        [.sys_notify_event .USB_MSC_NOTIFY_UMOUNT (s.heap a).devname]) ∧
      ((announceUmount s a).heap a).devname = (s.heap a).devname ∧
      ((announceUmount s a).heap a).notify_umount = true := by
  unfold announceUmount
  cases hn : (s.heap a).notify_umount with
  | true => simp [hn]
  | false => simp

theorem autoumount_fs_calls (s : State) (a : Addr) (umountOk : Bool) :
    (autoumount_fs s a umountOk).calls = s.calls ++
        umountCalls (s.heap a).devname (s.heap a).notify_umount umountOk ∧
      ((autoumount_fs s a umountOk).heap a).notify_umount = true := by
  obtain ⟨hcalls, hname, hflag⟩ := announceUmount_calls s a
  unfold autoumount_fs
  cases umountOk with
  | true => simp [hcalls, hname, umountCalls, hflag]
  | false =>
    dsimp only
    rw [if_pos rfl]
    split
    · simp [hcalls, hname, umountCalls, hflag]
    · simp [hcalls, hname, umountCalls, hflag]

/-- An umount that fails leaves the work of the object queued. -/
theorem autoumount_fs_queued {s : State} (hwf : s.wq.Wf) (a : Addr) :
    (a, .umount_dwork) ∈ (autoumount_fs s a false).wq.q := by
  have hwq : (announceUmount s a).wq = s.wq := (announceUmount_quiet s a).wq
  unfold autoumount_fs
  dsimp only
  rw [if_pos rfl]
  split
  · apply (WorkQueue.Wf.mem_work_qqueue _).mpr (.inl rfl)
    show (announceUmount s a).wq.Wf
    rwa [hwq]
  · rename_i havail
    show (a, Dwork.umount_dwork) ∈ (announceUmount s a).wq.q
    have havail' : ¬ (announceUmount s a).wq.work_available (a, .umount_dwork) = true := havail
    rw [hwq] at havail' ⊢
    by_contra hmem
    exact havail' ((hwf.work_available_iff _).mpr hmem)

/-! ### The invariant -/

/-- Every umount so far was announced, every queued umount is, and a linked object whose flag
    is set has its umount queued. -/
structure Noticed (s : State) : Prop where
  bracketed : Bracketed s.calls
  queued : ∀ a, (a, .umount_dwork) ∈ s.wq.q →
    lastNotice s.calls (s.heap a).devname = some .USB_MSC_NOTIFY_UMOUNT
  flagged : ∀ a ∈ s.mounters, (s.heap a).notify_umount = true → (a, .umount_dwork) ∈ s.wq.q
  armed : ∀ a, (a, .umount_dwork) ∈ s.wq.q → (s.heap a).notify_umount = true

theorem noticed_init : Noticed init where
  bracketed := bracketed_nil
  queued := by simp [init, WorkQueue.empty]
  flagged := by simp [init]
  armed := by simp [init, WorkQueue.empty]

/-- A notice is only about its own device. -/
theorem noticeOf_eq_none {d : Devname} {c : Call} (h : c.devname ≠ d) : noticeOf d c = none := by
  unfold noticeOf
  split
  · exact if_neg h
  · exact if_neg h
  · rfl

/-- A mount attempt links and unlinks no umount work. -/
theorem Attempt.mem_umount {s s' : State} {a : Addr} (hat : Attempt s s' a) (hwf : s.wq.Wf)
    (b : Addr) : (b, .umount_dwork) ∈ s'.wq.q ↔ (b, .umount_dwork) ∈ s.wq.q := by
  obtain ⟨s₁, hq, rfl | ⟨-, rfl⟩⟩ := hat
  · rw [hq.wq]
  · have hwf₁ : s₁.wq.Wf := hq.wq ▸ hwf
    show _ ∈ (s₁.wq.work_qqueue _ _ _ _).q ↔ _
    rw [hwf₁.mem_work_qqueue, hq.wq]
    simp

theorem Attempt.frame {s s' : State} {a : Addr} (hat : Attempt s s' a) :
    Frame s s' a ∧ s'.mounters = s.mounters := by
  obtain ⟨s₁, hq, rfl | ⟨-, rfl⟩⟩ := hat
  · exact ⟨hq.frame, hq.mounters⟩
  · exact ⟨⟨hq.frame.next, hq.frame.latest, hq.frame.stale, hq.frame.heap_ne, hq.frame.devname,
      hq.frame.mounted⟩, hq.mounters⟩

/-- A mount attempt keeps the invariant unless it sends its notice while a lazy umount of the
    device is queued. -/
theorem Noticed.attempt {s s' : State} {a : Addr} {noticed : Prop} (h : Noticed s)
    (hwf : Wf s) (hat : Attempt s s' a) (hc : AttemptCalls s s' a noticed)
    (hclean : noticed → ∀ b, (b, .umount_dwork) ∈ s.wq.q →
      (s.heap b).devname ≠ (s.heap a).devname) : Noticed s' := by
  obtain ⟨⟨cs, hcs, hcase⟩, hnotify, harmed⟩ := hc
  obtain ⟨hframe, hmounters⟩ := hat.frame
  have hmem := fun b => hat.mem_umount hwf.wq b
  have hbr : Bracketed (s.calls ++ cs) := h.bracketed.append fun c hc => (hcs c hc).no_umount
  have hlast : ∀ d, lastNotice (s.calls ++ cs) d = lastNotice s.calls d := fun d =>
    lastNotice_append_of_none fun c hc => (hcs c hc).no_notice d
  constructor
  · obtain ⟨-, hcalls⟩ | ⟨-, hcalls⟩ := hcase
    · rw [hcalls]
      apply hbr.concat
      intro d ok heq
      contradiction
    · rw [hcalls]
      exact hbr
  · intro b hb
    rw [hmem] at hb
    rw [hframe.devname_eq]
    obtain ⟨hn, hcalls⟩ | ⟨-, hcalls⟩ := hcase
    · -- the new notice is for another device
      have hne := hclean hn b hb
      rw [hcalls, lastNotice_append_of_none, hlast]
      · exact h.queued b hb
      · intro c hc
        rw [List.mem_singleton.mp hc]
        exact noticeOf_eq_none hne.symm
    · rw [hcalls, hlast]
      exact h.queued b hb
  · intro b hb hflag
    rw [hmem]
    apply h.flagged b (hmounters ▸ hb)
    by_cases hba : b = a
    · subst hba
      exact hnotify hflag
    · rwa [hframe.heap_ne b hba] at hflag
  · intro b hb
    rw [hmem] at hb
    by_cases hba : b = a
    · subst hba
      exact harmed (hwf.umount_mounted b hb).1 (h.armed b hb)
    · rw [hframe.heap_ne b hba]
      exact h.armed b hb

theorem umountCalls_devname {d : Devname} {notified ok : Bool} :
    ∀ c ∈ umountCalls d notified ok, c.devname = d := by
  cases notified <;> cases ok <;> simp [umountCalls, Call.devname]

/-- After an umount attempt the latest notice of its device is the UMOUNT notice. -/
theorem lastNotice_umountCalls {cs : List Call} {d : Devname} {notified : Bool}
    (hself : notified = true → lastNotice cs d = some .USB_MSC_NOTIFY_UMOUNT) (ok : Bool)
    (d' : Devname) : lastNotice (cs ++ umountCalls d notified ok) d' =
      if d' = d then some .USB_MSC_NOTIFY_UMOUNT else lastNotice cs d' := by
  by_cases hd : d' = d
  · subst hd
    rw [if_pos rfl]
    cases notified with
    | true =>
      rw [lastNotice_append_of_none]
      · exact hself rfl
      · cases ok <;> simp [umountCalls, noticeOf]
    | false =>
      rw [lastNotice_append]
      cases ok <;> simp [umountCalls, lastNotice, noticeOf, List.filterMap_cons]
  · rw [if_neg hd]
    apply lastNotice_append_of_none
    intro c hc
    apply noticeOf_eq_none
    rw [umountCalls_devname c hc]
    exact fun h => hd h.symm

/-- The umount of an attempt is announced, by an earlier notice if the flag is set. -/
theorem bracketed_umountCalls {cs : List Call} {d : Devname} {notified : Bool}
    (h : Bracketed cs) (hself : notified = true → lastNotice cs d = some .USB_MSC_NOTIFY_UMOUNT)
    (ok : Bool) : Bracketed (cs ++ umountCalls d notified ok) := by
  -- the calls up to the umount, and its failure notice
  have hfail : ∀ cs', Bracketed cs' → Bracketed
      (cs' ++ if ok then [] else [Call.sys_notify_event .USB_MSC_NOTIFY_UMOUNT_FAIL d]) := by
    intro cs' hcs'
    apply hcs'.append
    cases ok <;> simp [NoUmount]
  cases notified with
  | true =>
    have humount : Bracketed (cs ++ [Call.umount d ok]) := by
      apply h.concat
      rintro d' ok' ⟨rfl, rfl⟩
      exact hself rfl
    have := hfail _ humount
    simpa [umountCalls] using this
  | false =>
    have hnotice : Bracketed (cs ++ [Call.sys_notify_event .USB_MSC_NOTIFY_UMOUNT d]) := by
      apply h.append
      simp [NoUmount]
    have humount := hnotice.concat (c := .umount d ok) (by
      rintro d' ok' ⟨rfl, rfl⟩
      simp [lastNotice, noticeOf])
    have := hfail _ humount
    simpa [umountCalls] using this

/-- What an umount attempt does to the queue and the list of mounters. -/
theorem Release.effects {s s' : State} {a : Addr} {umountOk : Bool}
    (hr : Release s s' a umountOk) (hwf : s.wq.Wf) (hnodup : s.mounters.Nodup) :
    Frame s s' a ∧
      (∀ b, (b, Dwork.umount_dwork) ∈ s'.wq.q → b = a ∨ (b, Dwork.umount_dwork) ∈ s.wq.q) ∧
      (∀ w ∈ s.wq.q, w ∈ s'.wq.q) ∧
      ∀ b ∈ s'.mounters, b ∈ s.mounters ∧ (b = a → umountOk = false) := by
  obtain ⟨s₁, hq, hcase⟩ := hr
  have hf := hq.frame
  have hwf₁ : s₁.wq.Wf := hq.wq ▸ hwf
  obtain ⟨-, rfl⟩ | ⟨rfl, rfl | rfl⟩ := hcase
  · refine ⟨⟨hf.next, hf.latest, hf.stale, hf.heap_ne, hf.devname, hf.mounted⟩, ?_, ?_, ?_⟩
    · exact fun b hb => .inr (hq.wq ▸ hb)
    · exact fun w hw => hq.wq.symm ▸ hw
    · -- the freed object is not linked any more
      intro b hb
      have hb : b ∈ s₁.mounters.erase a := hb
      rw [hq.mounters, hnodup.mem_erase_iff] at hb
      exact ⟨hb.2, fun hba => absurd hba hb.1⟩
  · exact ⟨hf, fun b hb => .inr (hq.wq ▸ hb), fun w hw => hq.wq.symm ▸ hw,
      fun b hb => ⟨hq.mounters ▸ hb, fun _ => rfl⟩⟩
  · refine ⟨⟨hf.next, hf.latest, hf.stale, hf.heap_ne, hf.devname, hf.mounted⟩, ?_, ?_, ?_⟩
    · intro b hb
      obtain heq | hb := hwf₁.mem_work_qqueue.mp hb
      · exact .inl (Prod.mk.inj heq).1
      · exact .inr (hq.wq ▸ hb)
    · intro w hw
      exact hwf₁.mem_work_qqueue.mpr (.inr (hq.wq.symm ▸ hw))
    · exact fun b hb => ⟨hq.mounters ▸ hb, fun _ => rfl⟩

/-- An umount attempt on an object that has its notice sent, if the flag says so. The work of
    the object itself may be unlinked before. -/
theorem Noticed.release {s : State} {a : Addr} {umountOk : Bool} (hwf : s.wq.Wf)
    (hnodup : s.mounters.Nodup) (hbr : Bracketed s.calls)
    (hqueued : ∀ b, (b, .umount_dwork) ∈ s.wq.q →
      lastNotice s.calls (s.heap b).devname = some .USB_MSC_NOTIFY_UMOUNT)
    (hflagged : ∀ b ∈ s.mounters, b ≠ a → (s.heap b).notify_umount = true →
      (b, .umount_dwork) ∈ s.wq.q)
    (harmed : ∀ b, (b, .umount_dwork) ∈ s.wq.q → (s.heap b).notify_umount = true)
    (hself : (s.heap a).notify_umount = true →
      lastNotice s.calls (s.heap a).devname = some .USB_MSC_NOTIFY_UMOUNT) :
    Noticed (autoumount_fs s a umountOk) := by
  obtain ⟨hcalls, hset⟩ := autoumount_fs_calls s a umountOk
  obtain ⟨hframe, hmem, hkept, hlinked⟩ :=
    (autoumount_fs_release s a umountOk).effects hwf hnodup
  constructor
  · rw [hcalls]
    exact bracketed_umountCalls hbr hself umountOk
  · intro b hb
    rw [hcalls, hframe.devname_eq, lastNotice_umountCalls hself]
    split
    · rfl
    · rename_i hne
      obtain rfl | hb := hmem b hb
      · exact absurd rfl hne
      · exact hqueued b hb
  · intro b hb hflag
    obtain ⟨hb, hok⟩ := hlinked b hb
    by_cases hba : b = a
    · subst hba
      cases hok rfl
      exact autoumount_fs_queued hwf b
    · rw [hframe.heap_ne b hba] at hflag
      exact hkept _ (hflagged b hb hba hflag)
  · intro b hb
    by_cases hba : b = a
    · rw [hba]
      exact hset
    · rw [hframe.heap_ne b hba]
      exact harmed b ((hmem b hb).resolve_left hba)

/-! ### The condition -/

/-- The device that a step sends a MOUNT notice for, if it sends one. -/
def noticedDevice (s : State) : Action → Option Devname
  | .connect (some d) mallocOk r =>
    match automount_find s d with
    | some a => if d ≠ [] ∧ ((s.heap a).mounted = true ∨ r.Mounts) then some d else none
    | none => if d ≠ [] ∧ mallocOk = true ∧ r.Mounts then some d else none
  | .fire (a, .mount_dwork) r _ =>
    if (s.heap a).mounted = false ∧ (s.heap a).devname ≠ [] ∧ r.Mounts then
      some (s.heap a).devname
    else none
  | _ => none

/-- No MOUNT notice is sent for a device while a lazy umount of an object of that name is
    queued. -/
def MountsClean (s : State) (act : Action) : Prop :=
  ∀ w ∈ s.wq.q, w.2 = .umount_dwork → noticedDevice s act ≠ some (s.heap w.1).devname

instance (s : State) (act : Action) : Decidable (MountsClean s act) := by
  unfold MountsClean; infer_instance

/-- A CONNECT is ignored, or it makes an attempt for a linked or a new object, with a notice
    sent as `noticedDevice` says. -/
theorem automount_fs_calls {s s' : State} {info : Option Devname} {mallocOk : Bool}
    {r : MountResults} (h : automount_fs s info mallocOk r = s') :
    s' = s ∧ noticedDevice s (.connect info mallocOk r) = none ∨
      ∃ d, info = some d ∧ d ≠ [] ∧
        ((∃ a, automount_find s d = some a ∧ Attempt s s' a ∧
            AttemptCalls s s' a (noticedDevice s (.connect info mallocOk r) = some d)) ∨
          (automount_find s d = none ∧ Attempt (s.malloc d) s' s.next ∧
            AttemptCalls (s.malloc d) s' s.next
              (noticedDevice s (.connect info mallocOk r) = some d))) := by
  unfold automount_fs at h
  split at h
  · exact .inl ⟨h.symm, rfl⟩
  · refine .inl ⟨h.symm, ?_⟩
    simp only [noticedDevice]
    split <;> simp
  · rename_i d hd
    have hd : d ≠ [] := hd
    cases hfind : automount_find s d with
    | some a =>
      obtain ⟨-, hname⟩ := automount_find_eq_some hfind
      refine .inr ⟨d, rfl, hd, .inl ⟨a, hfind, ?_⟩⟩
      simp only [hfind] at h
      split at h
      · -- the notice of a duplicate CONNECT
        rename_i hm
        rw [← h]
        refine ⟨((Quiet.refl _ s a).call (c := .sys_notify_event .USB_MSC_NOTIFY_MOUNT)
          fun _ => trivial).attempt, ⟨[], by simp, .inl ⟨?_, by simp⟩⟩, id, fun _ => id⟩
        simp [noticedDevice, hfind, hd, hm]
      · rename_i hm
        rw [← h]
        refine ⟨automount_try_mount_attempt s a r, ?_⟩
        have hc := automount_try_mount_calls (by simpa using hm) r
        rw [hname] at hc
        simpa [noticedDevice, hfind, hd, hm] using hc
    | none =>
      simp only [hfind] at h
      split at h
      · rename_i hok
        refine .inl ⟨h.symm, ?_⟩
        simp [noticedDevice, hfind, hok]
      · rename_i hok
        refine .inr ⟨d, rfl, hd, .inr ⟨hfind, ?_⟩⟩
        rw [← h]
        refine ⟨automount_try_mount_attempt _ _ r, ?_⟩
        have hc := automount_try_mount_calls (s := s.malloc d) (a := s.next)
          (by simp [State.malloc, State.write]) r
        have hname : ((s.malloc d).heap s.next).devname = d := by
          simp [State.malloc, State.write]
        rw [hname] at hc
        simpa [noticedDevice, hfind, hd, hok] using hc

/-- A work that fires runs the function of its kind on its own object. -/
theorem fire_calls {s s' : State} {w : Addr × Dwork} {r : MountResults} {umountOk : Bool}
    (hc : Carries OwnWork s.wq) (h : step s (.fire w r umountOk) = some s') :
    w ∈ s.wq.q ∧ ∃ f x wq s₁, s.wq.take w = some (f, x, wq) ∧ s' = finished s₁ w ∧
      (w.2 = .mount_dwork ∧ s₁ = automount_mount_retry (started s w wq) w.1 r ∨
        w.2 = .umount_dwork ∧ s₁ = autoumount_fs (started s w wq) w.1 umountOk) := by
  simp only [step] at h
  split at h
  · contradiction
  · rename_i f x wq htake
    obtain ⟨hmem, y, rfl, rfl, hf⟩ := take_eq_some hc htake
    simp only [Option.some.injEq] at h
    refine ⟨hmem, f, some w.1, wq, _, htake, h.symm, ?_⟩
    cases hw : w.2 with
    | mount_dwork =>
      rw [hw] at hf
      subst hf
      exact .inl ⟨rfl, rfl⟩
    | umount_dwork =>
      rw [hw] at hf
      subst hf
      exact .inr ⟨rfl, rfl⟩

@[simp] theorem event_calls (s : State) (info : Option Devname) (e : Event) :
    (s.event info e).calls = s.calls := by
  unfold State.event; split <;> rfl

theorem Noticed.event {s : State} (h : Noticed s) (info : Option Devname) (e : Event) :
    Noticed (s.event info e) where
  bracketed := by simpa using h.bracketed
  queued := by simpa using h.queued
  flagged := by simpa using h.flagged
  armed := by simpa using h.armed

/-- The new object has no umount queued, and its flag is not set. -/
theorem Noticed.malloc {s : State} (h : Noticed s) (hwf : Wf s) (d : Devname) :
    Noticed (s.malloc d) where
  bracketed := h.bracketed
  queued := by
    intro a ha
    have hold : (s.malloc d).heap a = s.heap a :=
      Function.update_of_ne (Nat.ne_of_lt (hwf.known _ ha)) _ _
    rw [hold]
    exact h.queued a ha
  flagged := by
    intro a ha hflag
    obtain ha | ha := List.mem_append.mp ha
    · have hold : (s.malloc d).heap a = s.heap a :=
        Function.update_of_ne (Nat.ne_of_lt (hwf.mounters_known a ha)) _ _
      rw [hold] at hflag
      exact h.flagged a ha hflag
    · rw [List.mem_singleton.mp ha] at hflag
      simp [State.malloc, State.write] at hflag
  armed := by
    intro a ha
    have hold : (s.malloc d).heap a = s.heap a :=
      Function.update_of_ne (Nat.ne_of_lt (hwf.known _ ha)) _ _
    rw [hold]
    exact h.armed a ha

@[simp] theorem noticedDevice_event (s : State) (info info' : Option Devname) (e : Event)
    (mallocOk : Bool) (r : MountResults) :
    noticedDevice (s.event info e) (.connect info' mallocOk r) =
      noticedDevice s (.connect info' mallocOk r) := by
  cases info' with
  | none => rfl
  | some d => simp [noticedDevice]

theorem Noticed.cancelMount {s : State} (h : Noticed s) (hwf : Wf s) (a : Addr) :
    Noticed (cancelMount s a) where
  bracketed := h.bracketed
  queued := fun b hb => h.queued b (hwf.wq.mem_work_qcancel.mp hb).2
  flagged := fun b hb hflag =>
    hwf.wq.mem_work_qcancel.mpr ⟨by simp, h.flagged b hb hflag⟩
  armed := fun b hb => h.armed b (hwf.wq.mem_work_qcancel.mp hb).2

theorem Noticed.del_free {s : State} (h : Noticed s) (a : Addr) : Noticed (s.del_free a) where
  bracketed := h.bracketed
  queued := h.queued
  flagged := fun b hb => h.flagged b (List.mem_of_mem_erase hb)
  armed := h.armed

theorem Noticed.finished {s : State} (h : Noticed s) (w : Addr × Dwork) :
    Noticed (finished s w) :=
  ⟨h.bracketed, h.queued, h.flagged, h.armed⟩

/-- A DISCONNECT of a mounted object runs the umount itself. -/
theorem automount_disconnect_eq {s : State} {d : Devname} {a : Addr} (hd : d ≠ [])
    (hfind : automount_find s d = some a) (hm : (s.heap a).mounted = true) (umountOk : Bool) :
    automount_disconnect s (some d) umountOk = autoumount_fs (cancelMount s a) a umountOk := by
  unfold automount_disconnect
  split
  · contradiction
  · rename_i heq
    cases heq
    contradiction
  · rename_i heq
    cases heq
    rw [hfind]
    have hm' : ¬ (s.heap a).mounted = false := by simp [hm]
    exact if_neg hm'

theorem noticed_step {s s' : State} {act : Action} (hwf : Wf s) (h : Noticed s)
    (hclean : MountsClean s act) (hs : step s act = some s') : Noticed s' := by
  cases act with
  | connect info mallocOk r =>
    have he := h.event info .connect
    have hwe := hwf.event info .connect
    -- a notice is for a device without a queued umount
    have hother : ∀ d, noticedDevice (s.event info .connect) (.connect info mallocOk r) = some d →
        ∀ b, (b, .umount_dwork) ∈ (s.event info .connect).wq.q →
          ((s.event info .connect).heap b).devname ≠ d := by
      intro d hd b hb hname
      rw [noticedDevice_event] at hd
      rw [event_wq] at hb
      apply hclean (b, .umount_dwork) hb rfl
      rw [hd, ← hname, event_heap]
    obtain ⟨rfl, -⟩ | ⟨d, rfl, hd, ⟨a, hfind, hat, hc⟩ | ⟨hfind, hat, hc⟩⟩ :=
      automount_fs_calls (Option.some.inj hs)
    · exact he
    · apply he.attempt hwe hat hc
      intro hn b hb
      rw [(automount_find_eq_some hfind).2]
      exact hother d hn b hb
    · apply (he.malloc hwe d).attempt (hwe.malloc (automount_find_eq_none hfind)) hat hc
      intro hn b hb
      have hold : ((s.event (some d) .connect).malloc d).heap b =
          (s.event (some d) .connect).heap b :=
        Function.update_of_ne (Nat.ne_of_lt (hwe.known _ hb)) _ _
      have hname : (((s.event (some d) .connect).malloc d).heap
          (s.event (some d) .connect).next).devname = d := by
        simp [State.malloc, State.write]
      rw [hold, hname]
      exact hother d hn b hb
  | disconnect info umountOk =>
    have he := h.event info .disconnect
    have hwe := hwf.event info .disconnect
    obtain ⟨rfl, -⟩ | ⟨d, a, rfl, hd, hfind, ⟨-, rfl⟩ | ⟨hm, -⟩⟩ :=
      automount_disconnect_cases (Option.some.inj hs)
    · exact he
    · exact (he.cancelMount hwe a).del_free a
    · have hs' : s' = _ := (Option.some.inj hs).symm.trans
        (automount_disconnect_eq hd hfind hm umountOk)
      have hc := he.cancelMount hwe a
      rw [hs']
      apply Noticed.release (hwe.cancelMount a).wq (hwe.cancelMount a).nodup hc.bracketed hc.queued
      · exact fun b hb _ hflag => hc.flagged b hb hflag
      · exact hc.armed
      · intro hflag
        exact hc.queued a (hc.flagged a (automount_find_eq_some hfind).1 hflag)
  | fire w r umountOk =>
    obtain ⟨hmem, f, x, wq, s₁, ht, rfl, hrun⟩ := fire_calls hwf.carries hs
    obtain ⟨a, k⟩ := w
    have hwfs := hwf.started ht
    obtain ⟨hk, rfl⟩ | ⟨hk, rfl⟩ := hrun
    · -- a mount retry: the umounts that were queued still are
      cases hk
      have hstart : Noticed (started s (a, .mount_dwork) wq) := by
        constructor
        · exact h.bracketed
        · exact fun b hb => h.queued b ((hwf.wq.mem_take ht).mp hb).2
        · exact fun b hb hflag => (hwf.wq.mem_take ht).mpr ⟨by simp, h.flagged b hb hflag⟩
        · exact fun b hb => h.armed b ((hwf.wq.mem_take ht).mp hb).2
      apply Noticed.finished
      apply hstart.attempt hwfs (automount_mount_retry_attempt _ a r)
        (automount_mount_retry_calls _ a r)
      rintro ⟨hm, hd, hr⟩ b hb hname
      apply hclean (b, .umount_dwork) ((hwf.wq.mem_take ht).mp hb).2 rfl
      have hn : noticedDevice s (.fire (a, .mount_dwork) r umountOk) =
          some (s.heap a).devname := if_pos ⟨hm, hd, hr⟩
      rw [hn]
      exact congrArg some hname.symm
    · cases hk
      apply Noticed.finished
      apply Noticed.release hwfs.wq hwfs.nodup h.bracketed
      · exact fun b hb => h.queued b ((hwf.wq.mem_take ht).mp hb).2
      · intro b hb hba hflag
        exact (hwf.wq.mem_take ht).mpr ⟨by simpa using hba, h.flagged b hb hflag⟩
      · exact fun b hb => h.armed b ((hwf.wq.mem_take ht).mp hb).2
      · exact fun _ => h.queued a hmem

/-- The umount of the object at `b` is queued, and it would not be announced. -/
structure Unannounced (s : State) (b : Addr) : Prop where
  queued : (b, .umount_dwork) ∈ s.wq.q
  armed : (s.heap b).notify_umount = true
  last : lastNotice s.calls (s.heap b).devname = some .USB_MSC_NOTIFY_MOUNT

/-- The flag is set, so no notice stands between the MOUNT notice and the umount. -/
theorem Unannounced.fire {s : State} {b : Addr} (h : Unannounced s b) (hwf : Wf s)
    (r : MountResults) (umountOk : Bool) :
    ∃ s', step s (.fire (b, .umount_dwork) r umountOk) = some s' ∧ ¬ Bracketed s'.calls := by
  obtain ⟨f, x, hf, hx, hxb, hfun⟩ := hwf.carries _ h.queued
  have hxb : x = b := hxb
  have hfun : f = .autoumount_fs := hfun
  rw [hfun] at hf
  rw [hxb] at hx
  obtain ⟨wq, htake⟩ : ∃ wq, s.wq.take (b, .umount_dwork) =
      some (.autoumount_fs, some b, wq) := by
    simp [WorkQueue.take, h.queued, hf, hx]
  refine ⟨finished (autoumount_fs (started s (b, .umount_dwork) wq) b umountOk)
    (b, .umount_dwork), ?_, ?_⟩
  · simp only [step, htake]
    rfl
  · intro hbr
    have hcalls := (autoumount_fs_calls (started s (b, .umount_dwork) wq) b umountOk).1
    have hcalls : (autoumount_fs (started s (b, .umount_dwork) wq) b umountOk).calls =
        s.calls ++ umountCalls (s.heap b).devname (s.heap b).notify_umount umountOk := hcalls
    rw [h.armed] at hcalls
    have hno := hbr s.calls (s.heap b).devname umountOk _ hcalls
    rw [h.last] at hno
    contradiction

/-- An attempt that sends its notice while an umount of the device is queued. -/
theorem AttemptCalls.unannounced {s s' : State} {a b : Addr} {noticed : Prop}
    (hc : AttemptCalls s s' a noticed) (hat : Attempt s s' a) (hwf : Wf s) (hn : noticed)
    (hb : (b, .umount_dwork) ∈ s.wq.q) (harmed : (s.heap b).notify_umount = true)
    (hname : (s.heap a).devname = (s.heap b).devname) : Unannounced s' b := by
  obtain ⟨⟨cs, -, ⟨-, hcalls⟩ | ⟨hno, -⟩⟩, -, hkeeps⟩ := hc
  · refine ⟨(hat.mem_umount hwf.wq b).mpr hb, ?_, ?_⟩
    · by_cases hba : b = a
      · subst hba
        exact hkeeps (hwf.umount_mounted b hb).1 harmed
      · rw [hat.frame.1.heap_ne b hba]
        exact harmed
    · rw [hcalls, hat.frame.1.devname_eq, lastNotice_append, hname]
      simp [lastNotice, noticeOf]
  · exact absurd hn hno

/-- The device of the notice of a CONNECT is the one it names. -/
theorem noticedDevice_connect {s : State} {d d' : Devname} {mallocOk : Bool} {r : MountResults}
    (h : noticedDevice s (.connect (some d) mallocOk r) = some d') : d = d' := by
  simp only [noticedDevice] at h
  split at h <;> split at h <;> simp_all

/-- A step that breaks the condition leaves a work queued that unmounts the device after its
    MOUNT notice. -/
theorem unannounced_of_not_mountsClean {s s' : State} {act : Action} (hwf : Wf s)
    (h : Noticed s) (hclean : ¬ MountsClean s act) (hs : step s act = some s') :
    ∃ b, Unannounced s' b := by
  simp only [MountsClean, not_forall, not_not] at hclean
  obtain ⟨⟨b, k⟩, hmem, rfl, hd⟩ := hclean
  have hd : noticedDevice s act = some (s.heap b).devname := hd
  have harmed := h.armed b hmem
  refine ⟨b, ?_⟩
  cases act with
  | connect info mallocOk r =>
    have hwe := hwf.event info .connect
    obtain ⟨rfl, hnone⟩ | ⟨d, rfl, hne, ⟨a, hfind, hat, hc⟩ | ⟨hfind, hat, hc⟩⟩ :=
      automount_fs_calls (Option.some.inj hs)
    · rw [noticedDevice_event, hd] at hnone
      contradiction
    · have hdb := noticedDevice_connect hd
      apply hc.unannounced hat hwe
      · rw [noticedDevice_event, hd, hdb]
      · simpa using hmem
      · simpa using harmed
      · rw [(automount_find_eq_some hfind).2, hdb, event_heap]
    · have hdb := noticedDevice_connect hd
      have hold : ((s.event (some d) .connect).malloc d).heap b = s.heap b := by
        rw [← event_heap s (some d) .connect]
        exact Function.update_of_ne (Nat.ne_of_lt (hwe.known _ (by simpa using hmem))) _ _
      apply hc.unannounced hat (hwe.malloc (automount_find_eq_none hfind))
      · rw [noticedDevice_event, hd, hdb]
      · show (b, Dwork.umount_dwork) ∈ (s.event (some d) .connect).wq.q
        simpa using hmem
      · rw [hold]
        exact harmed
      · rw [hold, ← hdb]
        simp [State.malloc, State.write]
  | disconnect info umountOk => simp [noticedDevice] at hd
  | fire w r umountOk =>
    obtain ⟨a, k⟩ := w
    cases k with
    | umount_dwork => simp [noticedDevice] at hd
    | mount_dwork =>
      simp only [noticedDevice] at hd
      split at hd
      · rename_i hcond
        obtain ⟨-, f, x, wq, s₁, ht, rfl, ⟨-, rfl⟩ | ⟨hk, -⟩⟩ := fire_calls hwf.carries hs
        · have hun := (automount_mount_retry_calls (started s (a, .mount_dwork) wq) a r).unannounced
            (b := b) (automount_mount_retry_attempt _ a r) (hwf.started ht) hcond
            ((hwf.wq.mem_take ht).mpr ⟨by simp, hmem⟩) harmed (Option.some.inj hd)
          exact ⟨hun.queued, hun.armed, hun.last⟩
        · contradiction
      · contradiction

/-! ### Device names -/

/-- The names of the objects and in the calls fit into `DISK_NAME_LEN` bytes. -/
structure Named (s : State) : Prop where
  heap : ∀ a, (s.heap a).devname.length < Fileuart.DISK_NAME_LEN
  calls : ∀ c ∈ s.calls, c.devname.length < Fileuart.DISK_NAME_LEN

/-- The name of a CONNECT is a string in an array of `DISK_NAME_LEN` bytes. -/
def FitsName : Action → Prop
  | .connect (some d) _ _ => d.length < Fileuart.DISK_NAME_LEN
  | _ => True

theorem named_init : Named init where
  heap := by
    intro a
    show 0 < Fileuart.DISK_NAME_LEN
    decide
  calls := by simp [init, State.calls]

/-- Calls on behalf of the object at `a` only. -/
theorem Named.extend {s s' : State} {a : Addr} {cs : List Call} (h : Named s)
    (hf : Frame s s' a) (hcalls : s'.calls = s.calls ++ cs)
    (hcs : ∀ c ∈ cs, c.devname = (s.heap a).devname) : Named s' where
  heap := fun b => by rw [hf.devname_eq]; exact h.heap b
  calls := by
    intro c hc
    rw [hcalls] at hc
    obtain hc | hc := List.mem_append.mp hc
    · exact h.calls c hc
    · rw [hcs c hc]
      exact h.heap a

theorem Named.attempt {s s' : State} {a : Addr} {noticed : Prop} (h : Named s)
    (hat : Attempt s s' a) (hc : AttemptCalls s s' a noticed) : Named s' := by
  obtain ⟨⟨cs, hcs, ⟨-, hcalls⟩ | ⟨-, hcalls⟩⟩, -, -⟩ := hc
  · apply h.extend hat.frame.1 (by rw [hcalls, List.append_assoc])
    intro c hc
    obtain hc | hc := List.mem_append.mp hc
    · exact (hcs c hc).devname
    · rw [List.mem_singleton.mp hc]
      rfl
  · exact h.extend hat.frame.1 hcalls fun c hc => (hcs c hc).devname

theorem Named.release {s : State} {a : Addr} {umountOk : Bool} (h : Named s)
    (hwf : s.wq.Wf) (hnodup : s.mounters.Nodup) : Named (autoumount_fs s a umountOk) := by
  have hf := ((autoumount_fs_release s a umountOk).effects hwf hnodup).1
  exact h.extend hf (autoumount_fs_calls s a umountOk).1 umountCalls_devname

theorem named_step {s s' : State} {act : Action} (hwf : Wf s) (h : Named s)
    (hname : FitsName act) (hs : step s act = some s') : Named s' := by
  cases act with
  | connect info mallocOk r =>
    have he : Named (s.event info .connect) :=
      ⟨by simpa using h.heap, by simpa using h.calls⟩
    obtain ⟨rfl, -⟩ | ⟨d, rfl, -, ⟨a, -, hat, hc⟩ | ⟨-, hat, hc⟩⟩ :=
      automount_fs_calls (Option.some.inj hs)
    · exact he
    · exact he.attempt hat hc
    · apply Named.attempt _ hat hc
      constructor
      · intro b
        have hname : d.length < Fileuart.DISK_NAME_LEN := hname
        by_cases hb : b = (s.event (some d) .connect).next
        · simpa [State.malloc, State.write, hb] using hname
        · simpa [State.malloc, State.write, hb] using h.heap b
      · exact he.calls
  | disconnect info umountOk =>
    have hwe := hwf.event info .disconnect
    have he : Named (s.event info .disconnect) :=
      ⟨by simpa using h.heap, by simpa using h.calls⟩
    obtain ⟨rfl, -⟩ | ⟨d, a, rfl, hd, hfind, ⟨-, rfl⟩ | ⟨hm, -⟩⟩ :=
      automount_disconnect_cases (Option.some.inj hs)
    · exact he
    · exact ⟨he.heap, he.calls⟩
    · have hs' : s' = _ := (Option.some.inj hs).symm.trans
        (automount_disconnect_eq hd hfind hm umountOk)
      rw [hs']
      have hc : Named (cancelMount (s.event (some d) .disconnect) a) := ⟨he.heap, he.calls⟩
      exact hc.release (hwe.cancelMount a).wq (hwe.cancelMount a).nodup
  | fire w r umountOk =>
    obtain ⟨-, f, x, wq, s₁, ht, rfl, hrun⟩ := fire_calls hwf.carries hs
    have hwfs := hwf.started ht
    have hstart : Named (started s w wq) := ⟨h.heap, h.calls⟩
    obtain ⟨-, rfl⟩ | ⟨-, rfl⟩ := hrun
    · have h₁ := hstart.attempt (automount_mount_retry_attempt _ w.1 r)
        (automount_mount_retry_calls _ w.1 r)
      exact ⟨h₁.heap, h₁.calls⟩
    · have h₁ : Named (autoumount_fs (started s w wq) w.1 umountOk) :=
        hstart.release hwfs.wq hwfs.nodup
      exact ⟨h₁.heap, h₁.calls⟩

/-! ### The file UART as a listener -/

/-- The notification that a notice makes `fileuart_fs_mount_notify` handle. -/
def fileuartAction : Call → Option FileuartTasks.Action
  | .sys_notify_event .USB_MSC_NOTIFY_MOUNT d => some (.mount (some d))
  | .sys_notify_event .USB_MSC_NOTIFY_UMOUNT d => some (.umount (some d))
  | _ => none

/-- Not a write, a flush, or a step of the worker. -/
def IsNotification : FileuartTasks.Action → Bool
  | .mount _ => true
  | .umount _ => true
  | _ => false

/-- The notifications of the run `tr` are those that the calls `cs` send. -/
def Hears (tr : List FileuartTasks.Action) (cs : List Call) : Prop :=
  tr.filter IsNotification = cs.filterMap fileuartAction

/-- The notice for `d` that a step of the file UART handles. -/
def heardOf (d : Devname) : FileuartTasks.Action → Option Notify
  | .mount (some d') => if d' = d then some .USB_MSC_NOTIFY_MOUNT else none
  | .umount (some d') => if d' = d then some .USB_MSC_NOTIFY_UMOUNT else none
  | _ => none

/-- The latest notice heard is the latest one sent. -/
theorem Hears.last {tr : List FileuartTasks.Action} {cs : List Call} (h : Hears tr cs)
    (d : Devname) : (tr.filterMap (heardOf d)).getLast? = lastNotice cs d := by
  have htr : tr.filterMap (heardOf d) = (tr.filter IsNotification).filterMap (heardOf d) := by
    rw [List.filterMap_filter]
    congr 1
    funext a
    cases a <;> simp [IsNotification, heardOf]
  have hcs : (cs.filterMap fileuartAction).filterMap (heardOf d) = cs.filterMap (noticeOf d) := by
    rw [List.filterMap_filterMap]
    congr 1
    funext c
    unfold fileuartAction noticeOf
    split <;> simp_all [heardOf]
  rw [htr, h, hcs, lastNotice]

/-- A device that was unmounted last is not the recorded one. -/
theorem devname_ne_of_umounted {tr : List FileuartTasks.Action} {t : FileuartTasks.State}
    {d : Devname} (hrun : run FileuartTasks.step FileuartTasks.init tr = some t)
    (hfits : ∀ d', .mount (some d') ∈ tr → d'.length < Fileuart.DISK_NAME_LEN) (hd : d ≠ [])
    (hlast : (tr.filterMap (heardOf d)).getLast? = some .USB_MSC_NOTIFY_UMOUNT) :
    t.base.dev.devname ≠ d := by
  -- from the last step backwards, until a notice for the device is found
  induction tr using List.reverseRecOn generalizing t with
  | nil => simp at hlast
  | append_singleton tr a ih =>
    obtain ⟨u, hu, hs⟩ := (run_concat_some _).mp hrun
    rw [List.filterMap_append, List.getLast?_append] at hlast
    have hbefore : heardOf d a = none → u.base.dev.devname ≠ d := by
      intro hnone
      apply ih hu
      · exact fun d' hd' => hfits d' (List.mem_append_left _ hd')
      · simpa [hnone] using hlast
    cases ha : IsNotification a with
    | false =>
      rw [FileuartTasks.devname_step (by cases a <;> simp_all [IsNotification]) hs]
      apply hbefore
      cases a <;> simp_all [IsNotification, heardOf]
    | true =>
      cases a with
      | mount dev =>
        cases hs
        cases dev with
        | none => exact hbefore rfl
        | some d' =>
          by_cases hdd : d' = d
          · simp [heardOf, hdd] at hlast
          · have hd' := hfits d' (by simp)
            have hb := hbefore (by simp [heardOf, hdd])
            cases d' with
            | nil => exact hb
            | cons c cs =>
              show (c :: cs).take (Fileuart.DISK_NAME_LEN - 1) ≠ d
              rw [List.take_of_length_le (by omega)]
              exact hdd
      | umount dev =>
        cases hs
        cases dev with
        | none => exact hbefore rfl
        | some d' =>
          show (Fileuart.fileuart_umount_locked u.base.dev (some d')).devname ≠ d
          unfold Fileuart.fileuart_umount_locked
          split
          · exact hd.symm
          · rename_i hno
            by_cases hdd : d' = d
            · -- a recorded name that does not match is another one
              rintro rfl
              apply hno
              simp [Fileuart.fileuart_matches_mount_locked, hd, Fileuart.strncmpEq, hdd]
            · exact hbefore (by simp [heardOf, hdd])
      | _ => simp [IsNotification] at ha

/-- A file UART that heard these notices has no log open on a device that was unmounted
    last. -/
theorem closed_of_umounted {tr : List FileuartTasks.Action} {t : FileuartTasks.State}
    {cs : List Call} {d : Devname}
    (hrun : run FileuartTasks.step FileuartTasks.init tr = some t) (hears : Hears tr cs)
    (hnames : ∀ c ∈ cs, c.devname.length < Fileuart.DISK_NAME_LEN)
    (hlast : lastNotice cs d = some .USB_MSC_NOTIFY_UMOUNT) (hfd : t.base.dev.fd ≥ 0) :
    t.opened ≠ some d := by
  have hinv := run_invariant _ (fun _ _ _ => FileuartTasks.handleInv_step)
    FileuartTasks.handleInv_init hrun
  obtain ⟨-, hne, hopened⟩ := hinv.handle hfd
  rw [hopened]
  intro heq
  have hdev : t.base.dev.devname = d := Option.some.inj heq
  apply devname_ne_of_umounted hrun _ (hdev ▸ hne) (by rw [hears.last, hlast]) hdev
  intro d' hd'
  have hmem : FileuartTasks.Action.mount (some d') ∈ tr.filter IsNotification :=
    List.mem_filter.mpr ⟨hd', rfl⟩
  rw [hears] at hmem
  obtain ⟨c, hc, hcd⟩ := List.mem_filterMap.mp hmem
  have hname := hnames c hc
  unfold fileuartAction at hcd
  split at hcd <;> simp_all [Call.devname]

/-! ### Runs -/

/-- In every run that sends no MOUNT notice for a device while a lazy umount of it is queued,
    each umount is announced after the latest MOUNT notice of the device, and a file UART that
    heard the notices sent before it has no log open on the device. -/
theorem bracketed_of_mountsClean (tr : List Action) (s : State)
    (hrun : run step init tr = some s) (hmeets : Meets step MountsClean init tr) :
    Bracketed s.calls ∧ ((∀ act ∈ tr, FitsName act) →
      ∀ cs₁ d ok cs₂, s.calls = cs₁ ++ .umount d ok :: cs₂ →
        ∀ ftr t, run FileuartTasks.step FileuartTasks.init ftr = some t → Hears ftr cs₁ →
          t.base.dev.fd ≥ 0 → t.opened ≠ some d) := by
  have hinv : Wf s ∧ Noticed s :=
    run_invariant_of_meets step (I := fun s => Wf s ∧ Noticed s)
      (fun _ _ _ h hG hs => ⟨wf_step h.1 hs, noticed_step h.1 h.2 hG hs⟩)
      ⟨wf_init, noticed_init⟩ hmeets hrun
  refine ⟨hinv.2.bracketed, ?_⟩
  intro hnames cs₁ d ok cs₂ heq ftr t hft hears
  have hnamed : Wf s ∧ Named s :=
    run_invariant_of_meets step (I := fun s => Wf s ∧ Named s) (G := fun _ act => FitsName act)
      (fun _ _ _ h hG hs => ⟨wf_step h.1 hs, named_step h.1 h.2 hG hs⟩)
      ⟨wf_init, named_init⟩ (meets_of_forall_mem step hnames) hrun
  have hlast := hinv.2.bracketed cs₁ d ok cs₂ heq
  apply closed_of_umounted hft hears _ hlast
  intro c hc
  exact hnamed.2.calls c (by rw [heq]; exact List.mem_append_left _ hc)

/-- `sda` is mounted and a second CONNECT notices it again; its umount fails once. -/
def noticedRun : List Action :=
  [.connect (some sda) true ⟨.ok, .ok⟩, .connect (some sda) true ⟨.ok, .ok⟩,
    .disconnect (some sda) false, .fire (0, .umount_dwork) ⟨.ok, .ok⟩ true]

theorem bracketed_noticedRun :
    ∃ s, run step init noticedRun = some s ∧ .umount sda true ∈ s.calls ∧ Bracketed s.calls := by
  have hmem : Call.umount sda true ∈ ((run step init noticedRun).map State.calls).getD [] := by
    decide
  exact ⟨_, rfl, hmem, (bracketed_of_mountsClean noticedRun _ rfl (by decide)).1⟩

/-- The duplicate CONNECT sends a MOUNT notice, and the lazy umount no UMOUNT notice after it. -/
theorem bracketed_fails :
    ∃ s, run step init replugRun = some s ∧ ¬ Bracketed s.calls := by
  have hcalls : ((run step init replugRun).map State.calls).getD [] =
      [.mount sda .ok, .sys_notify_event .USB_MSC_NOTIFY_MOUNT sda,
        .sys_notify_event .USB_MSC_NOTIFY_UMOUNT sda, .umount sda false,
        .sys_notify_event .USB_MSC_NOTIFY_UMOUNT_FAIL sda,
        .sys_notify_event .USB_MSC_NOTIFY_MOUNT sda] ++ .umount sda true :: [] := by decide
  refine ⟨_, rfl, fun hbr => ?_⟩
  have hlast := hbr _ _ _ _ hcalls
  simp [lastNotice, noticeOf, List.filterMap_cons] at hlast

end Hcrtos.Native.Automount
