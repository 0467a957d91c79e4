import Hcrtos.Native.WorkNotifier
import Hcrtos.Spec.WorkQueueCorrect

/-!
# Work notifications: the lists

An entry is on one of the three lists or loose, in the hands of a caller of
`work_notifier_setup` or of the worker. Each operation is described by what it does to the lists
that its users see, the pending entries and the queued ones. Nothing here depends on the keys, so
that it stays true when their counter wraps around.

## Key results

- `Lists`: the invariant of the lists
- `Lists.setupEntry`, `Lists.setupLink`, `Lists.signal`, `Lists.startWork`, `Lists.recycle`,
  `Lists.finishWork`: the operations keep it
- `Lists.signal_spec`: a signal queues the entries that wait for it
-/

namespace Hcrtos.Native.WorkNotifier

open WorkQueue

/-- The entries on the lists. -/
def linked (s : WorkNotifier) : List Nat :=
  s.g_notifier_free ++ s.g_notifier_pending ++ s.g_hpwork.q

/-- An allocated entry that is on no list. -/
def Loose (s : WorkNotifier) (e : Nat) : Prop := e ∉ s.linked ∧ e < s.allocated

/-- The queue is in order, no entry is on two lists, and all of them are allocated. -/
structure Lists (s : WorkNotifier) : Prop where
  hpwork : s.g_hpwork.Wf
  carries : Carries (fun e _ arg => arg = e) s.g_hpwork
  nodup : s.linked.Nodup
  lt_allocated : ∀ e ∈ s.linked, e < s.allocated

theorem mem_linked {s : WorkNotifier} {e : Nat} :
    e ∈ s.linked ↔ e ∈ s.g_notifier_free ∨ e ∈ s.g_notifier_pending ∨ e ∈ s.g_hpwork.q := by
  rw [linked, List.mem_append, List.mem_append, or_assoc]

theorem lists_init : init.Lists where
  hpwork := wf_empty
  carries := carries_empty _
  nodup := List.nodup_nil
  lt_allocated := by simp [linked, init, WorkQueue.empty]

/-- A step that moves entries between the lists and adds no pending one. -/
structure Moves (s s' : WorkNotifier) : Prop where
  linked : s'.linked.Perm s.linked
  entries : s'.entries = s.entries
  allocated : s'.allocated = s.allocated
  notifier_key : s'.notifier_key = s.notifier_key
  pending : s'.g_notifier_pending ⊆ s.g_notifier_pending

theorem Moves.loose_iff {s s' : WorkNotifier} (h : Moves s s') (e : Nat) :
    s'.Loose e ↔ s.Loose e := by
  unfold Loose
  rw [h.linked.mem_iff, h.allocated]

theorem Moves.lists {s s' : WorkNotifier} (h : Moves s s') (hs : s.Lists)
    (hpwork : s'.g_hpwork.Wf) (hcarries : Carries (fun e _ arg => arg = e) s'.g_hpwork) :
    s'.Lists where
  hpwork := hpwork
  carries := hcarries
  nodup := h.linked.nodup_iff.mpr hs.nodup
  lt_allocated := by
    intro e he
    rw [h.allocated]
    exact hs.lt_allocated e (h.linked.mem_iff.mp he)

/-! ### Teardown -/

theorem find_eq_some {s : WorkNotifier} {k : UInt32} {e : Nat}
    (h : s.work_notifier_find k = some e) : e ∈ s.g_notifier_pending ∧ s.key e = k :=
  ⟨List.mem_of_find?_eq_some h, by simpa using List.find?_some h⟩

theorem moves_teardown (s : WorkNotifier) (k : Int) :
    Moves s (s.work_notifier_teardown k).1 := by
  unfold work_notifier_teardown
  split
  · exact ⟨.refl _, rfl, rfl, rfl, List.Subset.refl _⟩
  · rename_i e hfind
    -- the entry that is found moves from the pending list to the end of the free list
    refine ⟨?_, rfl, rfl, rfl, List.erase_subset⟩
    have hperm := List.perm_cons_erase (find_eq_some hfind).1
    simp only [linked, List.append_assoc, List.singleton_append]
    exact List.Perm.append_left _ (hperm.symm.append_right _)

@[simp] theorem teardown_g_hpwork (s : WorkNotifier) (k : Int) :
    (s.work_notifier_teardown k).1.g_hpwork = s.g_hpwork := by
  unfold work_notifier_teardown
  split <;> rfl

theorem Lists.teardown {s : WorkNotifier} (hs : s.Lists) (k : Int) :
    (s.work_notifier_teardown k).1.Lists :=
  (moves_teardown s k).lists hs (by simpa using hs.hpwork) (by simpa using hs.carries)

/-! ### Signals -/

/-- The entry waits for the event. -/
def Waits (entries : Nat → NotifierEntry) (evtype qualifier e : Nat) : Bool :=
  (entries e).info.evtype = evtype ∧ (entries e).info.qualifier = qualifier

/-- The loop queues the entries that wait for the event, in the order of the list. -/
theorem signalLoop_spec (entries : Nat → NotifierEntry) (evtype qualifier : Nat) (l : List Nat)
    (hpwork : WorkQueue Nat NotifierWorker Nat) (hwf : hpwork.Wf)
    (hcarries : Carries (fun e _ arg => arg = e) hpwork) (hnodup : (l ++ hpwork.q).Nodup) :
    (signalLoop entries evtype qualifier l hpwork).1 =
        l.filter (fun e => !Waits entries evtype qualifier e) ∧
      (signalLoop entries evtype qualifier l hpwork).2.q =
        hpwork.q ++ l.filter (Waits entries evtype qualifier) ∧
      (signalLoop entries evtype qualifier l hpwork).2.Wf ∧
      Carries (fun e _ arg => arg = e) (signalLoop entries evtype qualifier l hpwork).2 := by
  induction l generalizing hpwork with
  | nil => exact ⟨rfl, (List.append_nil _).symm, hwf, hcarries⟩
  | cons e rest ih =>
    rw [List.cons_append, List.nodup_cons] at hnodup
    obtain ⟨he, hrest⟩ := hnodup
    -- a pending entry is not queued, so `work_qqueue` only appends it
    have hq : e ∉ hpwork.q := fun hmem => he (List.mem_append_right _ hmem)
    by_cases hwaits : (entries e).info.evtype = evtype ∧ (entries e).info.qualifier = qualifier
    · have hq' := hwf.q_work_qqueue hq .work_notifier_worker e 0
      have hnodup' : (rest ++ (hpwork.work_qqueue e .work_notifier_worker e 0).q).Nodup := by
        rw [hq', ← List.append_assoc]
        exact hrest.append (List.nodup_singleton e) (by simpa using he)
      obtain ⟨h₁, h₂, h₃, h₄⟩ := ih _ (hwf.work_qqueue e .work_notifier_worker e 0)
        (hcarries.work_qqueue hwf rfl) hnodup'
      have hyes : Waits entries evtype qualifier e = true := by simpa [Waits] using hwaits
      rw [signalLoop, if_pos hwaits]
      refine ⟨?_, ?_, h₃, h₄⟩
      · simpa [hyes] using h₁
      · rw [h₂, hq']
        simp [hyes]
    · obtain ⟨h₁, h₂, h₃, h₄⟩ := ih _ hwf hcarries hrest
      have hno : Waits entries evtype qualifier e = false := by simpa [Waits] using hwaits
      rw [signalLoop, if_neg hwaits]
      refine ⟨?_, ?_, h₃, h₄⟩
      · simp [hno, h₁]
      · simp [hno, h₂]

section Signal

variable {s : WorkNotifier} (hs : s.Lists) (evtype qualifier : Nat)

include hs

theorem Lists.signal_spec :
    (s.work_notifier_signal evtype qualifier).g_notifier_pending =
        s.g_notifier_pending.filter (fun e => !Waits s.entries evtype qualifier e) ∧
      (s.work_notifier_signal evtype qualifier).g_hpwork.q =
        s.g_hpwork.q ++ s.g_notifier_pending.filter (Waits s.entries evtype qualifier) ∧
      (s.work_notifier_signal evtype qualifier).g_hpwork.Wf ∧
      Carries (fun e _ arg => arg = e) (s.work_notifier_signal evtype qualifier).g_hpwork := by
  have hnodup : (s.g_notifier_pending ++ s.g_hpwork.q).Nodup := by
    have h := hs.nodup
    rw [linked, List.append_assoc] at h
    exact (List.nodup_append.mp h).2.1
  exact signalLoop_spec s.entries evtype qualifier _ _ hs.hpwork hs.carries hnodup

theorem Lists.moves_signal : Moves s (s.work_notifier_signal evtype qualifier) := by
  obtain ⟨hpending, hq, -, -⟩ := hs.signal_spec evtype qualifier
  refine ⟨?_, rfl, rfl, rfl, ?_⟩
  · have hfree : (s.work_notifier_signal evtype qualifier).g_notifier_free = s.g_notifier_free :=
      rfl
    have hperm := List.filter_append_perm (Waits s.entries evtype qualifier) s.g_notifier_pending
    rw [linked, linked, hpending, hq, hfree, List.append_assoc, List.append_assoc]
    refine List.Perm.append_left _ ?_
    -- both sides are the pending entries, in two parts, and the queue
    have hcomm : (s.g_hpwork.q ++ s.g_notifier_pending.filter (Waits s.entries evtype qualifier)).Perm
        (s.g_notifier_pending.filter (Waits s.entries evtype qualifier) ++ s.g_hpwork.q) :=
      List.perm_append_comm
    refine (List.Perm.append_left _ hcomm).trans ?_
    rw [← List.append_assoc]
    exact (List.perm_append_comm.trans hperm).append_right _
  · rw [hpending]
    exact List.filter_subset_self _

theorem Lists.signal : (s.work_notifier_signal evtype qualifier).Lists := by
  obtain ⟨-, -, hwf, hcarries⟩ := hs.signal_spec evtype qualifier
  exact (hs.moves_signal evtype qualifier).lists hs hwf hcarries

/-- What a signal queues was pending. -/
theorem Lists.mem_signal_q {e : Nat} (he : e ∈ (s.work_notifier_signal evtype qualifier).g_hpwork.q) :
    e ∈ s.g_notifier_pending ∨ e ∈ s.g_hpwork.q := by
  rw [(hs.signal_spec evtype qualifier).2.1, List.mem_append] at he
  exact he.symm.imp_left (fun h => (List.mem_filter.mp h).1)

end Signal


/-! ### Setup -/

/-- What the first part of a setup does to the lists. -/
structure Prepares (s : WorkNotifier) (info : NotifierInfo) (e : Nat) (s' : WorkNotifier) :
    Prop where
  lists : s'.Lists
  pending : s'.g_notifier_pending = s.g_notifier_pending
  q : s'.g_hpwork.q = s.g_hpwork.q
  notifier_key : s'.notifier_key = s.notifier_key
  loose : s'.Loose e
  not_loose : ¬ s.Loose e
  loose_mono : ∀ e', s.Loose e' → s'.Loose e'
  info_self : s'.info e = info
  entries : ∀ e', e' ≠ e → s'.entries e' = s.entries e'

theorem Lists.initEntry {s : WorkNotifier} (hs : s.Lists) {e : Nat} (he : e ∉ s.linked)
    (info : NotifierInfo) : (s.initEntry e info).Lists := by
  have hq : e ∉ s.g_hpwork.q := fun h => he (mem_linked.mpr (Or.inr (Or.inr h)))
  exact ⟨hs.hpwork.clear hq, hs.carries.clear hq, hs.nodup, hs.lt_allocated⟩

/-- A free entry is taken off its list. -/
theorem Lists.erase_free {s : WorkNotifier} (hs : s.Lists) {e : Nat}
    (he : e ∈ s.g_notifier_free) :
    ({ s with g_notifier_free := s.g_notifier_free.erase e } : WorkNotifier).Lists ∧
      s.linked.Perm
        (e :: ({ s with g_notifier_free := s.g_notifier_free.erase e } : WorkNotifier).linked) := by
  have hperm : s.linked.Perm
      (e :: ({ s with g_notifier_free := s.g_notifier_free.erase e } : WorkNotifier).linked) := by
    simp only [linked, ← List.cons_append]
    exact ((List.perm_cons_erase he).append_right _).append_right _
  refine ⟨?_, hperm⟩
  exact
    { hpwork := hs.hpwork
      carries := hs.carries
      nodup := (List.nodup_cons.mp (hperm.nodup_iff.mp hs.nodup)).2
      lt_allocated := fun e' he' =>
        hs.lt_allocated e' (hperm.mem_iff.mpr (List.mem_cons_of_mem e he')) }

theorem Lists.setupEntry {s s' : WorkNotifier} (hs : s.Lists) {info : NotifierInfo}
    {mallocOk : Bool} {e : Nat} (h : s.setupEntry info mallocOk = some (e, s')) :
    Prepares s info e s' := by
  unfold WorkNotifier.setupEntry at h
  split at h
  · rename_i e₀ hfind
    cases h
    -- a free entry is reused
    have he := List.mem_of_find?_eq_some hfind
    obtain ⟨hlists, hperm⟩ := hs.erase_free he
    have hnodup := hperm.nodup_iff.mp hs.nodup
    have hnot := (List.nodup_cons.mp hnodup).1
    have hmem : e ∈ s.linked := hperm.mem_iff.mpr List.mem_cons_self
    exact
      { lists := hlists.initEntry hnot info
        pending := rfl
        q := rfl
        notifier_key := rfl
        loose := ⟨hnot, hs.lt_allocated e hmem⟩
        not_loose := fun hl => hl.1 hmem
        loose_mono := fun e' hl =>
          ⟨fun he' => hl.1 (hperm.mem_iff.mpr (List.mem_cons_of_mem e he')), hl.2⟩
        info_self := by simp [WorkNotifier.info, WorkNotifier.initEntry]
        entries := fun e' hne => by simp [WorkNotifier.initEntry, hne] }
  · split at h
    · cases h
      -- no entry that is linked or loose has the number of the new one
      have hnot : s.allocated ∉ s.linked := fun hmem => Nat.lt_irrefl _ (hs.lt_allocated _ hmem)
      have hlists : ({ s with allocated := s.allocated + 1 } : WorkNotifier).Lists :=
        { hs with lt_allocated := fun e' he' => Nat.lt_succ_of_lt (hs.lt_allocated e' he') }
      exact
        { lists := hlists.initEntry hnot info
          pending := rfl
          q := rfl
          notifier_key := rfl
          loose := ⟨hnot, Nat.lt_succ_self _⟩
          not_loose := fun hl => Nat.lt_irrefl _ hl.2
          loose_mono := fun e' hl => ⟨hl.1, Nat.lt_succ_of_lt hl.2⟩
          info_self := by simp [WorkNotifier.info, WorkNotifier.initEntry]
          entries := fun e' hne => by simp [WorkNotifier.initEntry, hne] }
    · cases h

section Link

variable {s : WorkNotifier} {e : Nat}

theorem setupLink_entries_of_ne {e' : Nat} (h : e' ≠ e) :
    (s.setupLink e).1.entries e' = s.entries e' := by
  simp [setupLink, h]

theorem setupLink_info (e' : Nat) : (s.setupLink e).1.info e' = s.info e' := by
  by_cases h : e' = e
  · subst h; simp [setupLink, info]
  · simp [info, setupLink_entries_of_ne h]

theorem linked_setupLink : (s.setupLink e).1.linked.Perm (e :: s.linked) := by
  simp only [linked, setupLink, List.append_assoc]
  exact (List.perm_middle.append_left _ |>.trans List.perm_middle)

theorem loose_setupLink_iff (e' : Nat) :
    (s.setupLink e).1.Loose e' ↔ e' ≠ e ∧ s.Loose e' := by
  unfold Loose
  rw [linked_setupLink.mem_iff, List.mem_cons, not_or, and_assoc]
  rfl

/-- Putting a loose entry on a list. -/
theorem Lists.cons {s s' : WorkNotifier} (hs : s.Lists) (he : s.Loose e)
    (hpwork : s'.g_hpwork = s.g_hpwork) (hallocated : s'.allocated = s.allocated)
    (hperm : s'.linked.Perm (e :: s.linked)) : s'.Lists where
  hpwork := by rw [hpwork]; exact hs.hpwork
  carries := by rw [hpwork]; exact hs.carries
  nodup := by
    rw [hperm.nodup_iff, List.nodup_cons]
    exact ⟨he.1, hs.nodup⟩
  lt_allocated := by
    intro e' he'
    rw [hallocated]
    obtain rfl | hmem := List.mem_cons.mp (hperm.mem_iff.mp he')
    · exact he.2
    · exact hs.lt_allocated e' hmem

theorem Lists.setupLink (hs : s.Lists) (he : s.Loose e) : (s.setupLink e).1.Lists :=
  hs.cons he rfl rfl linked_setupLink

end Link

/-! ### The worker -/

/-- What the start of a round of `work_process` does to the lists. -/
structure Takes (s : WorkNotifier) (e : Nat) (s' : WorkNotifier) : Prop where
  lists : s'.Lists
  pending : s'.g_notifier_pending = s.g_notifier_pending
  entries : s'.entries = s.entries
  notifier_key : s'.notifier_key = s.notifier_key
  mem_q : ∀ e', e' ∈ s.g_hpwork.q ↔ e' = e ∨ e' ∈ s'.g_hpwork.q
  loose_iff : ∀ e', s'.Loose e' ↔ e' = e ∨ s.Loose e'
  not_loose : ¬ s.Loose e

theorem Lists.startWork {s s' : WorkNotifier} (hs : s.Lists) {e : Nat}
    (h : s.startWork = some (e, s')) : Takes s e s' := by
  unfold WorkNotifier.startWork at h
  split at h
  · cases h
  rename_i work rest hq
  split at h
  · rename_i e₀ hpwork htake
    cases h
    -- a queued work carries its own entry as argument
    obtain ⟨hmem, y, hy, hcarry⟩ := take_eq_some hs.carries htake
    cases hy
    subst hcarry
    have hq' : hpwork.q = s.g_hpwork.q.erase e := by rw [take_queue htake]
    have hperm : s.linked.Perm (e :: ({ s with g_hpwork := hpwork } : WorkNotifier).linked) := by
      simp only [linked, hq']
      exact ((List.perm_cons_erase hmem).append_left _).trans List.perm_middle
    have hnodup := hperm.nodup_iff.mp hs.nodup
    have hlinked : e ∈ s.linked := hperm.mem_iff.mpr List.mem_cons_self
    exact
      { lists :=
          { hpwork := hs.hpwork.take htake
            carries := hs.carries.take hs.hpwork htake
            nodup := (List.nodup_cons.mp hnodup).2
            lt_allocated := fun e' he' =>
              hs.lt_allocated e' (hperm.mem_iff.mpr (List.mem_cons_of_mem e he')) }
        pending := rfl
        entries := rfl
        notifier_key := rfl
        mem_q := by
          intro e'
          rw [(List.perm_cons_erase hmem).mem_iff, List.mem_cons, hq']
        loose_iff := by
          intro e'
          unfold Loose
          rw [hperm.mem_iff, List.mem_cons]
          by_cases heq : e' = e
          · subst heq
            simpa using ⟨(List.nodup_cons.mp hnodup).1, hs.lt_allocated e' hlinked⟩
          · simp [heq]
        not_loose := fun hl => hl.1 hlinked }
  · cases h

section Recycle

variable {s : WorkNotifier} {e : Nat}

theorem linked_recycle : (s.recycle e).linked.Perm (e :: s.linked) := by
  simp only [linked, recycle, List.append_assoc]
  exact List.perm_middle

theorem loose_recycle_iff (e' : Nat) : (s.recycle e).Loose e' ↔ e' ≠ e ∧ s.Loose e' := by
  unfold Loose
  rw [linked_recycle.mem_iff, List.mem_cons, not_or, and_assoc]
  rfl

theorem Lists.recycle (hs : s.Lists) (he : s.Loose e) : (s.recycle e).Lists :=
  hs.cons he rfl rfl linked_recycle

end Recycle

theorem Lists.finishWork {s : WorkNotifier} (hs : s.Lists) (e : Nat) : (s.finishWork e).Lists :=
  ⟨hs.hpwork.finish e, hs.carries.finish e, hs.nodup, hs.lt_allocated⟩

end Hcrtos.Native.WorkNotifier
