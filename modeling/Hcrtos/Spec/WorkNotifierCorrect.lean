import Hcrtos.Spec.WorkNotifierLists
import Mathlib.Algebra.Ring.Nat

/-!
# Work notifications: the keys

As long as the counter of the keys does not wrap around, the pending entries have different ones,
and a key finds its entry.

## Key results

- `Wf`: the invariant of the lists and of the keys of the pending entries
- `setupEntry_spec`, `wf_setupLink`, `wf_work_notifier_teardown`, `wf_work_notifier_signal`,
  `startWork_spec`, `wf_recycle`, `wf_finishWork`: the operations keep it
- `find_of_mem`: a pending entry is found by its key
-/

namespace Hcrtos.Native.WorkNotifier

open WorkQueue

structure Wf (s : WorkNotifier) : Prop where
  hpwork : s.g_hpwork.Wf
  carries : Carries (fun e _ arg => arg = e) s.g_hpwork
  nodup : s.linked.Nodup
  lt_allocated : ∀ e ∈ s.linked, e < s.allocated
  key_le : ∀ e ∈ s.g_notifier_pending, (s.key e).toNat ≤ s.notifier_key.toNat
  key_inj : ∀ e ∈ s.g_notifier_pending, ∀ e' ∈ s.g_notifier_pending, s.key e = s.key e' → e = e'

theorem Wf.lists {s : WorkNotifier} (hs : s.Wf) : s.Lists :=
  ⟨hs.hpwork, hs.carries, hs.nodup, hs.lt_allocated⟩

/-- The lists are in order, and the keys of the pending entries stay. -/
theorem Lists.wf {s s' : WorkNotifier} (h : s'.Lists) (hs : s.Wf)
    (hnotifier_key : s'.notifier_key = s.notifier_key)
    (hpending : s'.g_notifier_pending ⊆ s.g_notifier_pending)
    (hkey : ∀ e ∈ s'.g_notifier_pending, s'.key e = s.key e) : s'.Wf where
  hpwork := h.hpwork
  carries := h.carries
  nodup := h.nodup
  lt_allocated := h.lt_allocated
  key_le := by
    intro e he
    rw [hkey e he, hnotifier_key]
    exact hs.key_le e (hpending he)
  key_inj := by
    intro e he e' he' heq
    rw [hkey e he, hkey e' he'] at heq
    exact hs.key_inj e (hpending he) e' (hpending he') heq

theorem wf_init : init.Wf where
  hpwork := wf_empty
  carries := carries_empty _
  nodup := List.nodup_nil
  lt_allocated := by simp [linked, init, WorkQueue.empty]
  key_le := by simp [init]
  key_inj := by simp [init]

theorem Moves.wf {s s' : WorkNotifier} (h : Moves s s') (hs : s.Wf) (hlists : s'.Lists) : s'.Wf :=
  hlists.wf hs h.notifier_key h.pending fun e _ => by rw [key, key, h.entries]

/-! ### Teardown -/

theorem toUInt32_keyInt (k : UInt32) : (Int32.ofInt (keyInt k)).toUInt32 = k := by
  simp [keyInt]

/-- A key below `2 ^ 31` is returned as it is. -/
theorem keyInt_of_lt {k : UInt32} (h : k.toNat < 2 ^ 31) : keyInt k = k.toNat := by
  have hlt : 2 * k.toBitVec.toNat < 2 ^ 32 := by
    rw [UInt32.toNat_toBitVec]
    omega
  exact BitVec.toInt_eq_toNat_of_lt hlt

/-- A pending entry is found by its key. -/
theorem find_of_mem {s : WorkNotifier} (hs : s.Wf) {e : Nat} (he : e ∈ s.g_notifier_pending) :
    s.work_notifier_find (s.key e) = some e := by
  cases hfind : s.work_notifier_find (s.key e) with
  | none =>
    have hno := List.find?_eq_none.mp hfind e he
    simp at hno
  | some e' =>
    obtain ⟨he', hkey⟩ := find_eq_some hfind
    rw [hs.key_inj e' he' e he hkey]

theorem wf_work_notifier_teardown {s : WorkNotifier} (hs : s.Wf) (k : Int) :
    (s.work_notifier_teardown k).1.Wf :=
  (moves_teardown s k).wf hs (hs.lists.teardown k)

/-- The entry with the key is no longer pending. -/
theorem not_mem_teardown {s : WorkNotifier} (hs : s.Wf) {e : Nat} {k : Int}
    (hk : k = keyInt (s.key e)) :
    e ∉ (s.work_notifier_teardown k).1.g_notifier_pending := by
  intro he
  -- if it were pending still, it was so before, and then the search finds it
  have hmem := (moves_teardown s k).pending he
  revert he
  subst hk
  have hnodup : s.g_notifier_pending.Nodup :=
    (List.nodup_append.mp (List.nodup_append.mp hs.nodup).1).2.1
  simp only [work_notifier_teardown, toUInt32_keyInt, find_of_mem hs hmem]
  exact hnodup.not_mem_erase

/-! ### Signals -/

theorem wf_work_notifier_signal {s : WorkNotifier} (hs : s.Wf) (evtype qualifier : Nat) :
    (s.work_notifier_signal evtype qualifier).Wf :=
  (hs.lists.moves_signal evtype qualifier).wf hs (hs.lists.signal evtype qualifier)

/-! ### Setup -/

/-- What the first part of a setup does. -/
structure SetsUp (s : WorkNotifier) (info : NotifierInfo) (e : Nat) (s' : WorkNotifier) :
    Prop where
  wf : s'.Wf
  pending : s'.g_notifier_pending = s.g_notifier_pending
  q : s'.g_hpwork.q = s.g_hpwork.q
  notifier_key : s'.notifier_key = s.notifier_key
  loose : s'.Loose e
  not_loose : ¬ s.Loose e
  loose_mono : ∀ e', s.Loose e' → s'.Loose e'
  info_self : s'.info e = info
  entries : ∀ e', e' ≠ e → s'.entries e' = s.entries e'

theorem setupEntry_spec {s s' : WorkNotifier} (hs : s.Wf) {info : NotifierInfo} {mallocOk : Bool}
    {e : Nat} (h : s.setupEntry info mallocOk = some (e, s')) : SetsUp s info e s' := by
  have hprep := hs.lists.setupEntry h
  -- the cleared entry is not pending, so the keys of the pending ones stay
  have hkey : ∀ e' ∈ s'.g_notifier_pending, s'.key e' = s.key e' := by
    intro e' he'
    have hne : e' ≠ e := by
      intro heq
      subst heq
      exact hprep.loose.1 (mem_linked.mpr (Or.inr (Or.inl he')))
    rw [key, key, hprep.entries e' hne]
  exact
    { wf := hprep.lists.wf hs hprep.notifier_key (by rw [hprep.pending]; exact fun _ h => h) hkey
      pending := hprep.pending
      q := hprep.q
      notifier_key := hprep.notifier_key
      loose := hprep.loose
      not_loose := hprep.not_loose
      loose_mono := hprep.loose_mono
      info_self := hprep.info_self
      entries := hprep.entries }

section Link

variable {s : WorkNotifier} {e : Nat}

/-- Without a wrap the new key is above all the keys of pending entries. -/
theorem toNat_work_notifier_key (h : s.notifier_key.toNat + 1 < 2 ^ 32) :
    s.work_notifier_key.toNat = s.notifier_key.toNat + 1 := by
  -- the counter does not wrap around, so the new key is not replaced by 1
  have hne : s.notifier_key + 1 ≠ 0 := by
    intro heq
    have := congrArg UInt32.toNat heq
    rw [UInt32.toNat_add] at this
    simp at this
    omega
  rw [work_notifier_key, if_neg hne, UInt32.toNat_add]
  simp
  omega

theorem wf_setupLink (hs : s.Wf) (he : s.Loose e) (h : s.notifier_key.toNat + 1 < 2 ^ 32) :
    (s.setupLink e).1.Wf := by
  have hkey : (s.setupLink e).1.key e = s.work_notifier_key := by simp [setupLink, key]
  -- the old keys are at most the counter, and the new one is above it
  have hkeys : ∀ e' ∈ s.g_notifier_pending,
      (s.setupLink e).1.key e' = s.key e' ∧
        ((s.setupLink e).1.key e').toNat < s.work_notifier_key.toNat := by
    intro e' he'
    have hne : e' ≠ e := by
      intro heq
      subst heq
      exact he.1 (mem_linked.mpr (Or.inr (Or.inl he')))
    have hsame : (s.setupLink e).1.key e' = s.key e' := by
      simp [key, setupLink_entries_of_ne hne]
    refine ⟨hsame, ?_⟩
    rw [hsame, toNat_work_notifier_key h]
    exact Nat.lt_succ_of_le (hs.key_le e' he')
  have hpending : ∀ e', e' ∈ (s.setupLink e).1.g_notifier_pending ↔
      e' ∈ s.g_notifier_pending ∨ e' = e := by
    intro e'
    simp [setupLink]
  have hlists := hs.lists.setupLink he
  exact
    { hpwork := hlists.hpwork
      carries := hlists.carries
      nodup := hlists.nodup
      lt_allocated := hlists.lt_allocated
      key_le := by
        intro e' he'
        obtain hmem | rfl := (hpending e').mp he'
        · exact Nat.le_of_lt (hkeys e' hmem).2
        · rw [hkey]
          exact Nat.le_refl _
      key_inj := by
        intro e₁ h₁ e₂ h₂ heq
        obtain hmem₁ | rfl := (hpending e₁).mp h₁
        · obtain hmem₂ | rfl := (hpending e₂).mp h₂
          · rw [(hkeys e₁ hmem₁).1, (hkeys e₂ hmem₂).1] at heq
            exact hs.key_inj e₁ hmem₁ e₂ hmem₂ heq
          · rw [hkey] at heq
            exact absurd (congrArg UInt32.toNat heq) (Nat.ne_of_lt (hkeys e₁ hmem₁).2)
        · obtain hmem₂ | rfl := (hpending e₂).mp h₂
          · rw [hkey] at heq
            exact absurd (congrArg UInt32.toNat heq).symm (Nat.ne_of_lt (hkeys e₂ hmem₂).2)
          · rfl }

end Link

/-! ### The worker -/

/-- What the start of a round of `work_process` does. -/
structure Starts (s : WorkNotifier) (e : Nat) (s' : WorkNotifier) : Prop where
  wf : s'.Wf
  pending : s'.g_notifier_pending = s.g_notifier_pending
  entries : s'.entries = s.entries
  notifier_key : s'.notifier_key = s.notifier_key
  mem_q : ∀ e', e' ∈ s.g_hpwork.q ↔ e' = e ∨ e' ∈ s'.g_hpwork.q
  loose_iff : ∀ e', s'.Loose e' ↔ e' = e ∨ s.Loose e'
  not_loose : ¬ s.Loose e

theorem startWork_spec {s s' : WorkNotifier} (hs : s.Wf) {e : Nat}
    (h : s.startWork = some (e, s')) : Starts s e s' := by
  have htakes := hs.lists.startWork h
  exact
    { wf := htakes.lists.wf hs htakes.notifier_key (by rw [htakes.pending]; exact fun _ h => h)
        fun e' _ => by rw [key, key, htakes.entries]
      pending := htakes.pending
      entries := htakes.entries
      notifier_key := htakes.notifier_key
      mem_q := htakes.mem_q
      loose_iff := htakes.loose_iff
      not_loose := htakes.not_loose }

theorem wf_recycle {s : WorkNotifier} {e : Nat} (hs : s.Wf) (he : s.Loose e) : (s.recycle e).Wf :=
  (hs.lists.recycle he).wf hs rfl (fun _ h => h) fun _ _ => rfl

theorem wf_finishWork {s : WorkNotifier} (hs : s.Wf) (e : Nat) : (s.finishWork e).Wf :=
  (hs.lists.finishWork e).wf hs rfl (fun _ h => h) fun _ _ => rfl

end Hcrtos.Native.WorkNotifier
