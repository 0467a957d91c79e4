import Mathlib.Data.List.Basic
import Hcrtos.Native.WorkQueue

/-!
# Work queue invariants

The well-formedness of the queue (`Wf`), what each operation does to the set of linked
works, and the rule that a linked work carries the worker and argument its user queued it
with (`Carries`). Users of the queue reason with the `mem_` lemmas only.
-/

namespace Hcrtos.Native.WorkQueue

variable {ι W A : Type*} [DecidableEq ι]

/-- The queue links each entry once, and exactly the entries that carry a worker. -/
structure Wf (wq : WorkQueue ι W A) : Prop where
  nodup : wq.q.Nodup
  mem_iff : ∀ w, w ∈ wq.q ↔ (wq.works w).worker.isSome = true
  quiet : ∀ w ∈ wq.q, (wq.works w).doing = false

/-- Every linked work carries a worker and an argument that `R` allows for it. -/
def Carries (R : ι → W → A → Prop) (wq : WorkQueue ι W A) : Prop :=
  ∀ w ∈ wq.q, ∃ f x, (wq.works w).worker = some f ∧ (wq.works w).arg = some x ∧ R w f x

omit [DecidableEq ι] in
theorem wf_empty : (empty : WorkQueue ι W A).Wf where
  nodup := List.nodup_nil
  mem_iff := by simp [empty, Work.zero]
  quiet := by simp [empty]

omit [DecidableEq ι] in
theorem carries_empty (R : ι → W → A → Prop) : Carries R empty := by
  simp [Carries, empty]

omit [DecidableEq ι] in
/-- An available work is one that is not linked. -/
theorem Wf.work_available_iff {wq : WorkQueue ι W A} (h : wq.Wf) (w : ι) :
    wq.work_available w = true ↔ w ∉ wq.q := by
  rw [work_available, h.mem_iff]
  cases (wq.works w).worker <;> simp

/-! ### Linking -/

/-- The queue that `work_qqueue` appends to no longer links the work. -/
private theorem Wf.unlinked {wq : WorkQueue ι W A} (h : wq.Wf) (w : ι) :
    (if (wq.works w).worker.isSome = true ∧ (wq.works w).doing = false then wq.q.erase w
      else wq.q) = wq.q.erase w := by
  split
  · rfl
  · rename_i hno
    -- a linked work is pending, so an entry that fails the test is not linked
    have hw : w ∉ wq.q := fun hw => hno ⟨(h.mem_iff w).mp hw, h.quiet w hw⟩
    exact (List.erase_of_not_mem hw).symm

/-- A work that is not linked goes to the end of the queue. -/
theorem Wf.q_work_qqueue {wq : WorkQueue ι W A} (h : wq.Wf) {w : ι} (hw : w ∉ wq.q) (f : W)
    (x : A) (delay : Nat) : (wq.work_qqueue w f x delay).q = wq.q ++ [w] := by
  simp only [WorkQueue.work_qqueue, h.unlinked w]
  rw [List.erase_of_not_mem hw]

theorem Wf.mem_work_qqueue {wq : WorkQueue ι W A} (h : wq.Wf) {w w' : ι} {f : W} {x : A}
    {delay : Nat} : w' ∈ (wq.work_qqueue w f x delay).q ↔ w' = w ∨ w' ∈ wq.q := by
  simp only [work_qqueue, h.unlinked w, List.mem_append, List.mem_singleton]
  by_cases hww : w' = w
  · simp [hww]
  · simp [hww, List.mem_erase_of_ne hww]

theorem Wf.work_qqueue {wq : WorkQueue ι W A} (h : wq.Wf) (w : ι) (f : W) (x : A)
    (delay : Nat) : (wq.work_qqueue w f x delay).Wf where
  nodup := by
    simp only [WorkQueue.work_qqueue, h.unlinked w]
    refine List.Nodup.append (h.nodup.erase w) (List.nodup_singleton w) ?_
    intro w' hmem hw'
    rw [List.mem_singleton.mp hw'] at hmem
    exact h.nodup.not_mem_erase hmem
  mem_iff := by
    intro w'
    rw [h.mem_work_qqueue]
    by_cases hww : w' = w
    · simp [WorkQueue.work_qqueue, hww]
    · simp [WorkQueue.work_qqueue, hww, h.mem_iff w']
  quiet := by
    intro w' hw'
    by_cases hww : w' = w
    · simp [WorkQueue.work_qqueue, hww]
    · have hmem := (h.mem_work_qqueue.mp hw').resolve_left hww
      simpa [WorkQueue.work_qqueue, hww] using h.quiet w' hmem

theorem Carries.work_qqueue {R : ι → W → A → Prop} {wq : WorkQueue ι W A} (hc : Carries R wq)
    (h : wq.Wf) {w : ι} {f : W} {x : A} {delay : Nat} (hR : R w f x) :
    Carries R (wq.work_qqueue w f x delay) := by
  intro w' hw'
  by_cases hww : w' = w
  · subst hww
    exact ⟨f, x, by simp [WorkQueue.work_qqueue], by simp [WorkQueue.work_qqueue], hR⟩
  · have hmem := (h.mem_work_qqueue.mp hw').resolve_left hww
    simpa [WorkQueue.work_qqueue, hww] using hc w' hmem

/-! ### Clearing -/

/-- A work that is not linked may be cleared. -/
theorem Wf.clear {wq : WorkQueue ι W A} (h : wq.Wf) {w : ι} (hw : w ∉ wq.q) :
    ({ wq with works := Function.update wq.works w Work.zero } : WorkQueue ι W A).Wf where
  nodup := h.nodup
  mem_iff := by
    intro w'
    by_cases hww : w' = w
    · subst hww; simp [Work.zero, hw]
    · simp [hww, h.mem_iff w']
  quiet := by
    intro w' hw'
    by_cases hww : w' = w
    · subst hww; simp [Work.zero]
    · simpa [hww] using h.quiet w' hw'

theorem Carries.clear {R : ι → W → A → Prop} {wq : WorkQueue ι W A} (hc : Carries R wq) {w : ι}
    (hw : w ∉ wq.q) :
    Carries R ({ wq with works := Function.update wq.works w Work.zero } : WorkQueue ι W A) := by
  intro w' hw'
  have hww : w' ≠ w := fun heq => hw (heq ▸ hw')
  simpa [hww] using hc w' hw'

/-! ### Cancelling -/

theorem Wf.mem_work_qcancel {wq : WorkQueue ι W A} (h : wq.Wf) {w w' : ι} :
    w' ∈ (wq.work_qcancel w).q ↔ w' ≠ w ∧ w' ∈ wq.q := by
  rw [work_qcancel]
  split
  · exact h.nodup.mem_erase_iff
  · rename_i hno
    constructor
    · intro hmem
      refine ⟨?_, hmem⟩
      intro heq
      subst heq
      exact hno ⟨(h.mem_iff _).mp hmem, h.quiet _ hmem⟩
    · exact And.right

theorem Wf.work_qcancel {wq : WorkQueue ι W A} (h : wq.Wf) (w : ι) :
    (wq.work_qcancel w).Wf := by
  rw [WorkQueue.work_qcancel]
  split
  · refine ⟨h.nodup.erase w, ?_, ?_⟩
    · intro w'
      rw [h.nodup.mem_erase_iff]
      by_cases hww : w' = w
      · simp [hww]
      · simp [hww, h.mem_iff w']
    · intro w' hw'
      obtain ⟨hww, hmem⟩ := h.nodup.mem_erase_iff.mp hw'
      simpa [hww] using h.quiet w' hmem
  · exact h

theorem Carries.work_qcancel {R : ι → W → A → Prop} {wq : WorkQueue ι W A}
    (hc : Carries R wq) (h : wq.Wf) (w : ι) : Carries R (wq.work_qcancel w) := by
  intro w' hw'
  obtain ⟨hww, hmem⟩ := h.mem_work_qcancel.mp hw'
  rw [WorkQueue.work_qcancel]
  split
  · simpa [hww] using hc w' hmem
  · exact hc w' hmem

/-! ### Processing -/

/-- A round of `work_process` starts on a linked work and hands out what it carries. -/
theorem take_eq_some {R : ι → W → A → Prop} {wq wq' : WorkQueue ι W A} {w : ι} {f : W}
    {x : Option A} (hc : Carries R wq) (ht : wq.take w = some (f, x, wq')) :
    w ∈ wq.q ∧ ∃ y, x = some y ∧ R w f y := by
  simp only [take] at ht
  split at ht
  · rename_i hmem
    obtain ⟨g, y, hg, hy, hR⟩ := hc w hmem
    simp only [hg, hy, Option.some.injEq, Prod.mk.injEq] at ht
    obtain ⟨rfl, rfl, -⟩ := ht
    exact ⟨hmem, y, rfl, hR⟩
  · cases ht

/-- The queue after the start of a round. -/
theorem take_queue {wq wq' : WorkQueue ι W A} {w : ι} {f : W} {x : Option A}
    (ht : wq.take w = some (f, x, wq')) :
    wq' = { works := Function.update wq.works w
              { wq.works w with worker := none, doing := true }
            q := wq.q.erase w } := by
  simp only [take] at ht
  split at ht
  · split at ht
    · simp only [Option.some.injEq, Prod.mk.injEq] at ht
      exact ht.2.2.symm
    · cases ht
  · cases ht

theorem Wf.mem_take {wq wq' : WorkQueue ι W A} (h : wq.Wf) {w w' : ι} {f : W} {x : Option A}
    (ht : wq.take w = some (f, x, wq')) : w' ∈ wq'.q ↔ w' ≠ w ∧ w' ∈ wq.q := by
  rw [take_queue ht]
  exact h.nodup.mem_erase_iff

theorem Wf.take {wq wq' : WorkQueue ι W A} (h : wq.Wf) {w : ι} {f : W} {x : Option A}
    (ht : wq.take w = some (f, x, wq')) : wq'.Wf := by
  rw [take_queue ht]
  refine ⟨h.nodup.erase w, ?_, ?_⟩
  · intro w'
    rw [h.nodup.mem_erase_iff]
    by_cases hww : w' = w
    · simp [hww]
    · simp [hww, h.mem_iff w']
  · intro w' hw'
    obtain ⟨hww, hmem⟩ := h.nodup.mem_erase_iff.mp hw'
    simpa [hww] using h.quiet w' hmem

theorem Carries.take {R : ι → W → A → Prop} {wq wq' : WorkQueue ι W A} (hc : Carries R wq)
    (h : wq.Wf) {w : ι} {f : W} {x : Option A} (ht : wq.take w = some (f, x, wq')) :
    Carries R wq' := by
  intro w' hw'
  obtain ⟨hww, hmem⟩ := (h.mem_take ht).mp hw'
  rw [take_queue ht]
  simpa [hww] using hc w' hmem

@[simp] theorem finish_q (wq : WorkQueue ι W A) (w : ι) : (wq.finish w).q = wq.q := rfl

@[simp] theorem finish_worker (wq : WorkQueue ι W A) (w w' : ι) :
    ((wq.finish w).works w').worker = (wq.works w').worker := by
  by_cases hww : w' = w
  · subst hww; simp [finish]
  · simp [finish, hww]

@[simp] theorem finish_arg (wq : WorkQueue ι W A) (w w' : ι) :
    ((wq.finish w).works w').arg = (wq.works w').arg := by
  by_cases hww : w' = w
  · subst hww; simp [finish]
  · simp [finish, hww]

theorem Wf.finish {wq : WorkQueue ι W A} (h : wq.Wf) (w : ι) : (wq.finish w).Wf where
  nodup := h.nodup
  mem_iff := by simpa using h.mem_iff
  quiet := by
    intro w' hw'
    by_cases hww : w' = w
    · subst hww; simp [WorkQueue.finish]
    · simpa [WorkQueue.finish, hww] using h.quiet w' hw'

theorem Carries.finish {R : ι → W → A → Prop} {wq : WorkQueue ι W A} (hc : Carries R wq)
    (w : ι) : Carries R (wq.finish w) := by
  intro w' hw'
  simpa using hc w' hw'

end Hcrtos.Native.WorkQueue
