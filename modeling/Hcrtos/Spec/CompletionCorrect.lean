import Mathlib.Algebra.Ring.Nat
import Mathlib.Data.Finset.Card
import Hcrtos.Native.Completion

/-!
# Completions: lost wake-ups and accounting

`complete` unlinks the waiter it notifies, and a waiter links itself only once. Between the
two unlocked accesses of `done` in `wait_for_completion_timeout` (the test and the
decrement) another task can take the same count. Both properties of this file therefore
hold for the runs that keep out of that window, and fail on two runs given here.

## Key results

- `noLostWakeup_of_keepsWaiters`: no wake-up is lost as long as no task takes the last count
  past a waiter that is already unlinked
- `accounted_of_hasSpare`: the accounting is exact as long as a task leaves the loop only
  when `done` exceeds the number of tasks already on their way to the decrement
- `overcommitted_reaches_assert`: once it does not exceed it, the assertion can fail
-/

namespace Hcrtos.Native.Completion

open Lts

variable {Task : Type*} [DecidableEq Task]

/-! ### What the parts of a step change -/

namespace State

@[simp] theorem goto_done (s : State Task) (t : Task) (p : Pc) : (s.goto t p).done = s.done := rfl
@[simp] theorem goto_task_list (s : State Task) (t : Task) (p : Pc) :
    (s.goto t p).task_list = s.task_list := rfl
@[simp] theorem goto_completes (s : State Task) (t : Task) (p : Pc) :
    (s.goto t p).completes = s.completes := rfl
@[simp] theorem goto_passed (s : State Task) (t : Task) (p : Pc) :
    (s.goto t p).passed = s.passed := rfl
@[simp] theorem goto_pc_self (s : State Task) (t : Task) (p : Pc) : (s.goto t p).pc t = p := by
  simp [goto]
@[simp] theorem goto_pc_of_ne {s : State Task} {t u : Task} {p : Pc} (h : u ≠ t) :
    (s.goto t p).pc u = s.pc u := by
  simp [goto, h]

@[simp] theorem swake_up_locked_done (s : State Task) : s.swake_up_locked.done = s.done := by
  unfold swake_up_locked; split <;> rfl
@[simp] theorem swake_up_locked_pc (s : State Task) : s.swake_up_locked.pc = s.pc := by
  unfold swake_up_locked; split <;> rfl
@[simp] theorem swake_up_locked_completes (s : State Task) :
    s.swake_up_locked.completes = s.completes := by
  unfold swake_up_locked; split <;> rfl
@[simp] theorem swake_up_locked_passed (s : State Task) :
    s.swake_up_locked.passed = s.passed := by
  unfold swake_up_locked; split <;> rfl

@[simp] theorem complete_pc (s : State Task) : s.complete.pc = s.pc := by simp [complete]
@[simp] theorem complete_completes (s : State Task) :
    s.complete.completes = s.completes + 1 := by simp [complete]
@[simp] theorem complete_passed (s : State Task) : s.complete.passed = s.passed := by
  simp [complete]

/-- `complete` saturates at `UINT_MAX`. -/
theorem complete_done (s : State Task) :
    s.complete.done = if s.done ≠ UINT_MAX then s.done + 1 else s.done := by
  simp [complete]

theorem complete_done_ne_zero (s : State Task) : s.complete.done ≠ 0 := by
  rw [complete_done]
  split
  · rename_i hmax
    simp only [UINT_MAX] at hmax
    grind
  · rename_i hmax
    rw [not_not.mp hmax]
    decide

/-- The decrement of a count above one leaves a nonzero count; `UINT_MAX` is kept. -/
theorem decremented_ne_zero {done : UInt32} (h0 : done ≠ 0) (h1 : done ≠ 1) :
    (if done ≠ UINT_MAX then done - 1 else done) ≠ 0 := by
  split
  · grind
  · exact h0

end State

/-! ### Wake-ups -/

/-- Every task in the wait loop is linked, or finds `done` nonzero at its next test. -/
def Linked (s : State Task) : Prop :=
  ∀ t, InLoop s t → s.done ≠ 0 ∨ t ∈ s.task_list

/-- The step does not take the last count while a task in the wait loop is unlinked. -/
def KeepsWaiters (s : State Task) : Action Task → Prop
  | .decrement t => s.pc t = .decrement → s.done = 1 → ∀ u, InLoop s u → u ∈ s.task_list
  | _ => True

instance [Fintype Task] (s : State Task) (a : Action Task) : Decidable (KeepsWaiters s a) := by
  unfold KeepsWaiters; split <;> infer_instance

/-- A task sent elsewhere than into the loop leaves the other tasks' links in place. -/
private theorem linked_goto {s : State Task} {t : Task} {p : Pc} (hs : Linked s)
    (ht : s.done ≠ 0 ∨ t ∈ s.task_list ∨ (p ≠ .loop ∧ p ≠ .checkTimeOut ∧ p ≠ .notifyWait)) :
    Linked (s.goto t p) := by
  intro u hu
  by_cases hut : u = t
  · subst hut
    simp only [InLoop, State.goto_pc_self] at hu
    rcases ht with hdone | hmem | hp
    · exact .inl hdone
    · exact .inr hmem
    · rcases hu with h | h | h <;> simp_all
  · simp only [InLoop, State.goto_pc_of_ne hut] at hu
    exact hs u hu

/-- Unlinking a task that is out of the loop leaves the others linked. -/
private theorem linked_list_del_init {s : State Task} {t : Task} (hs : Linked s)
    (ht : ¬ InLoop s t) : Linked (s.list_del_init t) := by
  intro u hu
  have hne : u ≠ t := fun h => ht (h ▸ hu)
  rcases hs u hu with hdone | hmem
  · exact .inl hdone
  · exact .inr ((List.mem_erase_of_ne hne).mpr hmem)

/-- Each step that keeps the unlinked waiters supplied keeps every waiter linked or supplied. -/
theorem linked_step (ndebug : Bool) {s s' : State Task} {a : Action Task} (hs : Linked s)
    (hk : KeepsWaiters s a) (h : step ndebug s a = some s') : Linked s' := by
  cases a with
  | call t =>
    simp only [step, Option.ite_none_right_eq_some, Option.some.injEq] at h
    obtain ⟨-, rfl⟩ := h
    refine linked_goto hs (.inr (.inr ?_))
    split <;> decide
  | enqueue t =>
    simp only [step, Option.ite_none_right_eq_some, Option.some.injEq] at h
    obtain ⟨-, rfl⟩ := h
    split
    · refine linked_goto ?_ (.inr (.inl (by simp)))
      intro u hu
      rcases hs u hu with hdone | hmem
      · exact .inl hdone
      · exact .inr (List.mem_append_left _ hmem)
    · rename_i hdone
      exact linked_goto hs (.inl hdone)
  | test t =>
    simp only [step, Option.ite_none_right_eq_some, Option.some.injEq] at h
    obtain ⟨hpc, rfl⟩ := h
    refine linked_goto hs ?_
    exact (hs t (.inl hpc)).imp_right .inl
  | checkTimeOut t expired =>
    simp only [step, Option.ite_none_right_eq_some, Option.some.injEq] at h
    obtain ⟨hpc, rfl⟩ := h
    refine linked_goto hs ?_
    exact (hs t (.inr (.inl hpc))).imp_right .inl
  | wake t =>
    simp only [step, Option.ite_none_right_eq_some, Option.some.injEq] at h
    obtain ⟨⟨hpc, -⟩, rfl⟩ := h
    refine linked_goto ?_ ?_
    · exact hs
    · exact (hs t (.inr (.inr hpc))).imp_right .inl
  | delayOver t =>
    simp only [step, Option.ite_none_right_eq_some, Option.some.injEq] at h
    obtain ⟨⟨hpc, -⟩, rfl⟩ := h
    refine linked_goto hs ?_
    exact (hs t (.inr (.inr hpc))).imp_right .inl
  | returnTimedOut t =>
    simp only [step, Option.ite_none_right_eq_some, Option.some.injEq] at h
    obtain ⟨hpc, rfl⟩ := h
    exact linked_goto (linked_list_del_init hs (by simp [InLoop, hpc])) (by simp)
  | unlink t =>
    simp only [step, Option.ite_none_right_eq_some, Option.some.injEq] at h
    obtain ⟨hpc, rfl⟩ := h
    exact linked_goto (linked_list_del_init hs (by simp [InLoop, hpc])) (by simp)
  | decrement t =>
    simp only [step, Option.ite_none_right_eq_some] at h
    obtain ⟨hpc, h⟩ := h
    split at h
    · cases h
      exact linked_goto hs (by simp)
    · cases h
      refine linked_goto ?_ (by simp)
      intro u hu
      rcases hs u hu with hdone | hmem
      · by_cases hone : s.done = 1
        · exact .inr (hk hpc hone u hu)
        · exact .inl (State.decremented_ne_zero hdone hone)
      · exact .inr hmem
  | complete =>
    cases h
    exact fun _ _ => .inl (State.complete_done_ne_zero s)
  | complete_all =>
    cases h
    refine fun _ _ => .inl ?_
    show UINT_MAX ≠ 0
    decide

omit [DecidableEq Task] in
theorem linked_init : Linked (init_completion : State Task) := by
  intro t ht
  simp [InLoop, init_completion] at ht

/-- In every run in which no task takes the last count past an unlinked waiter, a task
    blocked while `done` is zero is linked, so that a later `complete` finds it. -/
theorem noLostWakeup_of_keepsWaiters (ndebug : Bool) (tr : List (Action Task))
    (s : State Task) (hrun : run (step ndebug) init_completion tr = some s)
    (hmeets : Meets (step ndebug) KeepsWaiters init_completion tr) : NoLostWakeup s := by
  have hlinked : Linked s :=
    run_invariant_of_meets (step ndebug) (fun _ _ _ hs hk h => linked_step ndebug hs hk h)
      linked_init hmeets hrun
  intro t ht hdone
  exact (hlinked t (.inr (.inr ht.1))).resolve_left (fun h => h hdone)

/-- For the numbers of two tasks. -/
local instance neZero_tasks : NeZero 2 := ⟨by decide⟩

/-- A waiter that goes to sleep. -/
def sleepRun : List (Action (Fin 2)) :=
  [.call 0, .enqueue 0, .test 0, .checkTimeOut 0 false]

/-- It sleeps linked. -/
theorem noLostWakeup_sleepRun : ∃ s, run (step false) init_completion sleepRun = some s ∧
    NoLostWakeup s :=
  ⟨_, rfl, noLostWakeup_of_keepsWaiters false sleepRun _ rfl (by decide)⟩

/-- The run of the lost wake-up: waiter 0 is notified and unlinked, task 1 takes the count on
    the fast path, waiter 0 goes back to sleep. -/
def lostWakeupRun : List (Action (Fin 2)) :=
  [.call 0, .enqueue 0, .test 0, .checkTimeOut 0 false, .complete,
   .call 1, .decrement 1, .wake 0, .test 0, .checkTimeOut 0 false]

/-- A waiter can end up blocked and unlinked with `done` zero. -/
theorem lostWakeup : ∃ s, run (step false) init_completion lostWakeupRun = some s ∧
    ¬ NoLostWakeup s :=
  ⟨_, rfl, fun h => absurd (h 0 ⟨rfl, rfl⟩ rfl) (by decide)⟩

/-! ### Accounting -/

/-- A program counter past a test that read a nonzero `done`, before the decrement. -/
def IsLeaving (p : Pc) : Prop := p = .unlink ∨ p = .decrement

instance (p : Pc) : Decidable (IsLeaving p) := by unfold IsLeaving; infer_instance

/-- The step lets a task past a test of `done` only when `done` exceeds the number of tasks
    already on their way to the decrement. -/
def HasSpare [Fintype Task] (s : State Task) : Action Task → Prop
  | .call t => s.pc t = .idle → s.done ≠ 0 → (leaving s).card < s.done.toNat
  | .test t => s.pc t = .loop → s.done ≠ 0 → (leaving s).card < s.done.toNat
  | _ => True

instance [Fintype Task] (s : State Task) (a : Action Task) : Decidable (HasSpare s a) := by
  unfold HasSpare; split <;> infer_instance

section Accounting

variable [Fintype Task]

omit [DecidableEq Task] in
theorem mem_leaving {s : State Task} {t : Task} : t ∈ leaving s ↔ IsLeaving (s.pc t) := by
  simp [leaving, IsLeaving]

omit [DecidableEq Task] in
/-- Only program counters decide who is leaving. -/
theorem leaving_congr {s s' : State Task} (h : s'.pc = s.pc) : leaving s' = leaving s := by
  ext t
  rw [mem_leaving, mem_leaving, h]

theorem leaving_goto_of_isLeaving {s : State Task} {t : Task} {p : Pc} (hp : IsLeaving p) :
    leaving (s.goto t p) = insert t (leaving s) := by
  ext u
  by_cases hut : u = t
  · subst hut; simp [mem_leaving, hp]
  · simp [mem_leaving, hut]

theorem leaving_goto_of_not {s : State Task} {t : Task} {p : Pc} (hp : ¬ IsLeaving p) :
    leaving (s.goto t p) = (leaving s).erase t := by
  ext u
  by_cases hut : u = t
  · subst hut; simp [mem_leaving, hp]
  · simp [mem_leaving, hut]

/-- The accounting with its supporting bound: every task on its way to the decrement has a
    count of its own in `done`. -/
structure Balanced (s : State Task) : Prop where
  count : s.passed + s.done.toNat = s.completes
  spare : (leaving s).card ≤ s.done.toNat
  not_asserted : ∀ t, s.pc t ≠ .asserted

omit [DecidableEq Task] in
theorem Balanced.accounted {s : State Task} (hs : Balanced s) : Accounted s where
  count := hs.count
  nonzero := by
    intro t ht hdone
    have hmem : t ∈ leaving s := mem_leaving.mpr (.inr ht)
    have hpos : 0 < (leaving s).card := Finset.card_pos.mpr ⟨t, hmem⟩
    have hspare := hs.spare
    rw [hdone, UInt32.toNat_zero] at hspare
    omega
  not_asserted := hs.not_asserted

omit [Fintype Task] in
private theorem goto_ne_asserted {s : State Task} {t : Task} {p : Pc}
    (hs : ∀ u, s.pc u ≠ .asserted) (hp : p ≠ .asserted) (u : Task) :
    (s.goto t p).pc u ≠ .asserted := by
  by_cases hut : u = t
  · subst hut; rwa [State.goto_pc_self]
  · rw [State.goto_pc_of_ne hut]; exact hs u

/-- A task that moves on without reaching the way to the decrement keeps the balance. -/
private theorem balanced_goto_of_not {s : State Task} {t : Task} {p : Pc} (hs : Balanced s)
    (hp : ¬ IsLeaving p) (hpa : p ≠ .asserted) : Balanced (s.goto t p) where
  count := hs.count
  spare := by
    rw [leaving_goto_of_not hp]
    exact (Finset.card_le_card (Finset.erase_subset _ _)).trans hs.spare
  not_asserted := goto_ne_asserted hs.not_asserted hpa

/-- A task that starts on its way to the decrement needs a count of its own. -/
private theorem balanced_goto_of_isLeaving {s : State Task} {t : Task} {p : Pc}
    (hs : Balanced s) (hp : IsLeaving p) (hcard : (insert t (leaving s)).card ≤ s.done.toNat) :
    Balanced (s.goto t p) where
  count := hs.count
  spare := by rwa [leaving_goto_of_isLeaving hp]
  not_asserted := goto_ne_asserted hs.not_asserted (by rcases hp with rfl | rfl <;> decide)

omit [DecidableEq Task] in
private theorem balanced_congr {s s' : State Task} (hs : Balanced s) (hdone : s'.done = s.done)
    (hpc : s'.pc = s.pc) (hpassed : s'.passed = s.passed) (hcompletes : s'.completes = s.completes) :
    Balanced s' where
  count := by rw [hpassed, hdone, hcompletes]; exact hs.count
  spare := by rw [leaving_congr hpc, hdone]; exact hs.spare
  not_asserted := by rw [hpc]; exact hs.not_asserted

/-- The final decrement of a balanced state finds a nonzero `done` and takes its own count. -/
private theorem balanced_decrement (ndebug : Bool) {s s' : State Task} {t : Task}
    (hs : Balanced s) (hmax : s.completes < UINT_MAX.toNat)
    (h : step ndebug s (.decrement t) = some s') : Balanced s' := by
  simp only [step, Option.ite_none_right_eq_some] at h
  obtain ⟨hpc, h⟩ := h
  have hdone : s.done ≠ 0 := hs.accounted.nonzero t hpc
  have hcount := hs.count
  have hspare := hs.spare
  have hmem : t ∈ leaving s := mem_leaving.mpr (.inr hpc)
  have hlt : s.done ≠ UINT_MAX := by
    intro heq
    rw [heq] at hcount
    omega
  have hone : 1 ≤ s.done.toNat := by
    have hpos : 0 < (leaving s).card := Finset.card_pos.mpr ⟨t, hmem⟩
    omega
  have hsub : (s.done - 1).toNat = s.done.toNat - 1 :=
    UInt32.toNat_sub_of_le _ _ (UInt32.le_iff_toNat_le.mpr hone)
  rw [if_neg (fun hzero => hdone hzero.1)] at h
  simp only [if_pos hlt, Option.some.injEq] at h
  subst h
  constructor
  · show s.passed + 1 + (s.done - 1).toNat = s.completes
    omega
  · rw [leaving_goto_of_not (by simp [IsLeaving])]
    show ((leaving s).erase t).card ≤ (s.done - 1).toNat
    rw [Finset.card_erase_of_mem hmem]
    omega
  · exact goto_ne_asserted hs.not_asserted (by decide)

/-- Each step with a spare count keeps the balance. -/
theorem balanced_step (ndebug : Bool) {s s' : State Task} {a : Action Task} (hs : Balanced s)
    (hmax : s'.completes < UINT_MAX.toNat) (ha : a ≠ .complete_all) (hk : HasSpare s a)
    (h : step ndebug s a = some s') : Balanced s' := by
  cases a with
  | call t =>
    simp only [step, Option.ite_none_right_eq_some, Option.some.injEq] at h
    obtain ⟨hpc, rfl⟩ := h
    split
    · exact balanced_goto_of_not hs (by decide) (by decide)
    · rename_i hdone
      refine balanced_goto_of_isLeaving hs (by decide) ?_
      exact (Finset.card_insert_le _ _).trans (hk hpc hdone)
  | enqueue t =>
    simp only [step, Option.ite_none_right_eq_some, Option.some.injEq] at h
    obtain ⟨-, rfl⟩ := h
    refine balanced_goto_of_not ?_ (by decide) (by decide)
    split
    · exact balanced_congr hs rfl rfl rfl rfl
    · exact hs
  | test t =>
    simp only [step, Option.ite_none_right_eq_some, Option.some.injEq] at h
    obtain ⟨hpc, rfl⟩ := h
    split
    · exact balanced_goto_of_not hs (by decide) (by decide)
    · rename_i hdone
      refine balanced_goto_of_isLeaving hs (by decide) ?_
      exact (Finset.card_insert_le _ _).trans (hk hpc hdone)
  | checkTimeOut t expired =>
    simp only [step, Option.ite_none_right_eq_some, Option.some.injEq] at h
    obtain ⟨-, rfl⟩ := h
    split <;> exact balanced_goto_of_not hs (by decide) (by decide)
  | wake t =>
    simp only [step, Option.ite_none_right_eq_some, Option.some.injEq] at h
    obtain ⟨-, rfl⟩ := h
    exact balanced_goto_of_not (balanced_congr hs rfl rfl rfl rfl) (by decide) (by decide)
  | delayOver t =>
    simp only [step, Option.ite_none_right_eq_some, Option.some.injEq] at h
    obtain ⟨-, rfl⟩ := h
    exact balanced_goto_of_not hs (by decide) (by decide)
  | returnTimedOut t =>
    simp only [step, Option.ite_none_right_eq_some, Option.some.injEq] at h
    obtain ⟨-, rfl⟩ := h
    exact balanced_goto_of_not (balanced_congr hs rfl rfl rfl rfl) (by decide) (by decide)
  | unlink t =>
    simp only [step, Option.ite_none_right_eq_some, Option.some.injEq] at h
    obtain ⟨hpc, rfl⟩ := h
    have hmem : t ∈ leaving s := mem_leaving.mpr (.inl hpc)
    refine balanced_goto_of_isLeaving (balanced_congr hs rfl rfl rfl rfl) (by decide) ?_
    change (insert t (leaving s)).card ≤ s.done.toNat
    rw [Finset.insert_eq_of_mem hmem]
    exact hs.spare
  | decrement t =>
    have hcompletes : s'.completes = s.completes := by
      simp only [step, Option.ite_none_right_eq_some] at h
      obtain ⟨-, h⟩ := h
      split at h <;> cases h <;> rfl
    exact balanced_decrement ndebug hs (hcompletes ▸ hmax) h
  | complete =>
    cases h
    rw [State.complete_completes] at hmax
    have hcount := hs.count
    have hspare := hs.spare
    have hlt : s.done ≠ UINT_MAX := by
      intro heq
      rw [heq] at hcount
      omega
    have hadd : (s.done + 1).toNat = s.done.toNat + 1 := by
      rw [UInt32.toNat_add, UInt32.toNat_one, Nat.mod_eq_of_lt]
      have : UINT_MAX.toNat = 2 ^ 32 - 1 := rfl
      omega
    constructor
    · rw [State.complete_passed, State.complete_completes, State.complete_done, if_pos hlt]
      omega
    · rw [leaving_congr (State.complete_pc s), State.complete_done, if_pos hlt]
      omega
    · rw [State.complete_pc]
      exact hs.not_asserted
  | complete_all => exact absurd rfl ha

omit [DecidableEq Task] in
theorem balanced_init : Balanced (init_completion : State Task) where
  count := rfl
  spare := by
    have : leaving (init_completion : State Task) = ∅ := by
      ext t
      simp [mem_leaving, IsLeaving, init_completion]
    rw [this]
    exact Nat.zero_le _
  not_asserted := by simp [init_completion]

end Accounting

/-- The history counter follows the labels. -/
theorem completes_step (ndebug : Bool) {s s' : State Task} {a : Action Task}
    (h : step ndebug s a = some s') :
    s'.completes = s.completes + if a == .complete then 1 else 0 := by
  cases a with
  | complete => cases h; simp
  | complete_all => cases h; rfl
  | decrement u =>
    simp only [step, Option.ite_none_right_eq_some] at h
    obtain ⟨-, h⟩ := h
    split at h <;> cases h <;> rfl
  | enqueue u =>
    simp only [step, Option.ite_none_right_eq_some, Option.some.injEq] at h
    obtain ⟨-, rfl⟩ := h
    split <;> rfl
  | _ =>
    simp only [step, Option.ite_none_right_eq_some, Option.some.injEq] at h
    obtain ⟨-, rfl⟩ := h
    rfl

theorem completes_eq_count (ndebug : Bool) {tr : List (Action Task)} {s s' : State Task}
    (hrun : run (step ndebug) s tr = some s') :
    s'.completes = s.completes + tr.count .complete := by
  induction tr generalizing s with
  | nil => cases hrun; simp
  | cons a tr ih =>
    obtain ⟨t, ht, hrun'⟩ := (run_cons_some _).mp hrun
    rw [ih hrun', List.count_cons, completes_step ndebug ht]
    omega

/-- In every run in which each task leaves the loop on a count of its own, with fewer than
    `UINT_MAX` calls of `complete` and none of `complete_all`, each `complete` satisfies at
    most one wait, `done` does not wrap and the assertion holds. -/
theorem accounted_of_hasSpare [Fintype Task] (ndebug : Bool) (tr : List (Action Task))
    (s : State Task) (hrun : run (step ndebug) init_completion tr = some s)
    (hcount : tr.count .complete < UINT_MAX.toNat) (hall : .complete_all ∉ tr)
    (hmeets : Meets (step ndebug) HasSpare init_completion tr) : Accounted s := by
  have hno : ∀ a ∈ tr, a ≠ Action.complete_all := fun a ha heq => hall (heq ▸ ha)
  have hguard := hmeets.and _ (meets_of_forall_mem (step ndebug) (s := init_completion) hno)
  have hcompletes : s.completes < UINT_MAX.toNat := by
    rw [completes_eq_count ndebug hrun]
    simpa [init_completion] using hcount
  have hbalanced : s.completes < UINT_MAX.toNat → Balanced s := by
    refine run_invariant_of_meets (step ndebug)
      (I := fun s => s.completes < UINT_MAX.toNat → Balanced s) ?_ (fun _ => balanced_init)
      hguard hrun
    intro s a s' hs hg h hmax
    have hle : s.completes ≤ s'.completes := by rw [completes_step ndebug h]; omega
    exact balanced_step ndebug (hs (hle.trans_lt hmax)) hmax hg.2 hg.1 h
  exact (hbalanced hcompletes).accounted

/-- Two waits served by two calls of `complete`. -/
def twoWaitsRun : List (Action (Fin 2)) :=
  [.complete, .complete, .call 0, .call 1, .decrement 0, .decrement 1]

theorem accounted_twoWaitsRun : ∃ s, run (step false) init_completion twoWaitsRun = some s ∧
    Accounted s :=
  ⟨_, rfl, accounted_of_hasSpare false twoWaitsRun _ rfl (by decide) (by decide) (by decide)⟩

/-- A step past a test without a spare count commits more tasks to the decrement than
    `done` has counts. -/
theorem overcommits_of_not_hasSpare [Fintype Task] (ndebug : Bool) {s s' : State Task}
    {a : Action Task} (hk : ¬ HasSpare s a) (h : step ndebug s a = some s') :
    s'.done = s.done ∧ s'.done.toNat < (leaving s').card := by
  cases a with
  | call t =>
    simp only [HasSpare, Classical.not_imp, not_lt] at hk
    obtain ⟨hpc, hdone, hcard⟩ := hk
    simp only [step, if_pos hpc, if_neg hdone, Option.some.injEq] at h
    subst h
    refine ⟨rfl, ?_⟩
    rw [leaving_goto_of_isLeaving (by decide), Finset.card_insert_of_notMem]
    · exact Nat.lt_succ_of_le hcard
    · simp [mem_leaving, hpc, IsLeaving]
  | test t =>
    simp only [HasSpare, Classical.not_imp, not_lt] at hk
    obtain ⟨hpc, hdone, hcard⟩ := hk
    simp only [step, if_pos hpc, if_neg hdone, Option.some.injEq] at h
    subst h
    refine ⟨rfl, ?_⟩
    rw [leaving_goto_of_isLeaving (by decide), Finset.card_insert_of_notMem]
    · exact Nat.lt_succ_of_le hcard
    · simp [mem_leaving, hpc, IsLeaving]
  | _ => exact absurd trivial hk

/-- A task on its way to the decrement can be brought right before it. -/
private theorem reaches_decrement [Fintype Task] {s : State Task} {t : Task}
    (ht : t ∈ leaving s) : ∃ tr s', run (step false) s tr = some s' ∧ s'.pc t = .decrement ∧
      s'.done = s.done ∧ leaving s' = leaving s := by
  rcases mem_leaving.mp ht with hpc | hpc
  · refine ⟨[.unlink t], (s.list_del_init t).goto t .decrement, ?_, by simp, rfl, ?_⟩
    · simp [run_cons, step, hpc]
    · rw [leaving_goto_of_isLeaving (by decide)]
      exact Finset.insert_eq_of_mem ht
  · exact ⟨[], s, rfl, hpc, rfl, rfl⟩

/-- From a state with more tasks on their way to the decrement than counts, the tasks
    already on their way can run into the failing assertion. -/
theorem overcommitted_reaches_assert [Fintype Task] (s : State Task)
    (hmax : s.done ≠ UINT_MAX) (hover : s.done.toNat < (leaving s).card) :
    ∃ tr s', run (step false) s tr = some s' ∧ ∃ t, s'.pc t = .asserted := by
  -- each decrement takes one count and one task away, so the surplus of tasks stays
  induction hn : s.done.toNat generalizing s with
  | zero =>
    obtain ⟨t, ht⟩ := Finset.card_pos.mp (by omega : 0 < (leaving s).card)
    obtain ⟨tr, s₁, hrun, hpc, hdone, -⟩ := reaches_decrement ht
    have hzero : s₁.done = 0 := by
      rw [hdone]
      exact UInt32.toNat_inj.mp hn
    refine ⟨tr ++ [.decrement t], s₁.goto t .asserted, ?_, t, by simp⟩
    exact (run_concat_some _).mpr ⟨s₁, hrun, by simp [step, hpc, hzero]⟩
  | succ n ih =>
    obtain ⟨t, ht⟩ := Finset.card_pos.mp (by omega : 0 < (leaving s).card)
    obtain ⟨tr, s₁, hrun, hpc, hdone, hleaving⟩ := reaches_decrement ht
    have hsub : (s.done - 1).toNat = n := by
      rw [UInt32.toNat_sub_of_le _ _ (UInt32.le_iff_toNat_le.mpr (by rw [UInt32.toNat_one]; omega)),
        hn, UInt32.toNat_one, Nat.add_sub_cancel]
    have hne : s.done ≠ 0 := by
      intro hzero
      rw [hzero, UInt32.toNat_zero] at hn
      omega
    let s₂ : State Task :=
      { s₁ with done := s₁.done - 1, passed := s₁.passed + 1 }.goto t .idle
    have hstep : step false s₁ (.decrement t) = some s₂ := by
      simp [step, hpc, hdone, hne, hmax, s₂]
    have hleaving₂ : leaving s₂ = (leaving s).erase t := by
      rw [leaving_goto_of_not (by decide), ← hleaving]
      exact congrArg (Finset.erase · t) (leaving_congr rfl)
    obtain ⟨tr', s', hrun', hasserted⟩ := ih s₂
      (by
        show s₁.done - 1 ≠ UINT_MAX
        intro heq
        rw [hdone] at heq
        have hbig := congrArg UInt32.toNat heq
        have hmaxNat : UINT_MAX.toNat = 2 ^ 32 - 1 := rfl
        have hlt := s.done.toNat_lt
        omega)
      (by
        rw [hleaving₂, Finset.card_erase_of_mem ht]
        show (s₁.done - 1).toNat < _
        rw [hdone]
        omega)
      (by show (s₁.done - 1).toNat = n; rw [hdone, hsub])
    refine ⟨tr ++ .decrement t :: tr', s', ?_, hasserted⟩
    rw [run_append, hrun, Option.bind_some, run_cons, hstep, Option.bind_some, hrun']

/-- The run of the failing assertion: both tasks leave on the one count. -/
def overcommittedRun : List (Action (Fin 2)) :=
  [.complete, .call 0, .call 1, .decrement 0, .decrement 1]

/-- Two tasks can leave on one count, and the second one fails the assertion. -/
theorem overcommitted : overcommittedRun.count .complete < UINT_MAX.toNat ∧
    .complete_all ∉ overcommittedRun ∧
    ∃ s, run (step false) init_completion overcommittedRun = some s ∧ ¬ Accounted s :=
  ⟨by decide, by decide, _, rfl, fun h => h.not_asserted 1 rfl⟩

end Hcrtos.Native.Completion
