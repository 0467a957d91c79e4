import Mathlib.Data.List.Nodup
import Mathlib.Logic.Function.Basic

/-!
# The kernel work queue

`work_qqueue`, `work_qcancel` and the part of `work_process` that takes one entry from the
queue, over any type `ι` of work structures, `W` of worker functions and `A` of arguments.
A work structure is owned by its user; the queue links it. The low-priority queue has one
thread, and time is left to the caller: any linked entry may be the one whose delay is over.
-/

namespace Hcrtos.Native

/-- `struct work_s`: `worker` is non-NULL while the work is queued. -/
structure Work (W A : Type*) where
  worker : Option W
  arg : Option A
  delay : Nat
  doing : Bool

namespace Work

/-- A zeroed work structure, as its user has to hand it in. -/
def zero {W A : Type*} : Work W A := ⟨none, none, 0, false⟩

end Work

/-- The work structures and the queue that links some of them. -/
structure WorkQueue (ι W A : Type*) where
  works : ι → Work W A
  q : List ι

namespace WorkQueue

variable {ι W A : Type*} [DecidableEq ι]

/-- The empty queue over zeroed work structures. -/
def empty : WorkQueue ι W A := ⟨fun _ => Work.zero, []⟩

/-- `work_available(work)`. -/
def work_available (wq : WorkQueue ι W A) (work : ι) : Bool :=
  (wq.works work).worker.isNone

/-- `work_qqueue`: a pending entry is unlinked first, then queued again at the end. -/
def work_qqueue (wq : WorkQueue ι W A) (work : ι) (worker : W) (arg : A) (delay : Nat) :
    WorkQueue ι W A :=
  let q :=
    if (wq.works work).worker.isSome ∧ (wq.works work).doing = false then wq.q.erase work
    else wq.q
  { works := Function.update wq.works work ⟨some worker, some arg, delay, false⟩
    q := q ++ [work] }

/-- `work_qcancel`. -/
def work_qcancel (wq : WorkQueue ι W A) (work : ι) : WorkQueue ι W A :=
  if (wq.works work).worker.isSome ∧ (wq.works work).doing = false then
    { works := Function.update wq.works work { wq.works work with worker := none }
      q := wq.q.erase work }
  else wq

/-- The start of a round of `work_process` on a linked entry whose delay is over: it is
    unlinked, and its worker and argument are extracted before the worker runs. -/
def take (wq : WorkQueue ι W A) (work : ι) : Option (W × Option A × WorkQueue ι W A) :=
  if work ∈ wq.q then
    match (wq.works work).worker with
    | some worker =>
      some (worker, (wq.works work).arg,
        { works := Function.update wq.works work { wq.works work with worker := none, doing := true }
          q := wq.q.erase work })
    | none => none
  else none

/-- The end of the round, after the worker returned. -/
def finish (wq : WorkQueue ι W A) (work : ι) : WorkQueue ι W A :=
  { wq with works := Function.update wq.works work { wq.works work with doing := false } }

end WorkQueue

end Hcrtos.Native
