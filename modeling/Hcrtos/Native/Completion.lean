import Mathlib.Data.Fintype.Basic
import Hcrtos.ForStd.Lts

/-!
# Completions

The kernel's `struct completion`, its two parties, and the scheduler's view of them.
`complete` runs inside one critical section and is one step. `wait_for_completion_timeout`
is split where other tasks can run: at each unlocked read of `done`, around each critical
section, at the notification wait and at the final decrement. The program counter of a task
names the step it takes next.

A label carries the choices of the environment: which task runs, whether the time-out has
expired, whether a blocked task is woken by its delay running out.
-/

namespace Hcrtos.Native.Completion

/-- `UINT_MAX`, the value `complete_all` leaves in `done`. -/
def UINT_MAX : UInt32 := 0xffffffff

/-- Where a task stands in `wait_for_completion_timeout`. -/
inductive Pc where
  /-- Not in a call. -/
  | idle
  /-- Read `done == 0` on entry; next is the critical section that links `wait`. -/
  | enqueue
  /-- Next is the test of `while (!x->done)`. -/
  | loop
  /-- In the loop body; next is `xTaskCheckForTimeOut`. -/
  | checkTimeOut
  /-- In `xTaskNotifyWaitIndexed`. -/
  | notifyWait
  /-- Timed out; next is the critical section that unlinks `wait` before `return 0`. -/
  | timedOut
  /-- Left the loop; next is the critical section that unlinks `wait`. -/
  | unlink
  /-- Next is `assert(x->done != 0)` and the decrement. -/
  | decrement
  /-- Stopped in a failed assertion. -/
  | asserted
  deriving DecidableEq

/-- A completion, the tasks that use it, and the history of its use: `completes` counts the
    calls of `complete`, `passed` the waits that went through the final decrement. -/
structure State (Task : Type*) where
  done : UInt32
  task_list : List Task
  pc : Task → Pc
  notified : Task → Bool
  completes : Nat
  passed : Nat

variable {Task : Type*} [DecidableEq Task]

/-- `init_completion`, with no task in a call. -/
def init_completion : State Task where
  done := 0
  task_list := []
  pc := fun _ => .idle
  notified := fun _ => false
  completes := 0
  passed := 0

namespace State

/-- Task `t` goes on to `p`. -/
def goto (s : State Task) (t : Task) (p : Pc) : State Task :=
  { s with pc := Function.update s.pc t p }

/-- `list_del_init(&wait.task_list)` of task `t`: nothing happens to an unlinked entry. -/
def list_del_init (s : State Task) (t : Task) : State Task :=
  { s with task_list := s.task_list.erase t }

/-- `swake_up_locked`: notify the first waiter and unlink it. -/
def swake_up_locked (s : State Task) : State Task :=
  match s.task_list with
  | [] => s
  | curr :: rest =>
    { s with task_list := rest, notified := Function.update s.notified curr true }

/-- `swake_up_all_locked`: the loop ends because each round unlinks one waiter. -/
def swake_up_all_locked (s : State Task) : State Task :=
  { s with
    task_list := []
    notified := fun t => if t ∈ s.task_list then true else s.notified t }

/-- `complete`. -/
def complete (s : State Task) : State Task :=
  swake_up_locked
    { s with
      done := if s.done ≠ UINT_MAX then s.done + 1 else s.done
      completes := s.completes + 1 }

/-- `complete_all`. -/
def complete_all (s : State Task) : State Task :=
  swake_up_all_locked { s with done := UINT_MAX }

end State

/-- One step of the system. -/
inductive Action (Task : Type*) where
  /-- Task calls `wait_for_completion_timeout` and makes its first test of `done`. -/
  | call (t : Task)
  | enqueue (t : Task)
  /-- The unlocked test of the `while` loop. -/
  | test (t : Task)
  | checkTimeOut (t : Task) (expired : Bool)
  /-- `xTaskNotifyWaitIndexed` returns because a notification is pending. -/
  | wake (t : Task)
  /-- `xTaskNotifyWaitIndexed` returns because its delay ran out. -/
  | delayOver (t : Task)
  | returnTimedOut (t : Task)
  | unlink (t : Task)
  | decrement (t : Task)
  | complete
  | complete_all
  deriving DecidableEq

/-- The step function. With `ndebug` set the assertion is compiled out, and a decrement of
    zero wraps around. -/
def step (ndebug : Bool) (s : State Task) : Action Task → Option (State Task)
  | .call t =>
    if s.pc t = .idle then
      some (s.goto t (if s.done = 0 then .enqueue else .decrement))
    else none
  | .enqueue t =>
    if s.pc t = .enqueue then
      let s := if s.done = 0 then { s with task_list := s.task_list ++ [t] } else s
      some (s.goto t .loop)
    else none
  | .test t =>
    if s.pc t = .loop then
      some (s.goto t (if s.done = 0 then .checkTimeOut else .unlink))
    else none
  | .checkTimeOut t expired =>
    if s.pc t = .checkTimeOut then
      some (s.goto t (if expired then .timedOut else .notifyWait))
    else none
  | .wake t =>
    if s.pc t = .notifyWait ∧ s.notified t = true then
      some ({ s with notified := Function.update s.notified t false }.goto t .loop)
    else none
  | .delayOver t =>
    if s.pc t = .notifyWait ∧ s.notified t = false then
      some (s.goto t .loop)
    else none
  | .returnTimedOut t =>
    if s.pc t = .timedOut then
      some ((s.list_del_init t).goto t .idle)
    else none
  | .unlink t =>
    if s.pc t = .unlink then
      some ((s.list_del_init t).goto t .decrement)
    else none
  | .decrement t =>
    if s.pc t = .decrement then
      if s.done = 0 ∧ ndebug = false then
        some (s.goto t .asserted)
      else
        let done := if s.done ≠ UINT_MAX then s.done - 1 else s.done
        some ({ s with done := done, passed := s.passed + 1 }.goto t .idle)
    else none
  | .complete => some s.complete
  | .complete_all => some s.complete_all

/-- Task `t` is blocked in the wait loop: it waits for a notification and none is pending. -/
def Blocked (s : State Task) (t : Task) : Prop :=
  s.pc t = .notifyWait ∧ s.notified t = false

/-- Task `t` is past its enqueueing section and has not left the wait loop. -/
def InLoop (s : State Task) (t : Task) : Prop :=
  s.pc t = .loop ∨ s.pc t = .checkTimeOut ∨ s.pc t = .notifyWait

instance (s : State Task) (t : Task) : Decidable (InLoop s t) := by
  unfold InLoop; infer_instance

/-- The tasks that read a nonzero `done` and have not decremented it yet. -/
def leaving [Fintype Task] (s : State Task) : Finset Task :=
  Finset.univ.filter fun t => s.pc t = .unlink ∨ s.pc t = .decrement

/-- No wake-up is lost: a task blocked while `done` is zero is on the list that `complete`
    takes its waiter from. -/
def NoLostWakeup (s : State Task) : Prop :=
  ∀ t, Blocked s t → s.done = 0 → t ∈ s.task_list

/-- Each `complete` pays for at most one wait, the assertion before the decrement holds for
    every task about to evaluate it, and none has failed. -/
structure Accounted (s : State Task) : Prop where
  count : s.passed + s.done.toNat = s.completes
  nonzero : ∀ t, s.pc t = .decrement → s.done ≠ 0
  not_asserted : ∀ t, s.pc t ≠ .asserted

end Hcrtos.Native.Completion
