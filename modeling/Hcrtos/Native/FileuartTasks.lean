import Hcrtos.Native.Fileuart

/-!
# The file UART between its tasks

An operation of `fileuart.c` gives the semaphore back before it calls
`fileuart_schedule_flush`, which reads the device without it. Here the locked part of an
operation is one step, and each read of `fileuart_schedule_flush` is a step of its own, so
that other operations and the worker run between them.
-/

namespace Hcrtos.Native.FileuartTasks

open Fileuart

/-- What `fileuart_schedule_flush` does next. -/
inductive Stage where
  | readDepth
  | readDevname
  | readWork
  | queueWork
  deriving DecidableEq

/-- The position of the worker thread in `work_process` and `fileuart_delayed_work`. -/
inductive Worker where
  | idle
  /-- The work is unlinked, and the semaphore not taken yet. -/
  | taken
  | scheduling (stage : Stage)
  | returned
  deriving DecidableEq

/-- The driver, the device that the last successful `open` was for, and the calls of
    `fileuart_schedule_flush` under way in tasks and in the worker. -/
structure State where
  base : Fileuart.State
  opened : Option CString
  pending : List Stage
  worker : Worker

/-- The driver after its probe. -/
def init : State := ⟨Fileuart.init, none, [], .idle⟩

/-- No operation is in progress. -/
def State.Quiet (s : State) : Prop := s.pending = [] ∧ s.worker = .idle

/-- One read or the final call of `fileuart_schedule_flush`: the driver afterwards, and what
    is left to do. -/
def scheduleStep (s : Fileuart.State) : Stage → Fileuart.State × Option Stage
  | .readDepth => (s, if s.dev.suspend_depth = 0 then some .readDevname else none)
  | .readDevname => (s, if s.dev.devname ≠ [] then some .readWork else none)
  | .readWork => (s, if s.wq.work_available () then some .queueWork else none)
  | .queueWork =>
    ({ s with wq := s.wq.work_qqueue () () () FILEUART_FLUSH_DELAY_TICKS }, none)

/-- The device in the path of the `open` that a flush calls with success, if it does. -/
def fileuart_open_log (g : FileuartDev) (r : FlushAnswers) : Option CString :=
  if g.suspend_depth = 0 ∧ g.tx_count ≠ 0 ∧ g.fd < 0 ∧ g.devname ≠ [] ∧ r.fd ≥ 0 then
    some g.devname
  else none

/-- A step of the driver. -/
inductive Action where
  | write (buf : List UInt8)
  | mount (dev : Option CString)
  | umount (dev : Option CString)
  | setSuspended (suspended : Bool)
  /-- The `i`-th call of `fileuart_schedule_flush` under way goes on. -/
  | schedule (i : Nat)
  /-- The worker thread unlinks the work. -/
  | take
  /-- The locked part of `fileuart_delayed_work`. -/
  | flush (r : FlushAnswers)
  | workerSchedule
  /-- `fileuart_delayed_work` has returned. -/
  | finish

/-- The locked part of an operation ends with the device `dev`, and a call of
    `fileuart_schedule_flush` starts if `calls`. -/
def State.unlock (s : State) (dev : FileuartDev) (calls : Bool) : State :=
  { s with
    base := { s.base with dev := dev }
    pending := if calls then s.pending ++ [.readDepth] else s.pending }

/-- The step function. -/
def step (s : State) : Action → Option State
  | .write buf => some (s.unlock (fileuart_enqueue s.base.dev buf) true)
  | .mount dev => some (s.unlock (fileuart_mount_locked s.base.dev dev) true)
  | .umount dev => some (s.unlock (fileuart_umount_locked s.base.dev dev) false)
  | .setSuspended suspended =>
    let dev := fileuart_suspend_locked s.base.dev suspended
    some (s.unlock dev (wantsFlush dev))
  | .schedule i =>
    match s.pending[i]? with
    | none => none
    | some stage =>
      match scheduleStep s.base stage with
      | (base, some next) => some { s with base := base, pending := s.pending.set i next }
      | (base, none) => some { s with base := base, pending := s.pending.eraseIdx i }
  | .take =>
    match s.worker, s.base.wq.take () with
    | .idle, some (_, _, wq) =>
      some { s with base := { s.base with wq := wq }, worker := .taken }
    | _, _ => none
  | .flush r =>
    if s.worker = .taken then
      let (dev, data) :=
        if s.base.dev.suspend_depth = 0 then fileuart_flush_locked s.base.dev r
        else (s.base.dev, [])
      some { s with
        base := { s.base with dev := dev, file := s.base.file ++ data }
        opened := (fileuart_open_log s.base.dev r).or s.opened
        worker := if wantsFlush dev then .scheduling .readDepth else .returned }
    else none
  | .workerSchedule =>
    match s.worker with
    | .scheduling stage =>
      match scheduleStep s.base stage with
      | (base, some next) => some { s with base := base, worker := .scheduling next }
      | (base, none) => some { s with base := base, worker := .returned }
    | _ => none
  | .finish =>
    if s.worker = .returned then
      some { s with
        base := { s.base with wq := s.base.wq.finish () }
        worker := .idle }
    else none

end Hcrtos.Native.FileuartTasks
