import Hcrtos.ForStd.Lts
import Hcrtos.Native.WorkQueue

/-!
# The automounter

`fs_automount.c`: one heap object for each connected device, linked on `__mounters`, with
two delayed works on the low-priority work queue (mount retry and lazy umount). A step is
one CONNECT or DISCONNECT notification, or one delayed work that fires; what `malloc`,
`mount` and `umount` answer is part of the label.

The heap keeps the contents of an object after `free`, and `malloc` hands out addresses that
were never used before, so that a use of a freed object is seen in `freed`. The log of calls
and the latest event of each device are history.
-/

namespace Hcrtos.Native.Automount

/-- A device name: the bytes of `devname` before the terminator. -/
abbrev Devname := List UInt8

/-- The address of an `automounter_state_s`. -/
abbrev Addr := Nat

def AUTOMOUNT_RETRY_DELAY : Nat := 1000
def AUTOMOUNT_MAX_RETRIES : UInt32 := 8
def EBUSY : Nat := 16

/-- The works embedded in a state. -/
inductive Dwork where
  | mount_dwork
  | umount_dwork
  deriving DecidableEq

/-- The functions queued as workers. -/
inductive Worker where
  | automount_mount_retry
  | autoumount_fs

/-- `struct automounter_state_s`; its list link is `State.mounters`, its works are in
    `State.wq`. -/
structure AutomounterState where
  devname : Devname
  mounted : Bool
  notify_umount : Bool
  mount_attempts : UInt32

/-- What a `mount` call answers: success, or failure with an `errno`. -/
inductive MountResult where
  | ok
  | fail (errno : Nat)
  deriving DecidableEq

/-- The answers to the `vfat` and `ntfs` mounts of one attempt; the second one is asked for
    only if the first one fails. -/
structure MountResults where
  vfat : MountResult
  ntfs : MountResult

/-- The notifications that arrive from the hubs. -/
inductive Event where
  | connect
  | disconnect
  deriving DecidableEq

/-- The notifications sent with `sys_notify_event`. -/
inductive Notify where
  | USB_MSC_NOTIFY_MOUNT
  | USB_MSC_NOTIFY_MOUNT_FAIL
  | USB_MSC_NOTIFY_UMOUNT
  | USB_MSC_NOTIFY_UMOUNT_FAIL
  deriving DecidableEq

/-- A call that leaves the automounter. -/
inductive Call where
  | mount (devname : Devname) (result : MountResult)
  | umount (devname : Devname) (ok : Bool)
  | sys_notify_event (event : Notify) (devname : Devname)
  deriving DecidableEq

/-- The automounter, the work queue, and the history: `freed` lists the calls of `free`,
    `log` the calls that leave the automounter, each with the latest event of its device at
    that time, and `staleCallback` tells whether a worker was started on a freed object. -/
structure State where
  heap : Addr → AutomounterState
  next : Addr
  mounters : List Addr
  wq : WorkQueue (Addr × Dwork) Worker Addr
  freed : List Addr
  latest : Devname → Option Event
  log : List (Call × Option Event)
  staleCallback : Bool

/-- No device connected, no work queued. -/
def init : State where
  heap := fun _ => ⟨[], false, false, 0⟩
  next := 0
  mounters := []
  wq := .empty
  freed := []
  latest := fun _ => none
  log := []
  staleCallback := false

namespace State

/-- Write the object at `a`. -/
def write (s : State) (a : Addr) (v : AutomounterState) : State :=
  { s with heap := Function.update s.heap a v }

/-- Record a call made on behalf of the object at `a`. -/
def call (s : State) (a : Addr) (c : Devname → Call) : State :=
  { s with log := s.log ++ [(c (s.heap a).devname, s.latest (s.heap a).devname)] }

/-- `list_del_init(&state->list)` and `free(state)`. -/
def del_free (s : State) (a : Addr) : State :=
  { s with mounters := s.mounters.erase a, freed := s.freed ++ [a] }

/-- `malloc`, `memset`, `memcpy` and `list_add_tail`: a zeroed object for `devname`. -/
def malloc (s : State) (devname : Devname) : State :=
  { s.write s.next ⟨devname, false, false, 0⟩ with
    next := s.next + 1
    mounters := s.mounters ++ [s.next] }

/-- `work_queue(LPWORK, work, worker, (void *)state, delay)`. -/
def work_queue (s : State) (work : Addr × Dwork) (worker : Worker) (delay : Nat) : State :=
  { s with wq := s.wq.work_qqueue work worker work.1 delay }

end State

/-- `automount_find`. -/
def automount_find (s : State) (devname : Devname) : Option Addr :=
  s.mounters.find? fun a => decide ((s.heap a).devname = devname)

/-- `automount_schedule_retry`. -/
def automount_schedule_retry (s : State) (a : Addr) : State :=
  if (s.heap a).mounted then s
  else if (s.heap a).mount_attempts ≥ AUTOMOUNT_MAX_RETRIES then s
  else if s.wq.work_available (a, .mount_dwork) then
    s.work_queue (a, .mount_dwork) .automount_mount_retry AUTOMOUNT_RETRY_DELAY
  else s

/-- The `mounted:` label of `automount_try_mount`. -/
def mountedLabel (s : State) (a : Addr) : State :=
  (s.write a { s.heap a with mounted := true, notify_umount := false, mount_attempts := 0 }).call a
    (.sys_notify_event .USB_MSC_NOTIFY_MOUNT)

/-- `automount_try_mount`. Its callers drop the return value. -/
def automount_try_mount (s : State) (a : Addr) (r : MountResults) : State :=
  if (s.heap a).devname = [] then s
  else
    let s := s.write a { s.heap a with mount_attempts := (s.heap a).mount_attempts + 1 }
    let s := s.call a (.mount · r.vfat)
    match r.vfat with
    | .ok => mountedLabel s a
    | .fail vfat_errno =>
      if vfat_errno = EBUSY then mountedLabel s a
      else
        let s := s.call a (.mount · r.ntfs)
        match r.ntfs with
        | .ok => mountedLabel s a
        | .fail ntfs_errno =>
          if ntfs_errno = EBUSY then mountedLabel s a
          else
            let s := s.call a (.sys_notify_event .USB_MSC_NOTIFY_MOUNT_FAIL)
            automount_schedule_retry s a

/-- `automount_mount_retry`. -/
def automount_mount_retry (s : State) (a : Addr) (r : MountResults) : State :=
  if (s.heap a).mounted then s else automount_try_mount s a r

/-- The first part of `autoumount_fs`: the umount is announced once for each mount. -/
def announceUmount (s : State) (a : Addr) : State :=
  if (s.heap a).notify_umount = false then
    let s := s.call a (.sys_notify_event .USB_MSC_NOTIFY_UMOUNT)
    s.write a { s.heap a with notify_umount := true }
  else s

/-- `autoumount_fs`; `umount` answers `umountOk`. -/
def autoumount_fs (s : State) (a : Addr) (umountOk : Bool) : State :=
  let s := announceUmount s a
  let s := s.call a (.umount · umountOk)
  if umountOk = false then
    let s := s.call a (.sys_notify_event .USB_MSC_NOTIFY_UMOUNT_FAIL)
    if s.wq.work_available (a, .umount_dwork) then
      s.work_queue (a, .umount_dwork) .autoumount_fs 2000
    else s
  else s.del_free a

/-- `automount_fs`: a CONNECT notification. `info` is `none` for a NULL pointer. -/
def automount_fs (s : State) (info : Option Devname) (mallocOk : Bool) (r : MountResults) :
    State :=
  match info with
  | none | some [] => s
  | some devname =>
    match automount_find s devname with
    | some a =>
      if (s.heap a).mounted then s.call a (.sys_notify_event .USB_MSC_NOTIFY_MOUNT)
      else automount_try_mount s a r
    | none =>
      if mallocOk = false then s
      else automount_try_mount (s.malloc devname) s.next r

/-- `automount_disconnect`: a DISCONNECT notification. -/
def automount_disconnect (s : State) (info : Option Devname) (umountOk : Bool) : State :=
  match info with
  | none | some [] => s
  | some devname =>
    match automount_find s devname with
    | none => s
    | some a =>
      let s := { s with wq := s.wq.work_qcancel (a, .mount_dwork) }
      if (s.heap a).mounted = false then s.del_free a
      else autoumount_fs s a umountOk

/-- The worker function, called with its argument. -/
def callWorker (worker : Worker) (s : State) (a : Addr) (r : MountResults) (umountOk : Bool) :
    State :=
  match worker with
  | .automount_mount_retry => automount_mount_retry s a r
  | .autoumount_fs => autoumount_fs s a umountOk

/-- One step of the system, with the answers of the calls it may make. -/
inductive Action where
  | connect (info : Option Devname) (mallocOk : Bool) (r : MountResults)
  | disconnect (info : Option Devname) (umountOk : Bool)
  /-- The delay of a queued work is over, and the worker thread takes it. -/
  | fire (work : Addr × Dwork) (r : MountResults) (umountOk : Bool)

/-- Record a named event as the latest one of its device. -/
def State.event (s : State) (info : Option Devname) (e : Event) : State :=
  match info with
  | none | some [] => s
  | some devname => { s with latest := Function.update s.latest devname (some e) }

/-- The step function: `automount_notify`, and `work_process` on the works of the
    automounter. -/
def step (s : State) : Action → Option State
  | .connect info mallocOk r => some (automount_fs (s.event info .connect) info mallocOk r)
  | .disconnect info umountOk =>
    some (automount_disconnect (s.event info .disconnect) info umountOk)
  | .fire work r umountOk =>
    match s.wq.take work with
    | none => none
    | some (worker, arg, wq) =>
      match arg with
      | none => none
      | some a =>
        let s := { s with wq := wq, staleCallback := s.staleCallback || decide (a ∈ s.freed) }
        let s := callWorker worker s a r umountOk
        some { s with wq := s.wq.finish work }

/-- The lifetime rule: no worker was started on a freed object, the queue holds no work of a
    freed object, and no object was freed twice. -/
structure Lifetime (s : State) : Prop where
  callback : s.staleCallback = false
  queue : ∀ w ∈ s.wq.q, w.1 ∉ s.freed
  once : s.freed.Nodup

/-- A logged call agrees with the latest event of its device: no umount after a CONNECT, no
    mount after a DISCONNECT. -/
def Agrees : Call × Option Event → Prop
  | (.umount _ ok, e) => ok = true → e ≠ some .connect
  | (.mount _ result, e) => result = .ok → e ≠ some .disconnect
  | _ => True

end Hcrtos.Native.Automount
