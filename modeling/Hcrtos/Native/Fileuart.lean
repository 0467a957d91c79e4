import Mathlib.Data.List.Basic
import Hcrtos.ForStd.Lts
import Hcrtos.Native.WorkQueue

/-!
# The file UART

`fileuart.c`: log bytes are collected in a ring and written to `log.txt` of the mounted
storage by a delayed work. Every operation takes the semaphore for its whole critical part,
so one operation is one step here; what `open`, `write` and `fsync` answer is part of the
label.
-/

namespace Hcrtos.Native.Fileuart

def CONFIG_FILEUART_TX_BUF_SIZE : Nat := 65536
def FILEUART_SYNC_INTERVAL_BYTES : Nat := 64 * 1024
def FILEUART_FLUSH_DELAY_TICKS : Nat := 100
def DISK_NAME_LEN : Nat := 32

/-- A C string: its bytes before the terminator. -/
abbrev CString := List UInt8

/-- `struct fileuart_dev`. The work is in `State.wq`; cells of `tx_buf` from the ring size on
    are the memory behind the array. -/
structure FileuartDev where
  fd : Int
  tx_buf : Nat → UInt8
  devname : CString
  tx_rd : Nat
  tx_wt : Nat
  tx_count : Nat
  dirty_bytes : Nat
  suspend_depth : UInt32

/-- `g_dev` after `fileuart_driver_probe`. -/
def FileuartDev.init : FileuartDev where
  fd := -1
  tx_buf := fun _ => 0
  devname := []
  tx_rd := 0
  tx_wt := 0
  tx_count := 0
  dirty_bytes := 0
  suspend_depth := 0

/-- `fileuart_close_log_locked`. -/
def fileuart_close_log_locked (g : FileuartDev) (clear_mount : Bool) : FileuartDev :=
  { g with
    fd := -1
    dirty_bytes := 0
    devname := if clear_mount then [] else g.devname }

/-- `fileuart_open_mounted_log_locked`: the device afterwards, and whether the log is open.
    `open` answers `fd`. -/
def fileuart_open_mounted_log_locked (g : FileuartDev) (fd : Int) : FileuartDev × Bool :=
  if g.suspend_depth > 0 then (g, false)
  else if g.fd ≥ 0 then (g, true)
  else if g.devname = [] then (g, false)
  else if fd < 0 then ({ g with fd := fd }, false)
  else ({ g with fd := fd, dirty_bytes := 0 }, true)

/-- `fileuart_enqueue_byte`. -/
def fileuart_enqueue_byte (g : FileuartDev) (ch : UInt8) : FileuartDev :=
  let g := { g with
    tx_buf := Function.update g.tx_buf g.tx_wt ch
    tx_wt := (g.tx_wt + 1) % CONFIG_FILEUART_TX_BUF_SIZE }
  if g.tx_count < CONFIG_FILEUART_TX_BUF_SIZE then
    { g with tx_count := g.tx_count + 1 }
  else
    { g with tx_rd := (g.tx_rd + 1) % CONFIG_FILEUART_TX_BUF_SIZE }

/-- The bytes that `fileuart_enqueue` puts into the ring: `'\r'` before each `'\n'`. -/
def expand (buf : List UInt8) : List UInt8 :=
  buf.flatMap fun ch => if ch = 10 then [13, ch] else [ch]

/-- `fileuart_enqueue`. -/
def fileuart_enqueue (g : FileuartDev) (buf : List UInt8) : FileuartDev :=
  buf.foldl (fun g ch =>
    let g := if ch = 10 then fileuart_enqueue_byte g 13 else g
    fileuart_enqueue_byte g ch) g

/-- The number of bytes the next `write` of a flush is given. -/
def chunkSize (g : FileuartDev) : Nat :=
  let chunk :=
    if g.tx_rd < g.tx_wt then g.tx_wt - g.tx_rd
    else CONFIG_FILEUART_TX_BUF_SIZE - g.tx_rd
  if chunk > g.tx_count then g.tx_count else chunk

/-- `len` bytes at `g_dev.tx_buf + off`. -/
def bytesAt (g : FileuartDev) (off len : Nat) : List UInt8 :=
  (List.range len).map fun i => g.tx_buf (off + i)

/-- The loop of `fileuart_flush_locked`. The list answers the calls of `write` in turn: a
    positive answer is cut to the length given to the call, and a call beyond the end of the
    list fails. The result is the device, the bytes that were handed to `write` successfully,
    and whether the loop was left by `return`. -/
def flushLoop (g : FileuartDev) (answers : List Int) : FileuartDev × List UInt8 × Bool :=
  if g.fd ≥ 0 ∧ g.tx_count > 0 then
    match answers with
    | [] => (fileuart_close_log_locked g false, [], true)
    | answer :: answers =>
      let chunk := chunkSize g
      if answer ≤ 0 ∨ chunk = 0 then (fileuart_close_log_locked g false, [], true)
      else
        let written := min answer.toNat chunk
        let data := bytesAt g g.tx_rd written
        let g := { g with
          tx_rd := (g.tx_rd + written) % CONFIG_FILEUART_TX_BUF_SIZE
          tx_count := g.tx_count - written
          dirty_bytes := g.dirty_bytes + written }
        if written < chunk then (g, data, false)
        else
          let (g, rest, returned) := flushLoop g answers
          (g, data ++ rest, returned)
  else (g, [], false)

/-- The answers of the calls one flush makes. -/
structure FlushAnswers where
  fd : Int
  writes : List Int
  fsync : Int

/-- `fileuart_flush_locked`: the device, and the bytes handed to `write` successfully. -/
def fileuart_flush_locked (g : FileuartDev) (r : FlushAnswers) : FileuartDev × List UInt8 :=
  if g.tx_count = 0 then (g, [])
  else
    let (g, opened) := fileuart_open_mounted_log_locked g r.fd
    if opened = false then (g, [])
    else
      let (g, data, returned) := flushLoop g r.writes
      if returned then (g, data)
      else if g.fd ≥ 0 ∧ g.dirty_bytes ≥ FILEUART_SYNC_INTERVAL_BYTES then
        if r.fsync = 0 then ({ g with dirty_bytes := 0 }, data)
        else (fileuart_close_log_locked g false, data)
      else (g, data)

/-- `strncmp(a, b, n) == 0`. -/
def strncmpEq (a b : CString) (n : Nat) : Bool := a.take n == b.take n

/-- `fileuart_mount_locked`; `dev` is `none` for a NULL pointer. -/
def fileuart_mount_locked (g : FileuartDev) (dev : Option CString) : FileuartDev :=
  match dev with
  | none | some [] => g
  | some dev =>
    let g :=
      if g.devname ≠ [] ∧ strncmpEq g.devname dev DISK_NAME_LEN = false then
        fileuart_close_log_locked g true
      else g
    { g with devname := dev.take (DISK_NAME_LEN - 1) }

/-- `fileuart_matches_mount_locked`. -/
def fileuart_matches_mount_locked (g : FileuartDev) (dev : Option CString) : Bool :=
  match dev with
  | none => false
  | some dev => if g.devname = [] then false else strncmpEq g.devname dev DISK_NAME_LEN

/-- The locked part of the UMOUNT notification. -/
def fileuart_umount_locked (g : FileuartDev) (dev : Option CString) : FileuartDev :=
  if fileuart_matches_mount_locked g dev then fileuart_close_log_locked g true else g

/-- The locked part of `fileuart_set_storage_suspended`. -/
def fileuart_suspend_locked (g : FileuartDev) (suspended : Bool) : FileuartDev :=
  if suspended then
    fileuart_close_log_locked { g with suspend_depth := g.suspend_depth + 1 } false
  else if g.suspend_depth > 0 then { g with suspend_depth := g.suspend_depth - 1 }
  else g

/-- The device, its work on the queue, and the bytes that `write` accepted so far. -/
structure State where
  dev : FileuartDev
  wq : WorkQueue Unit Unit Unit
  file : List UInt8

/-- The driver after its probe. -/
def init : State := ⟨FileuartDev.init, .empty, []⟩

/-- `fileuart_schedule_flush`. -/
def fileuart_schedule_flush (s : State) : State :=
  if s.dev.suspend_depth = 0 ∧ s.dev.devname ≠ [] ∧ s.wq.work_available () then
    { s with wq := s.wq.work_qqueue () () () FILEUART_FLUSH_DELAY_TICKS }
  else s

/-- The condition under which an operation schedules a flush at its end. -/
def wantsFlush (g : FileuartDev) : Bool :=
  g.suspend_depth = 0 ∧ g.tx_count > 0 ∧ g.devname ≠ []

/-- `fileuart_delayed_work`. -/
def fileuart_delayed_work (s : State) (r : FlushAnswers) : State :=
  let (dev, data) :=
    if s.dev.suspend_depth = 0 then fileuart_flush_locked s.dev r else (s.dev, [])
  let s := { s with dev := dev, file := s.file ++ data }
  if wantsFlush s.dev then fileuart_schedule_flush s else s

/-- `fileuart_write`. -/
def fileuart_write (s : State) (buf : List UInt8) : State :=
  fileuart_schedule_flush { s with dev := fileuart_enqueue s.dev buf }

/-- `fileuart_set_storage_suspended`. -/
def fileuart_set_storage_suspended (s : State) (suspended : Bool) : State :=
  let s := { s with dev := fileuart_suspend_locked s.dev suspended }
  if wantsFlush s.dev then fileuart_schedule_flush s else s

/-- One operation of a serialised run. -/
inductive Action where
  | write (buf : List UInt8)
  /-- The delay of the queued work is over, and the worker thread takes it. -/
  | flush (r : FlushAnswers)
  | mount (dev : Option CString)
  | umount (dev : Option CString)
  | setSuspended (suspended : Bool)

/-- The step function. -/
def step (s : State) : Action → Option State
  | .write buf => some (fileuart_write s buf)
  | .flush r =>
    match s.wq.take () with
    | none => none
    | some (_, _, wq) =>
      let s := fileuart_delayed_work { s with wq := wq } r
      some { s with wq := s.wq.finish () }
  | .mount dev =>
    some (fileuart_schedule_flush { s with dev := fileuart_mount_locked s.dev dev })
  | .umount dev => some { s with dev := fileuart_umount_locked s.dev dev }
  | .setSuspended suspended => some (fileuart_set_storage_suspended s suspended)

/-- The newline-expanded stream of the writes of a run. -/
def accepted (tr : List Action) : List UInt8 :=
  tr.flatMap fun
    | .write buf => expand buf
    | _ => []

end Hcrtos.Native.Fileuart
