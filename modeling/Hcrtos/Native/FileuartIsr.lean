import Hcrtos.ForStd.Word
import Hcrtos.Native.Fileuart

/-!
# The file UART under interrupts

`fileuart_write` does not take the semaphore when it is called from an interrupt. The holder
of the semaphore, a task inside `fileuart_enqueue_byte` or `fileuart_flush_locked`, is
therefore broken into the loads and stores of the ring fields that the source performs, and
an interrupt write runs as a whole between any two of them.
-/

namespace Hcrtos.Native.FileuartIsr

open Fileuart Word

/-- What the holder of the semaphore does next, with the values it has loaded. -/
inductive Pc where
  /-- The semaphore is free. -/
  | idle
  /-- In `fileuart_enqueue_byte`: `ch` is the current byte, `todo` are the ones after it. -/
  | loadWt (todo : List UInt8)
  | storeWt (w : Nat) (ch : UInt8) (todo : List UInt8)
  | storeBuf (w : Nat) (ch : UInt8) (todo : List UInt8)
  | loadWtMod (todo : List UInt8)
  | storeWtMod (w : Nat) (todo : List UInt8)
  | testCount (todo : List UInt8)
  | loadCount (todo : List UInt8)
  | storeCount (c : Nat) (todo : List UInt8)
  | loadRd (todo : List UInt8)
  | storeRd (r : Nat) (todo : List UInt8)
  | loadRdMod (todo : List UInt8)
  | storeRdMod (r : Nat) (todo : List UInt8)
  /-- In `fileuart_flush_locked`. -/
  | flushTest
  | flushOpen
  | flushLoop
  | compareRd
  | compareWt (r : Nat)
  | chunkWt
  | chunkRd (w : Nat)
  | chunkTail
  | clipTest (chunk : Nat)
  | clipCount
  | writeRd (chunk : Nat)
  | writeCall (r chunk : Nat)
  | advanceLoadRd (written chunk : Nat)
  | advanceStoreRd (r written chunk : Nat)
  | advanceLoadCount (written chunk : Nat)
  | advanceStoreCount (c written chunk : Nat)
  | advanceDirty (written chunk : Nat)
  | flushSync
  deriving DecidableEq

/-- The device, the position of the semaphore's holder, the bytes `write` accepted so far, and
    the bytes that were given a cell of the ring so far. -/
structure State where
  dev : FileuartDev
  pc : Pc
  file : List UInt8
  accepted : List UInt8

def init : State := ⟨FileuartDev.init, .idle, [], []⟩

/-- The next load or store of the holder; `answer` is what a call made by it returns. -/
def taskStep (s : State) (answer : Int) : Option State :=
  let g := s.dev
  match s.pc with
  | .idle => none
  -- g_dev.tx_buf[g_dev.tx_wt++] = ch;
  | .loadWt [] => some { s with pc := .idle }
  | .loadWt (ch :: todo) => some { s with pc := .storeWt g.tx_wt ch todo }
  | .storeWt w ch todo =>
    -- the byte has its cell from here on
    some { s with
      dev := { g with tx_wt := w + 1 }
      pc := .storeBuf w ch todo
      accepted := s.accepted ++ [ch] }
  | .storeBuf w ch todo =>
    some { s with
      dev := { g with tx_buf := Function.update g.tx_buf w ch }
      pc := .loadWtMod todo }
  -- g_dev.tx_wt %= CONFIG_FILEUART_TX_BUF_SIZE;
  | .loadWtMod todo => some { s with pc := .storeWtMod g.tx_wt todo }
  | .storeWtMod w todo =>
    some { s with
      dev := { g with tx_wt := w % CONFIG_FILEUART_TX_BUF_SIZE }
      pc := .testCount todo }
  -- if (g_dev.tx_count < CONFIG_FILEUART_TX_BUF_SIZE)
  | .testCount todo =>
    if g.tx_count < CONFIG_FILEUART_TX_BUF_SIZE then some { s with pc := .loadCount todo }
    else some { s with pc := .loadRd todo }
  | .loadCount todo => some { s with pc := .storeCount g.tx_count todo }
  | .storeCount c todo =>
    some { s with dev := { g with tx_count := c + 1 }, pc := .loadWt todo }
  | .loadRd todo => some { s with pc := .storeRd g.tx_rd todo }
  | .storeRd r todo =>
    some { s with dev := { g with tx_rd := r + 1 }, pc := .loadRdMod todo }
  | .loadRdMod todo => some { s with pc := .storeRdMod g.tx_rd todo }
  | .storeRdMod r todo =>
    some { s with
      dev := { g with tx_rd := r % CONFIG_FILEUART_TX_BUF_SIZE }
      pc := .loadWt todo }
  -- if (g_dev.tx_count == 0 || fileuart_open_mounted_log_locked() != 0)
  | .flushTest =>
    if g.tx_count = 0 then some { s with pc := .idle } else some { s with pc := .flushOpen }
  | .flushOpen =>
    let (g, opened) := fileuart_open_mounted_log_locked g answer
    some { s with dev := g, pc := if opened then .flushLoop else .idle }
  -- while (g_dev.fd >= 0 && g_dev.tx_count > 0)
  | .flushLoop =>
    if g.fd ≥ 0 ∧ g.tx_count > 0 then some { s with pc := .compareRd }
    else some { s with pc := .flushSync }
  -- if (g_dev.tx_rd < g_dev.tx_wt)
  | .compareRd => some { s with pc := .compareWt g.tx_rd }
  | .compareWt r =>
    if r < g.tx_wt then some { s with pc := .chunkWt } else some { s with pc := .chunkTail }
  | .chunkWt => some { s with pc := .chunkRd g.tx_wt }
  | .chunkRd w => some { s with pc := .clipTest (sub32 w g.tx_rd) }
  | .chunkTail =>
    some { s with pc := .clipTest (sub32 CONFIG_FILEUART_TX_BUF_SIZE g.tx_rd) }
  -- if (chunk > g_dev.tx_count)
  | .clipTest chunk =>
    if chunk > g.tx_count then some { s with pc := .clipCount }
    else some { s with pc := .writeRd chunk }
  | .clipCount => some { s with pc := .writeRd g.tx_count }
  -- written = write(g_dev.fd, g_dev.tx_buf + g_dev.tx_rd, chunk);
  | .writeRd chunk => some { s with pc := .writeCall g.tx_rd chunk }
  | .writeCall r chunk =>
    if answer > chunk then none
    else if answer ≤ 0 then
      some { s with dev := fileuart_close_log_locked g false, pc := .idle }
    else
      some { s with
        pc := .advanceLoadRd answer.toNat chunk
        file := s.file ++ bytesAt g r answer.toNat }
  -- g_dev.tx_rd = (g_dev.tx_rd + (uint32_t)written) % CONFIG_FILEUART_TX_BUF_SIZE;
  | .advanceLoadRd written chunk => some { s with pc := .advanceStoreRd g.tx_rd written chunk }
  | .advanceStoreRd r written chunk =>
    some { s with
      dev := { g with tx_rd := (r + written) % CONFIG_FILEUART_TX_BUF_SIZE }
      pc := .advanceLoadCount written chunk }
  -- g_dev.tx_count -= (uint32_t)written;
  | .advanceLoadCount written chunk =>
    some { s with pc := .advanceStoreCount g.tx_count written chunk }
  | .advanceStoreCount c written chunk =>
    some { s with
      dev := { g with tx_count := sub32 c written }
      pc := .advanceDirty written chunk }
  | .advanceDirty written chunk =>
    some { s with
      dev := { g with dirty_bytes := g.dirty_bytes + written }
      pc := if written < chunk then .flushSync else .flushLoop }
  | .flushSync =>
    if g.fd ≥ 0 ∧ g.dirty_bytes ≥ FILEUART_SYNC_INTERVAL_BYTES then
      if answer = 0 then some { s with dev := { g with dirty_bytes := 0 }, pc := .idle }
      else some { s with dev := fileuart_close_log_locked g false, pc := .idle }
    else some { s with pc := .idle }

/-- A step of the system. Operations start when the semaphore is free; those that do not
    touch the ring are one step. -/
inductive Action where
  /-- `fileuart_write` called from an interrupt. -/
  | interrupt (buf : List UInt8)
  /-- `fileuart_write` called from a task. -/
  | startWrite (buf : List UInt8)
  /-- `fileuart_delayed_work`. -/
  | startFlush
  | mount (dev : Option CString)
  | umount (dev : Option CString)
  | setSuspended (suspended : Bool)
  | task (answer : Int)

/-- The step function. -/
def step (s : State) : Action → Option State
  | .interrupt buf =>
    some { s with
      dev := fileuart_enqueue s.dev buf
      accepted := s.accepted ++ expand buf }
  | .startWrite buf =>
    if s.pc = .idle then some { s with pc := .loadWt (expand buf) } else none
  | .startFlush =>
    if s.pc = .idle then
      if s.dev.suspend_depth = 0 then some { s with pc := .flushTest } else some s
    else none
  | .mount dev =>
    if s.pc = .idle then some { s with dev := fileuart_mount_locked s.dev dev } else none
  | .umount dev =>
    if s.pc = .idle then some { s with dev := fileuart_umount_locked s.dev dev } else none
  | .setSuspended suspended =>
    if s.pc = .idle then some { s with dev := fileuart_suspend_locked s.dev suspended }
    else none
  | .task answer => taskStep s answer

end Hcrtos.Native.FileuartIsr
