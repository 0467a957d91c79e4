import Mathlib.Logic.Function.Basic
import Hcrtos.ForStd.Memory
import Hcrtos.ForStd.Word

/-!
# Shared-memory message rings

`kshm.c`. A `size_t` is a natural number below `2 ^ 32`, and its sums and differences are
reduced. Cache maintenance, and the two counters that only select it, have no effect on what
is read and written and are left out.
-/

namespace Hcrtos.Native.Kshm

open Word Memory

/-- `ROUNDUP(a, 32)`: the `&` clears the five low bits of the sum. -/
def ROUNDUP32 (a : Nat) : Nat := add32 a 31 / 32 * 32

/-- `struct kshm_cfg`: a buffer that `memalign` returned. Addresses of the kernel are in the
    upper half of the address space, so it is not longer than that. -/
structure KshmCfg where
  base : Nat
  size : Nat
  dma_ch : Int
  size_pos : 0 < size
  size_aligned : size % 32 = 0
  base_kernel : 2 ^ 31 ≤ base
  base_end : base + size ≤ 2 ^ 32

/-- `struct kshm_desc`. -/
structure KshmDesc where
  rd : Fin 2 → Nat
  wt : Fin 2 → Nat
  reserved : Fin 2 → Nat
  index : Fin 2
  dma_xfer_id : Int
  update_write_size : Nat

/-- The descriptor after `kshm_create`. -/
def KshmDesc.init : KshmDesc where
  rd := fun _ => 0
  wt := fun _ => 0
  reserved := fun _ => 0
  index := 0
  dma_xfer_id := -1
  update_write_size := 0

/-- `kshm_special_reset`. -/
def kshm_special_reset (d : KshmDesc) : KshmDesc :=
  let index := 1 - d.index
  { d with
    rd := Function.update d.rd index 0
    wt := Function.update d.wt index 0
    reserved := Function.update d.reserved index 0
    index := index }

/-- `kshm_request_read`; `none` is NULL. -/
def kshm_request_read (cfg : KshmCfg) (d : KshmDesc) (size : Nat) : Option Nat :=
  if size = 0 then none
  else
    let size := ROUNDUP32 size
    let wt := d.wt d.index
    let rd := d.rd d.index
    let avail := if wt ≥ rd then sub32 wt rd else max (sub32 cfg.size rd) wt
    if avail < size then none
    else if add32 rd size > cfg.size then some cfg.base  -- loop back
    else some (add32 cfg.base rd)

/-- The new value of an index in `kshm_update_read` and `kshm_update_write`. -/
def advance (cfg : KshmCfg) (i size : Nat) : Nat :=
  if add32 i size > cfg.size then size
  else
    let i := add32 i size
    if i = cfg.size then 0 else i

/-- `kshm_update_read`. -/
def kshm_update_read (cfg : KshmCfg) (d : KshmDesc) (size : Nat) : KshmDesc :=
  let size := ROUNDUP32 size
  { d with rd := Function.update d.rd d.index (advance cfg (d.rd d.index) size) }

/-- `kshm_update_reserved`. -/
def kshm_update_reserved (d : KshmDesc) (size : Nat) : KshmDesc :=
  { d with reserved := Function.update d.reserved d.index (ROUNDUP32 size) }

/-- The free cells behind `wt`, and those at the start of the buffer. -/
def tailHead (cfg : KshmCfg) (d : KshmDesc) : Nat × Nat :=
  let rd := d.rd d.index
  let wt := d.wt d.index
  if wt ≥ rd then (sub32 cfg.size wt, rd) else (sub32 rd wt, 0)

/-- The outcome of the first test of `kshm_request_write`. -/
inductive Room where
  /-- There may be room. -/
  | enough
  /-- There is none. -/
  | none
  /-- There is none although the ring is empty, and `kshm_special_reset` makes it. -/
  | afterReset
  deriving DecidableEq

/-- The first test of `kshm_request_write`, for a rounded size. -/
def room (cfg : KshmCfg) (d : KshmDesc) (size : Nat) : Room :=
  let (tail, head) := tailHead cfg d
  let reserved := d.reserved d.index
  if head < add32 reserved size ∧ tail < add32 reserved size then
    if d.rd d.index = d.wt d.index then
      if size > cfg.size then .none else .afterReset
    else .none
  else .enough

/-- `kshm_request_write`: the descriptor afterwards, and the pointer it returns. -/
def kshm_request_write (cfg : KshmCfg) (d : KshmDesc) (size : Nat) : KshmDesc × Option Nat :=
  if size = 0 then (d, none)
  else
    let size := ROUNDUP32 size
    let (tail, head) := tailHead cfg d
    let wt := d.wt d.index
    match room cfg d size with
    | .none => (d, none)
    | .afterReset => (kshm_special_reset d, some cfg.base)
    | .enough =>
      if tail > size then (d, some (add32 cfg.base wt))
      else if tail = size ∧ head > 0 then (d, some (add32 cfg.base wt))
      else if head > size then (d, some cfg.base)
      else (d, none)

/-- `kshm_update_write`. -/
def kshm_update_write (cfg : KshmCfg) (d : KshmDesc) (size : Nat) : KshmDesc :=
  if size = 0 then d
  else
    let size := ROUNDUP32 size
    { d with wt := Function.update d.wt d.index (advance cfg (d.wt d.index) size) }

/-- `kshm_read`: the descriptor, and the bytes copied to the caller's buffer; `none` is
    `KSHM_FAIL`. -/
def kshm_read (cfg : KshmCfg) (d : KshmDesc) (m : Mem) (size : Nat) :
    KshmDesc × Option (List UInt8) :=
  if size = 0 then (d, none)
  else
    match kshm_request_read cfg d size with
    | none => (d, none)
    | some request => (kshm_update_read cfg d size, some (bytesAt m request size))

/-- `kshm_write`: the descriptor, the memory, and whether the size was returned instead of
    `KSHM_FAIL`. `xfer` is what `dma_copy` returns: on `-1` nothing was copied, and otherwise
    the copy is complete after `dma_wait`. -/
def kshm_write (cfg : KshmCfg) (d : KshmDesc) (m : Mem) (buf : List UInt8) (xfer : Int) :
    KshmDesc × Mem × Bool :=
  let size := buf.length
  if size = 0 then (d, m, false)
  else
    match kshm_request_write cfg d size with
    | (d, none) => (d, m, false)
    | (d, some request) =>
      if size < 512 ∨ cfg.dma_ch = -1 then
        (kshm_update_write cfg d size, memcpy m request buf, true)
      else
        let d := { d with dma_xfer_id := xfer, update_write_size := size }
        if d.dma_xfer_id ≠ -1 then
          let m := memcpy m request buf
          let d := kshm_update_write cfg d d.update_write_size
          ({ d with dma_xfer_id := -1 }, m, true)
        else (d, m, true)

/-- `kshm_get_valid_size`. -/
def kshm_get_valid_size (cfg : KshmCfg) (d : KshmDesc) : Nat :=
  let wt := d.wt d.index
  let rd := d.rd d.index
  if wt ≥ rd then sub32 wt rd else max (sub32 cfg.size rd) wt

/-- `kshm_get_free_size`. -/
def kshm_get_free_size (cfg : KshmCfg) (d : KshmDesc) : Nat :=
  let (tail, head) := tailHead cfg d
  sub32 (max head tail) 1

end Hcrtos.Native.Kshm
