import Mathlib.Logic.Function.Basic
import Hcrtos.ForStd.IntrusiveList
import Hcrtos.ForStd.Word

/-!
# The pool allocator

`kernel/source/lib/libc/alloc.c`. Pointers and `size_t` are natural numbers below `2 ^ 32`,
and their sums, differences and products are reduced.

The memory is kept in three parts: the header of the pool, the block-info table, whose entries
beyond `info_size` stand for whatever follows it, and the bytes of everything else, among them
the `frag[]` heads behind the header and the `struct list` words of free fragments.

An operation returns `none` when an assertion of `__free` fails or a search does not come to
an end, and a pointer is an option whose `none` is NULL.
-/

namespace Hcrtos.Native.Alloc

open Word Memory IntrusiveList

def UINT_MAX : Nat := 2 ^ 32 - 1

def FINAL_FREE_BLOCKS : Nat := 8

/-! ### The block-info table -/

/-- `heap_info`: the words of the union. The accessors below name them for a busy and for a
    free block. -/
structure HeapInfo where
  status : Nat
  w1 : Nat
  w2 : Nat
  w3 : Nat
  deriving DecidableEq

namespace HeapInfo

/-- `busy.type`: zero for a large object, or the logarithm of the fragment size. -/
abbrev type (i : HeapInfo) : Nat := i.w1

/-- `busy.info.frag.nfree`. -/
abbrev nfree (i : HeapInfo) : Nat := i.w2

/-- `busy.info.frag.first`. -/
abbrev first (i : HeapInfo) : Nat := i.w3

/-- `busy.info.size`. -/
abbrev size (i : HeapInfo) : Nat := i.w2

/-- `free.size`. -/
abbrev freeSize (i : HeapInfo) : Nat := i.w1

/-- `free.next`. -/
abbrev next (i : HeapInfo) : Nat := i.w2

/-- `free.prev`. -/
abbrev prev (i : HeapInfo) : Nat := i.w3

end HeapInfo

/-- The entries, by block number. -/
abbrev Table := Nat → HeapInfo

namespace Table

def setStatus (t : Table) (b v : Nat) : Table := fun i =>
  let e := t i
  { e with status := if i = b then v else e.status }

def setW1 (t : Table) (b v : Nat) : Table := fun i =>
  let e := t i
  { e with w1 := if i = b then v else e.w1 }

def setW2 (t : Table) (b v : Nat) : Table := fun i =>
  let e := t i
  { e with w2 := if i = b then v else e.w2 }

def setW3 (t : Table) (b v : Nat) : Table := fun i =>
  let e := t i
  { e with w3 := if i = b then v else e.w3 }

abbrev setType (t : Table) (b v : Nat) : Table := t.setW1 b v

abbrev setNfree (t : Table) (b v : Nat) : Table := t.setW2 b v

abbrev setFirst (t : Table) (b v : Nat) : Table := t.setW3 b v

abbrev setSize (t : Table) (b v : Nat) : Table := t.setW2 b v

abbrev setFreeSize (t : Table) (b v : Nat) : Table := t.setW1 b v

abbrev setNext (t : Table) (b v : Nat) : Table := t.setW2 b v

abbrev setPrev (t : Table) (b v : Nat) : Table := t.setW3 b v

/-- `while (--blocks > 0)` the entry `block + blocks` becomes busy and says how far back the
    first block is. With `blocks = 0` the counter wraps and every entry is written. -/
def markTail (t : Table) (block blocks : Nat) : Table := fun i =>
  if i < 2 ^ 32 ∧ 0 < sub32 i block ∧ sub32 i block ≤ sub32 blocks 1 then
    { t i with status := 1, w1 := 0, w2 := sub32 0 (sub32 i block) }
  else t i

/-- The entries of a large object. -/
def setObject (t : Table) (block blocks : Nat) : Table :=
  let t := t.setStatus block 1
  let t := t.setType block 0
  let t := t.setSize block blocks
  t.markTail block blocks

/-- `while (--blocks > 0)` the entry `block + blocks` becomes free. -/
def clearTail (t : Table) (block blocks : Nat) : Table := fun i =>
  if i < 2 ^ 32 ∧ 0 < sub32 i block ∧ sub32 i block ≤ sub32 blocks 1 then
    { t i with status := 0 }
  else t i

/-! The list of free clusters. -/

/-- `while (i > block) i = info[i].free.prev`. -/
def backward (t : Table) (block : Nat) : Nat → Nat → Option Nat
  | 0, _ => none
  | fuel + 1, i => if i > block then t.backward block fuel (t i).prev else some i

/-- `do i = info[i].free.next while ((i > 0) && (i < block))`. -/
def forward (t : Table) (block : Nat) : Nat → Nat → Option Nat
  | 0, _ => none
  | fuel + 1, i =>
    let i := (t i).next
    if i > 0 ∧ i < block then t.forward block fuel i else some i

/-- The free cluster previous to `block`, searched from `index`. -/
def findPrev (t : Table) (fuel index block : Nat) : Option Nat :=
  if index > block then t.backward block fuel index
  else (t.forward block fuel index).map fun i => (t i).prev

/-- Links a block into the free list behind the cluster `i`. -/
def link (t : Table) (i block : Nat) : Table :=
  let t := t.setFreeSize block (t block).size
  let t := t.setNext block (t i).next
  let t := t.setPrev block i
  let t := t.setNext i block
  t.setPrev (t block).next block

/-- Coalesces a block with its predecessor `i`. -/
def coalescePrev (t : Table) (i block : Nat) : Table :=
  let t := t.setFreeSize i (add32 (t i).freeSize (t block).size)
  t.setFreeSize block 0

/-- Coalesces a block with its successor. -/
def coalesceNext (t : Table) (block : Nat) : Table :=
  let t := t.setFreeSize block (add32 (t block).freeSize (t (t block).next).freeSize)
  let t := t.setNext block (t (t block).next).next
  t.setPrev (t block).next block

/-- Takes a block off the list, in `__free`. -/
def unlink (t : Table) (block : Nat) : Table :=
  let t := t.setNext (t block).prev (t block).next
  t.setPrev (t block).next (t block).prev

/-- Removes the first `blocks` blocks of a cluster from the list, in `__malloc`; also the new
    `info_index`. -/
def take (t : Table) (block blocks : Nat) : Table × Nat :=
  if (t block).freeSize > blocks then
    let rest := add32 block blocks
    let t := t.setFreeSize rest (sub32 (t block).freeSize blocks)
    let t := t.setNext rest (t block).next
    let t := t.setPrev rest (t block).prev
    let t := t.setPrev (t block).next rest
    (t.setNext (t block).prev (t (t block).next).prev, rest)
  else
    let t := t.setPrev (t block).next (t block).prev
    let index := (t block).next
    (t.setNext (t block).prev index, index)

end Table

/-! ### The pool -/

/-- `struct pool_head` at the address `self`, with the contents of the info table and of the
    memory. -/
structure Pool where
  self : Nat
  base : Nat
  top : Nat
  ptr : Nat
  size : Nat
  info : Nat
  info_end : Nat
  info_size : Nat
  info_index : Nat
  info_limit : Nat
  chunks_used : Nat
  bytes_used : Nat
  chunks_free : Nat
  bytes_free : Nat
  blklog : Nat
  blksz : Nat
  table : Table
  mem : Mem

namespace Pool

/-- `&pool->frag[log]`: fifteen words come before the array. -/
def frag (p : Pool) (log : Nat) : Nat := p.self + 60 + 8 * log

def BLOCKIFY (p : Pool) (size : Nat) : Nat := sub32 (add32 size p.blksz) 1 / p.blksz

/-- The number of the block that holds an address. -/
def BLOCK (p : Pool) (A : Nat) : Nat := sub32 A p.base / p.blksz + 1

def ADDRESS (p : Pool) (B : Nat) : Nat := add32 p.base (mul32 (sub32 B 1) p.blksz)

/-- `__sbrk`. -/
def sbrk (p : Pool) (nbytes : Nat) : Pool × Option Nat :=
  if add32 p.ptr nbytes < p.top then ({ p with ptr := add32 p.ptr nbytes }, some p.ptr)
  else (p, none)

/-- `__align`. -/
def align (p : Pool) (size : Nat) : Pool × Option Nat :=
  if size = UINT_MAX then (p, none)
  else
    match p.sbrk size with
    | (p, none) => (p, none)
    | (p, some result) =>
      let adj := result % p.blksz
      if adj ≠ 0 then
        let adj := p.blksz - adj
        -- The second request may fail, and the region stays.
        ((p.sbrk adj).1, some (add32 result adj))
      else (p, some result)

/-! ### `__free` -/

/-- Gives the cluster at the end of the core back. -/
def giveBack (p : Pool) (block : Nat) : Pool :=
  let blocks := (p.table block).freeSize
  if blocks ≥ FINAL_FREE_BLOCKS ∧ add32 block blocks = p.info_limit ∧
      (p.sbrk 0).2 = some (p.ADDRESS (add32 block blocks)) then
    let bytes := mul32 blocks p.blksz
    let p := { p with info_limit := sub32 p.info_limit blocks }
    let p := (p.sbrk (sub32 0 bytes)).1
    { p with
      table := p.table.unlink block
      info_index := (p.table block).prev
      chunks_free := sub32 p.chunks_free 1
      bytes_free := sub32 p.bytes_free bytes }
  else { p with info_index := block }

/-- The block that was linked in after the cluster `i` is coalesced on both sides. -/
def linkBlock (p : Pool) (i block : Nat) : Pool × Nat :=
  let (p, block) :=
    if block = add32 i (p.table i).freeSize then
      ({ p with table := p.table.coalescePrev i block }, i)
    else
      ({ p with table := p.table.link i block, chunks_free := add32 p.chunks_free 1 }, block)
  if add32 block (p.table block).freeSize = (p.table block).next then
    ({ p with
      table := p.table.coalesceNext block
      chunks_free := sub32 p.chunks_free 1 }, block)
  else (p, block)

/-- `case 0` of `__free`. -/
def freeBlocks (p : Pool) (block : Nat) : Option Pool :=
  let bytes := mul32 (p.table block).size p.blksz
  let p := { p with
    chunks_used := sub32 p.chunks_used 1
    bytes_used := sub32 p.bytes_used bytes
    bytes_free := add32 p.bytes_free bytes
    table := (p.table.setStatus block 0).clearTail block (p.table block).size }
  -- A list has at most one node for each entry of the table.
  (p.table.findPrev (p.info_size + 2) p.info_index block).map fun i =>
    let (p, block) := p.linkBlock i block
    p.giveBack block

/-- The walk over the `k` free fragments of a block, before the fragment `ptr` is freed:
    whether no assertion fails. Links lead into the kernel's half of the address space. -/
def checkFrags (m : Mem) (ptr : Nat) : Nat → Nat → Bool
  | 0, _ => true
  | k + 1, a => ptr ≠ a && 2 ^ 31 ≤ a && checkFrags m ptr k (next m a)

/-- The address of the first free fragment of a block. -/
def firstFrag (p : Pool) (block : Nat) : Nat :=
  add32 (p.ADDRESS block) (mul32 (p.table block).first (2 ^ (p.table block).type))

/-- The assertions at the start of `__free`. -/
def checkFree (p : Pool) (ptr : Nat) : Bool :=
  let block := p.BLOCK ptr
  let i := p.table block
  !(ptr < p.base || ptr > p.ptr) && !(ptr ≥ p.info && ptr < p.info_end) && i.status = 1 &&
    if i.type = 0 then ptr = p.ADDRESS block && i.size < 2 ^ 31
    else ptr % 2 ^ i.type = 0 && checkFrags p.mem ptr i.nfree (p.firstFrag block)

/-- The number of fragments of a block. -/
def fragCount (p : Pool) (log : Nat) : Nat := p.blksz / 2 ^ log

/-- The `default` case of `__free`; `free` is `__free` itself. -/
def freeFrag (free : Pool → Nat → Option Pool) (p : Pool) (ptr : Nat) : Option Pool :=
  let block := p.BLOCK ptr
  let i := p.table block
  let type := i.type
  let p := { p with
    chunks_used := sub32 p.chunks_used 1
    bytes_used := sub32 p.bytes_used (2 ^ type)
    chunks_free := add32 p.chunks_free 1
    bytes_free := add32 p.bytes_free (2 ^ type) }
  let prev := p.firstFrag block
  if i.nfree = sub32 (p.fragCount type) 1 then
    -- All fragments of the block are free.
    let next := walk p.mem (p.fragCount type - 1) prev
    free { p with
      mem := unlink p.mem prev next
      table := (p.table.setType block 0).setSize block 1
      chunks_used := add32 p.chunks_used 1
      bytes_used := add32 p.bytes_used p.blksz
      chunks_free := sub32 p.chunks_free (p.fragCount type)
      bytes_free := sub32 p.bytes_free p.blksz } (p.ADDRESS block)
  else if i.nfree ≠ 0 then
    some { p with
      mem := insertAfter p.mem prev ptr
      table := p.table.setNfree block (add32 i.nfree 1) }
  else
    some { p with
      mem := insertAfter p.mem (p.frag type) ptr
      table := (p.table.setNfree block 1).setFirst block (ptr % p.blksz / 2 ^ type) }

/-- `__free`, where a fragment that completes its block calls `free` for the block. -/
def freeWith (free : Pool → Nat → Option Pool) (p : Pool) (ptr : Nat) : Option Pool :=
  if p.checkFree ptr then
    if (p.table (p.BLOCK ptr)).type = 0 then p.freeBlocks (p.BLOCK ptr)
    else p.freeFrag free ptr
  else none

/-- `__free`. The type of the block is zero in the inner call, which makes no other. -/
def free : Pool → Nat → Option Pool := freeWith (freeWith fun _ _ => none)

/-! ### `morecore` -/

/-- `while (block > newsize) newsize *= 2`: 32 doublings of a word leave zero. -/
def doubleSize (block : Nat) : Nat → Nat → Option Nat
  | 0, _ => none
  | fuel + 1, newsize =>
    if block > newsize then doubleSize block fuel (mul32 newsize 2) else some newsize

/-- The part of `morecore` that moves the info table, after the core was extended by `size`
    bytes at `result`, up to the block `block`. -/
def growInfo (p : Pool) (result size block : Nat) : Option (Pool × Option Nat) :=
  match doubleSize block 33 p.info_size with
  | none => none
  | some newsize =>
    match p.align (mul32 newsize 16) with
    | (p, none) => some ((p.sbrk (sub32 0 size)).1, none)
    | (p, some newinfo) =>
      let oldinfo := p.info
      let t : Table := fun i => if i < p.info_size then p.table i else ⟨0, 0, 0, 0⟩
      let t := t.setType (p.BLOCK oldinfo) 0
      let t := t.setSize (p.BLOCK oldinfo) (p.BLOCKIFY (mul32 p.info_size 16))
      let p := { p with
        table := t
        info := newinfo
        bytes_used := add32 p.bytes_used (mul32 newsize 16)
        chunks_used := add32 p.chunks_used 1 }
      match p.free oldinfo with
      | none => none
      | some p =>
        let block := p.BLOCK newinfo
        some ({ p with
          info_size := newsize
          info_end := add32 p.info (mul32 newsize 16)
          table := p.table.setObject block (p.BLOCKIFY (mul32 newsize 16))
          info_limit := block }, some result)

/-- `morecore`. -/
def morecore (p : Pool) (size : Nat) : Option (Pool × Option Nat) :=
  match p.align size with
  | (p, none) => some (p, none)
  | (p, some result) =>
    let block := p.BLOCK (add32 result size)
    if block > p.info_size then p.growInfo result size block
    else some ({ p with info_limit := block }, some result)

/-! ### `__malloc` -/

/-- The object starts at the listed cluster `block`. -/
def takeBlocks (p : Pool) (block blocks : Nat) : Pool × Option Nat :=
  let bytes := mul32 blocks p.blksz
  let (t, index) := p.table.take block blocks
  ({ p with
    table := t.setObject block blocks
    info_index := index
    chunks_free :=
      if (p.table block).freeSize > blocks then p.chunks_free else sub32 p.chunks_free 1
    chunks_used := add32 p.chunks_used 1
    bytes_used := add32 p.bytes_used bytes
    bytes_free := sub32 p.bytes_free bytes }, some (p.ADDRESS block))

/-- The object starts at the end of the core. -/
def newCore (p : Pool) (blocks : Nat) : Option (Pool × Option Nat) :=
  match p.morecore (mul32 blocks p.blksz) with
  | none => none
  | some (p, none) => some (p, none)
  | some (p, some result) =>
    some ({ p with
      table := p.table.setObject (p.BLOCK result) blocks
      chunks_used := add32 p.chunks_used 1
      bytes_used := add32 p.bytes_used (mul32 blocks p.blksz) }, some result)

/-- Whether the final free cluster `block` reaches the end of the core. -/
def endsCore (p : Pool) (block : Nat) : Prop :=
  let last := (p.table block).freeSize
  p.info_limit ≠ 0 ∧ add32 block last = p.info_limit ∧
    (p.sbrk 0).2 = some (p.ADDRESS (add32 block last))

instance (p : Pool) (block : Nat) : Decidable (p.endsCore block) := by
  unfold endsCore
  infer_instance

/-- `while (info[block].free.size < blocks)`, the search for a cluster. -/
def search (p : Pool) (blocks start : Nat) : Nat → Nat → Option (Pool × Option Nat)
  | 0, _ => none
  | fuel + 1, block =>
    if (p.table block).freeSize < blocks then
      let block := (p.table block).next
      if block = start then
        -- Need to get more from the system.
        let block := (p.table 0).prev
        let last := (p.table block).freeSize
        if p.endsCore block then
          (p.morecore (mul32 (sub32 blocks last) p.blksz)).bind fun (p, result) =>
            if result.isSome then
              let block := (p.table 0).prev
              let p := { p with
                table := p.table.setFreeSize block
                  (add32 (p.table block).freeSize (sub32 blocks last))
                bytes_free := add32 p.bytes_free (mul32 (sub32 blocks last) p.blksz) }
              p.search blocks start fuel block
            else p.newCore blocks
        else p.newCore blocks
      else p.search blocks start fuel block
    else some (p.takeBlocks block blocks)

/-- `__malloc` of one or more blocks. -/
def mallocBlocks (p : Pool) (size : Nat) : Option (Pool × Option Nat) :=
  p.search (p.BLOCKIFY size) p.info_index (p.info_size + 3) p.info_index

/-- `log = 1; --size; while ((size /= 2) != 0) ++log`: the binary digits of `size - 1`. -/
def fragLog (size : Nat) : Nat := Nat.log2 (size - 1) + 1

/-- The fragments `1` to `n` of the block at `result`, pushed in this order. -/
def pushFrags (m : Mem) (head result log : Nat) : Nat → Mem
  | 0 => m
  | n + 1 => insertAfter (pushFrags m head result log n) head (add32 result ((n + 1) * 2 ^ log))

/-- `__malloc` of a fragment; `malloc` is `__malloc` itself. -/
def mallocFrag (malloc : Pool → Nat → Option (Pool × Option Nat)) (p : Pool) (log : Nat) :
    Option (Pool × Option Nat) :=
  let next := IntrusiveList.next p.mem (p.frag log)
  if next ≠ 0 then
    let mem := unlink p.mem next (IntrusiveList.next p.mem next)
    let block := p.BLOCK next
    let nfree := sub32 (p.table block).nfree 1
    let first :=
      if nfree ≠ 0 then IntrusiveList.next mem next % p.blksz / 2 ^ log else UINT_MAX
    some ({ p with
      mem := mem
      table := (p.table.setNfree block nfree).setFirst block first
      chunks_used := add32 p.chunks_used 1
      bytes_used := add32 p.bytes_used (2 ^ log)
      chunks_free := sub32 p.chunks_free 1
      bytes_free := sub32 p.bytes_free (2 ^ log) }, some next)
  else
    match malloc p p.blksz with
    | none => none
    | some (p', none) => some (p', none)
    | some (p', some result) =>
      let n := p'.fragCount log - 1
      let block := p'.BLOCK result
      -- `info` was read before the call. If the table moved since, the entry is written in
      -- the memory that the old table had.
      let t := if p'.info = p.info then
          ((p'.table.setType block log).setNfree block n).setFirst block n
        else p'.table
      some ({ p' with
        mem := pushFrags p'.mem (p'.frag log) result log n
        table := t
        chunks_free := add32 p'.chunks_free n
        bytes_free := add32 p'.bytes_free (sub32 p'.blksz (2 ^ log))
        bytes_used := sub32 p'.bytes_used (sub32 p'.blksz (2 ^ log)) }, some result)

/-- `__malloc`, where a fragment calls `malloc` for a new block. -/
def mallocWith (malloc : Pool → Nat → Option (Pool × Option Nat)) (p : Pool) (size : Nat) :
    Option (Pool × Option Nat) :=
  if size = UINT_MAX then some (p, none)
  else
    let size := max size 8
    if size ≤ p.blksz / 2 then p.mallocFrag malloc (fragLog size) else p.mallocBlocks size

/-- `__malloc`. The inner call asks for a whole block and makes no other. -/
def malloc : Pool → Nat → Option (Pool × Option Nat) := mallocWith (mallocWith fun _ _ => none)

/-! ### `__realloc` -/

/-- The object at `block` again, after it was freed and no larger one was found. -/
def unfree (p : Pool) (block blocks : Nat) : Option Pool :=
  if p.info_index = block then (p.malloc (mul32 blocks p.blksz)).map fun r => r.1
  else
    match p.malloc (mul32 (sub32 block p.info_index) p.blksz) with
    | none => none
    | some (p, previous) =>
      match p.malloc (mul32 blocks p.blksz) with
      | none => none
      | some (p, _) => p.free (previous.getD 0)

/-- The pool after `__realloc` freed the object at `ptr`. -/
def released (p : Pool) (ptr : Nat) : Option Pool :=
  -- Without a limit, free does not return memory to the system.
  let oldlimit := p.info_limit
  (({ p with info_limit := 0 } : Pool).free ptr).map fun p => { p with info_limit := oldlimit }

/-- `__realloc` of a large object to a large one. -/
def reallocBlocks (p : Pool) (ptr size : Nat) : Option (Pool × Option Nat) :=
  let block := p.BLOCK ptr
  let blocks := p.BLOCKIFY size
  let old := (p.table block).size
  if blocks < old then
    let tail := add32 block blocks
    let t := p.table.setType tail 0
    let t := t.setSize tail (sub32 old blocks)
    let t := t.setSize block blocks
    let p := { p with table := t, chunks_used := add32 p.chunks_used 1 }
    (p.free (p.ADDRESS tail)).map fun p => (p, some ptr)
  else if blocks = old then some (p, some ptr)
  else
    match p.released ptr with
    | none => none
    | some p =>
      match p.malloc size with
      | none => none
      | some (p, none) => (p.unfree block old).map fun p => (p, none)
      | some (p, some result) =>
        let mem := if ptr ≠ result then
            memcpy p.mem result (bytesAt p.mem ptr (mul32 old p.blksz))
          else p.mem
        some ({ p with mem := mem }, some result)

/-- Copies `n` bytes of the object at `ptr` to the new one at `result` and frees the old one. -/
def moveTo (p : Pool) (ptr result n : Nat) : Option (Pool × Option Nat) :=
  let p := { p with mem := memcpy p.mem result (bytesAt p.mem ptr n) }
  (p.free ptr).map fun p => (p, some result)

/-- `__realloc`. -/
def realloc (p : Pool) (ptr size : Nat) : Option (Pool × Option Nat) :=
  let type := (p.table (p.BLOCK ptr)).type
  if type = 0 then
    if size ≤ p.blksz / 2 then
      match p.malloc size with
      | none => none
      | some (p, some result) => p.moveTo ptr result size
      | some (p, none) => p.reallocBlocks ptr size
    else p.reallocBlocks ptr size
  else if size > 2 ^ (type - 1) ∧ size ≤ 2 ^ type then some (p, some ptr)
  else
    match p.malloc size with
    | none => none
    | some (p, none) => some (p, none)
    | some (p, some result) => p.moveTo ptr result (min size (2 ^ type))

/-! ### `pool_init` -/

/-- `pool_init(start, size, blklog)`; `none` where the info table gets no memory. -/
def init (m : Mem) (start size blklog : Nat) : Option Pool :=
  let blksz := 2 ^ blklog
  let hsize := size / 2 ^ blklog
  let pool_head_sz := 60 + blklog * 8
  let size := sub32 size (start % 4)
  let start := add32 start 3 / 4 * 4
  let size := size / blksz * blksz
  let m := memcpy m start (List.replicate pool_head_sz 0)
  let p : Pool :=
    { self := start, base := 0, top := add32 start size, ptr := add32 start pool_head_sz,
      size := 0, info := 0, info_end := 0, info_size := hsize, info_index := 0,
      info_limit := 0, chunks_used := 0, bytes_used := 0, chunks_free := 0, bytes_free := 0,
      blklog := blklog, blksz := blksz, table := fun _ => ⟨0, 0, 0, 0⟩, mem := m }
  let hsize := mul32 hsize 16
  match p.align hsize with
  | (_, none) => none
  | (p, some info) =>
    let p := { p with
      info := info
      info_end := add32 info hsize
      base := info
      size := sub32 p.top info
      bytes_used := hsize
      chunks_used := 1 }
    some { p with table := p.table.setObject (p.BLOCK p.info) (p.BLOCKIFY hsize) }

end Pool

/-! ### Programs that use a pool -/

/-- The pool, and the live allocations with the sizes that were asked for. -/
structure State where
  pool : Pool
  live : List (Nat × Nat)

/-- The live allocations without the one at `ptr`. -/
def State.drop (s : State) (ptr : Nat) : List (Nat × Nat) := s.live.filter fun a => a.1 ≠ ptr

inductive Action where
  /-- `__malloc`. -/
  | malloc (size : Nat)
  /-- `__free` of a live allocation. -/
  | free (ptr : Nat)
  /-- `__realloc` of a live allocation. -/
  | realloc (ptr size : Nat)
  /-- The program writes into a live allocation, from the offset `off`. -/
  | write (ptr off : Nat) (bytes : List UInt8)

/-- One action. It is not enabled for pointers that are not live and for sizes that are no
    words, nor when it fails an assertion. -/
def step (s : State) : Action → Option State
  | .malloc size =>
    if size < 2 ^ 32 then
      (s.pool.malloc size).map fun
        | (p, none) => { s with pool := p }
        | (p, some ptr) => ⟨p, (ptr, size) :: s.live⟩
    else none
  | .free ptr =>
    if ptr ∈ s.live.map Prod.fst then (s.pool.free ptr).map fun p => ⟨p, s.drop ptr⟩ else none
  | .realloc ptr size =>
    if ptr ∈ s.live.map Prod.fst ∧ size < 2 ^ 32 then
      (s.pool.realloc ptr size).map fun
        | (p, none) => { s with pool := p }
        | (p, some result) => ⟨p, (result, size) :: s.drop ptr⟩
    else none
  | .write ptr off bytes =>
    if ∃ a ∈ s.live, a.1 = ptr ∧ off + bytes.length ≤ a.2 then
      some { s with pool := { s.pool with mem := memcpy s.pool.mem (ptr + off) bytes } }
    else none

/-! ### Allocation functions of the C library

`malloc`, `calloc` and `memalign` of `kernel/source/lib/libc/alloc.c` use the pool of the system
heap. The `mmz_` functions use the pool of an id, or that of the system heap where the id has
none. An operation returns `none` when an assertion fails, as those of the pools do. The
functions are those without `CONFIG_MEM_DEBUG_MONITOR`.
-/

section Api

open Word Memory

/-- `ALIGN(x, a)`. -/
def ALIGN (x a : Nat) : Nat := add32 x (sub32 a 1) &&& (UINT_MAX ^^^ sub32 a 1)

/-- `gMM`, with `CONFIG_MEM_NR_MMZ` pools for ids before that of the system heap. -/
structure Pools where
  NR_POOL_MMZ : Nat
  gMM : Nat → Option Pool

/-- `assert((((uint32_t)p) & mask) == 0)`. -/
def assertAligned {α : Type} (mask : Nat) (r : α × Option Nat) : Option (α × Option Nat) :=
  if r.2.getD 0 &&& mask = 0 then some r else none

/-- `memset` of the `n` bytes at `a` to zero. -/
def clear (m : Mem) (a n : Nat) : Mem := memcpy m a (List.replicate n 0)

namespace Pools

def ID_SYSMEM (g : Pools) : Nat := g.NR_POOL_MMZ

/-- The table after a call on the pool `gMM[i]`. -/
def put (g : Pools) (i : Nat) (p : Pool) : Pools :=
  { g with gMM := Function.update g.gMM i (some p) }

/-- A call on the pool `gMM[i]`. -/
def onPool (g : Pools) (i : Nat) (f : Pool → Option (Pool × Option Nat)) :
    Option (Pools × Option Nat) :=
  (g.gMM i).bind fun p => (f p).map fun r => (g.put i r.1, r.2)

/-- `__real_memset(ptr, 0, n)` where the allocation from `gMM[i]` succeeded. -/
def zeroed (i n : Nat) : Pools × Option Nat → Pools × Option Nat
  | (g, none) => (g, none)
  | (g, some ptr) =>
    let pool := (g.gMM i).map fun p => { p with mem := clear p.mem ptr n }
    ({ g with gMM := Function.update g.gMM i pool }, some ptr)

def malloc (g : Pools) (size : Nat) : Option (Pools × Option Nat) :=
  g.onPool g.ID_SYSMEM fun p => p.malloc size

def calloc (g : Pools) (nelem elsize : Nat) : Option (Pools × Option Nat) :=
  (g.malloc (mul32 nelem elsize)).map (zeroed g.ID_SYSMEM (mul32 nelem elsize))

def memalign (g : Pools) (alignment size : Nat) : Option (Pools × Option Nat) :=
  let mask := sub32 alignment 1
  if alignment ≤ 8 then g.malloc size
  else if alignment &&& mask ≠ 0 ∨ alignment > 4096 then none
  else (g.malloc (ALIGN (max 8 size) alignment)).bind (assertAligned mask)

def mmz_malloc (g : Pools) (id : Int) (size : Nat) : Option (Pools × Option Nat) :=
  if id < 0 ∨ id ≥ g.NR_POOL_MMZ then some (g, none)
  else if (g.gMM id.toNat).isNone then g.malloc size
  else g.onPool id.toNat fun p => p.malloc size

def mmz_calloc (g : Pools) (id : Int) (nmemb size : Nat) : Option (Pools × Option Nat) :=
  if id < 0 ∨ id ≥ g.NR_POOL_MMZ then some (g, none)
  else if (g.gMM id.toNat).isNone then g.calloc nmemb size
  else (g.mmz_malloc id (mul32 nmemb size)).map (zeroed id.toNat (mul32 nmemb size))

def mmz_memalign (g : Pools) (id : Int) (alignment size : Nat) : Option (Pools × Option Nat) :=
  let mask := sub32 alignment 1
  if id < 0 ∨ id ≥ g.NR_POOL_MMZ then some (g, none)
  else if alignment ≤ 8 then
    if (g.gMM id.toNat).isNone then g.malloc size else g.mmz_malloc id size
  else if ¬ (alignment ≤ 4096 ∧ alignment &&& mask = 0) then none
  else if (g.gMM id.toNat).isNone then g.memalign alignment size
  else (g.mmz_malloc id (ALIGN (max 8 size) alignment)).bind (assertAligned mask)

end Pools

end Api

end Hcrtos.Native.Alloc
