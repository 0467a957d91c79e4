import Mathlib.Logic.Function.Basic

/-!
# The table of memory pools

`gMM` of `lib/libc/alloc.c`: the pool of the system heap, those that `OsKMmzInit` makes for the
nodes of the device tree, and those that `mmz_create` adds. `NR_POOL_MMZ` is
`CONFIG_MEM_NR_MMZ`, and the slot behind the others belongs to the system heap. A pool is known
here by the call of `pool_init` that built it.

The state keeps, as history, the indices of the table that were read or written, the ids that
pools were built for, and the ids that `mmz_create` returned.
-/

namespace Hcrtos.Native.Mmz

def DEFAULT_BLOCKLOG : UInt32 := 12

def MIPS_CACHED_ADDR (p : UInt32) : UInt32 := (p ||| 0x80000000) &&& 0x9FFFFFFF

/-- The calls of `pool_init`: of the system heap, of the node `mmz<i>`, and of the `n`th
    successful `mmz_create`. -/
inductive Origin where
  | sysmem
  | node (i : Nat)
  | created (n : Nat)
  deriving DecidableEq

/-- The pool that a call of `pool_init` built, with its arguments. -/
structure PoolHead where
  origin : Origin
  start : UInt32
  size : UInt32
  blklog : UInt32
  deriving DecidableEq

/-- A node of the device tree: the cells of `reg`, `id` and `blocklog`, where it has them. -/
structure Node where
  start : Option UInt32
  size : Option UInt32
  id : Option UInt32
  blocklog : Option UInt32

/-- The table, where the slots from `NR_POOL` on stand for what follows it in the memory. -/
structure State where
  gMM : Nat → Option PoolHead
  touched : List Nat
  owned : List (Nat × PoolHead)
  returned : List Nat

variable (NR_POOL_MMZ : Nat)

def NR_POOL : Nat := NR_POOL_MMZ + 1

def ID_SYSMEM : Nat := NR_POOL NR_POOL_MMZ - 1

/-- After `OsKHeapInit`; `rest` is what follows the table. -/
def OsKHeapInit (start size blklog : UInt32) (rest : Nat → Option PoolHead) : State where
  gMM i :=
    if i = ID_SYSMEM NR_POOL_MMZ then some ⟨.sysmem, start, size, blklog⟩
    else if i < NR_POOL NR_POOL_MMZ then none
    else rest i
  touched := []
  owned := []
  returned := []

/-- `gMM[i] = pool`, for the id `id`. -/
def State.put (s : State) (i : Nat) (id : Nat) (pool : PoolHead) : State :=
  { s with
    gMM := Function.update s.gMM i (some pool)
    touched := i :: s.touched
    owned := (id, pool) :: s.owned }

/-- The id of a node. -/
def Node.idOf (node : Node) : UInt32 := node.id.getD 0xffffffff

/-- The pool of the node `mmz<i>`. -/
def Node.pool (node : Node) (i : Nat) : PoolHead :=
  ⟨.node i, MIPS_CACHED_ADDR (node.start.getD 0), node.size.getD 0,
    node.blocklog.getD DEFAULT_BLOCKLOG⟩

/-- The test of `OsKMmzInit`. -/
def Node.valid (node : Node) : Bool :=
  node.size.getD 0 > 0 && node.idOf.toNat < NR_POOL_MMZ

/-- One round of the loop of `OsKMmzInit`. -/
def initNode (tree : Nat → Option Node) (s : State) (i : Nat) : State :=
  match tree i with
  | none => s
  | some node =>
    if node.valid NR_POOL_MMZ then s.put i node.idOf.toNat (node.pool i) else s

/-- `OsKMmzInit`. -/
def OsKMmzInit (tree : Nat → Option Node) (s : State) : State :=
  (List.range 10).foldl (initNode NR_POOL_MMZ tree) s

/-- The loop of `mmz_create`, for the slots from `i` on. -/
def createFrom (start size : UInt32) (s : State) : Nat → Nat → State × Option Nat
  | 0, _ => (s, none)
  | rounds + 1, i =>
    let s := { s with touched := i :: s.touched }
    match s.gMM i with
    | some _ => createFrom start size s rounds (i + 1)
    | none =>
      let pool := ⟨.created s.returned.length, MIPS_CACHED_ADDR start, size, DEFAULT_BLOCKLOG⟩
      ({ s.put i i pool with returned := i :: s.returned }, some i)

/-- `mmz_create`; `none` is -1. -/
def mmz_create (s : State) (start size : UInt32) : State × Option Nat :=
  createFrom start size s 10 0

/-- `mmz_delete`: the state, and whether it returned 0. -/
def mmz_delete (s : State) (id : Int) : State × Bool :=
  if id < 0 ∨ id ≥ NR_POOL_MMZ then (s, false)
  else
    let i := id.toNat
    let s := { s with touched := i :: s.touched }
    if s.gMM i = none then (s, false)
    else
      ({ s with
        gMM := Function.update s.gMM i none
        owned := s.owned.filter fun e => e.1 ≠ i }, true)

/-- The pool that `mmz_malloc` and `mmz_free` use for an id; `none` where they do not accept
    it. -/
def mmz_pool (s : State) (id : Int) : Option PoolHead :=
  if id < 0 ∨ id ≥ NR_POOL_MMZ then none
  else
    match s.gMM id.toNat with
    | none => s.gMM (ID_SYSMEM NR_POOL_MMZ)
    | some pool => some pool

inductive Action where
  | create (start size : UInt32)
  | delete (id : Int)

/-- One call. -/
def step (s : State) : Action → Option State
  | .create start size => some (mmz_create s start size).1
  | .delete id => some (mmz_delete NR_POOL_MMZ s id).1

end Hcrtos.Native.Mmz
