import Hcrtos.Spec.AllocRuns

/-!
# The free list

The free clusters form one circular list through entry 0 in increasing order, no two of them
touch, and the blocks of the listed clusters are exactly the free ones below the limit. The free
fragments of a block are a run of the list of their size.

## Key results

- `Sound.wellFormed`: the free list of a sound pool
- `free_list_wellFormed`: all runs
-/

namespace Hcrtos.Native.Alloc

open Word Memory IntrusiveList Lts

/-- The address of a fragment. -/
def Pool.fragment (p : Pool) (b log k : Nat) : Nat := p.ADDRESS b + k * 2 ^ log

/-- The free fragments `ks` of a block are a run of the list of their size. -/
structure FreeRun (p : Pool) (b log : Nat) (ks : List Nat) : Prop where
  nodup : ks.Nodup
  lt : ∀ k ∈ ks, k < p.fragCount log
  length : ks.length = (p.table b).nfree
  first : ∀ k ∈ ks.head?, (p.table b).first = k
  linked : ∃ before behind, DList p.mem (p.frag log)
    (before ++ (ks.map (p.fragment b log) ++ behind))

/-- The free clusters `S` and the free fragments of a pool. -/
structure WellFormed (p : Pool) (S : Finset Nat) : Prop where
  ring : p.table.Ring S
  index : p.info_index ∈ insert 0 S
  apart : ∀ c ∈ S, ∀ d ∈ S, c < d → c + (p.table c).freeSize < d
  inside : ∀ c ∈ S, 0 < (p.table c).freeSize ∧ c + (p.table c).freeSize ≤ p.info_limit
  free : ∀ c ∈ S, ∀ b, c ≤ b → b < c + (p.table c).freeSize → (p.table b).status = 0
  busy : ∀ b, 0 < b → b < p.info_limit → (∀ c ∈ S, b < c ∨ c + (p.table c).freeSize ≤ b) →
    (p.table b).status = 1
  frags : ∀ b log, Fragmented p.table b log → ∃ ks, FreeRun p b log ks

section

variable {p : Pool} {L : Layout} {S : Finset Nat} {E b log : Nat} {blocks run : Nat → List Nat}
  {R : Finset (Nat × Nat)}

/-- The run of a block in the list of its size. -/
theorem Frags.freeRun (h : Frags p L blocks run) (hheap : Heap p L S E)
    (hfrag : Fragmented p.table b log) : FreeRun p b log (run b) where
  nodup := h.run_nodup b log hfrag
  lt := by
    rw [hheap.core.fragCount_eq (by have := h.type b log hfrag; omega)]
    exact h.run_lt b log hfrag
  length := (h.nfree b log hfrag).symm
  first := h.first b log hfrag
  linked := by
    obtain ⟨hlog, hlog'⟩ := h.type b log hfrag
    obtain ⟨hb, hbE⟩ := hfrag.pos hheap
    have hlist := h.list log hlog hlog'
    have haddr : p.fragment b log = L.frag b log := by
      funext k
      unfold Pool.fragment Layout.frag
      rw [hheap.core.ADDRESS_eq (by omega) (hheap.core.addr_lt (by omega) hbE)]
    rw [hheap.core.frag_eq, haddr]
    by_cases hrun : run b = []
    · exact ⟨[], freeFrags L blocks run log, by rwa [hrun]⟩
    · obtain ⟨before, behind, hblocks⟩ :=
        List.append_of_mem ((h.mem_blocks log b).mpr ⟨hfrag, hrun⟩)
      rw [freeFrags_split hblocks] at hlist
      exact ⟨_, _, hlist⟩

/-- The free list of a sound pool. -/
theorem Sound.wellFormed (h : Sound p L S E blocks run R) : WellFormed p S where
  ring := h.heap.clusters.ring
  index := h.heap.index
  apart := h.heap.clusters.apart
  inside c hc := ⟨h.heap.clusters.pos c hc, by
    rw [h.heap.limit_eq h.limit hc]
    exact h.heap.clusters.bound c hc⟩
  free := h.heap.clusters.free
  busy b hb hlimit hout := by
    have hlimit' := Heap.limit_le h.limit
    obtain hbusy | ⟨c, hc, hle, hlt⟩ := h.heap.clusters.busy b hb (by omega)
    · exact hbusy
    · have := hout c hc
      omega
  frags b log hfrag := ⟨run b, h.frags.freeRun h.heap hfrag⟩

end

/-- A listed cluster has a free block. -/
theorem WellFormed.status_next {p : Pool} {S : Finset Nat} (h : WellFormed p S)
    (hne : (p.table 0).next ≠ 0) : (p.table (p.table 0).next).status = 0 := by
  have hmem := h.ring.next_mem 0 (Finset.mem_insert_self _ _)
  obtain hzero | hmem := Finset.mem_insert.mp hmem
  · exact absurd hzero hne
  · have hpos := (h.inside _ hmem).1
    exact h.free _ hmem _ (Nat.le_refl _) (by omega)

end Hcrtos.Native.Alloc
