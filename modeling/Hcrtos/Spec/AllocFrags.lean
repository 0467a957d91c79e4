import Mathlib.Data.List.Nodup
import Mathlib.Data.List.Flatten
import Hcrtos.Spec.AllocHeap

/-!
# Fragments

A block that is cut into fragments keeps the numbers of its free ones as a run, and the list of
a fragment size goes through the runs of its blocks one after the other.

What a program owns is a region: a large object, or a fragment that is not in the run of its
block. The nodes of the lists are apart from all of them.

## Key results

- `Holds.apart`, `Holds.inside`: different regions are apart, and all of them are in the core,
  behind the info table
- `Frags.congr`: the lists depend on the entries of fragmented blocks only
-/

namespace Hcrtos.Native.Alloc

open Word Memory IntrusiveList

/-- The block is cut into fragments of the size `2 ^ log`. -/
def Fragmented (t : Table) (b log : Nat) : Prop :=
  (t b).status = 1 ∧ (t b).type = log ∧ log ≠ 0

/-- The free fragments of a size: those of the blocks `blocks log`, in this order, where a
    block `b` has the free fragments `run b`. -/
def freeFrags (L : Layout) (blocks run : Nat → List Nat) (log : Nat) : List Nat :=
  (blocks log).flatMap fun b => (run b).map (L.frag b log)

/-- The fragments of a pool and their lists. -/
structure Frags (p : Pool) (L : Layout) (blocks run : Nat → List Nat) : Prop where
  type : ∀ b log, Fragmented p.table b log → 3 ≤ log ∧ log < L.log
  list : ∀ log, 3 ≤ log → log < L.log →
    DList p.mem (L.head log) (freeFrags L blocks run log)
  blocks_nodup : ∀ log, (blocks log).Nodup
  mem_blocks : ∀ log b, b ∈ blocks log ↔ Fragmented p.table b log ∧ run b ≠ []
  run_nodup : ∀ b log, Fragmented p.table b log → (run b).Nodup
  run_lt : ∀ b log, Fragmented p.table b log → ∀ k ∈ run b, k < L.count log
  nfree : ∀ b log, Fragmented p.table b log → (p.table b).nfree = (run b).length
  first : ∀ b log, Fragmented p.table b log → ∀ k ∈ (run b).head?, (p.table b).first = k

/-- The addresses of list nodes: the heads of the lists, and the fragments. -/
def Nodes (p : Pool) (L : Layout) : Set Nat := fun u =>
  (∃ log, log < L.log ∧ u = L.head log) ∨
    ∃ b log k, Fragmented p.table b log ∧ k < L.count log ∧ u = L.frag b log k

/-- A region of `c` bytes at `a` that a program owns. -/
inductive Holds (p : Pool) (L : Layout) (run : Nat → List Nat) : Nat → Nat → Prop where
  | object (b n : Nat) (hb : L.infoBlocks < b) (hobj : p.table.IsObject b n) :
    Holds p L run (L.addr b) (n * L.blksz)
  | frag (b log k : Nat) (hfrag : Fragmented p.table b log) (hk : k < L.count log)
      (hrun : k ∉ run b) : Holds p L run (L.frag b log k) (2 ^ log)

section

variable {p p' : Pool} {L : Layout} {S : Finset Nat} {E b b' log log' k k' n a c : Nat}
  {blocks run : Nat → List Nat}

theorem Layout.head_add_le (hlog : log < L.log) : L.head log + 8 ≤ L.base := by
  have := L.head_le
  unfold Layout.head
  omega

/-! ### Fragmented blocks -/

theorem Fragmented.pos (h : Fragmented p.table b log) (hheap : Heap p L S E) :
    L.infoBlocks < b ∧ b < E := by
  constructor
  · by_contra hle
    have hb : 0 < b := by
      by_contra hzero
      obtain rfl : b = 0 := by omega
      have := h.1
      rw [hheap.clusters.zero.1] at this
      contradiction
    have htype := hheap.info.type b hb (by omega)
    exact h.2.2 (h.2.1.symm.trans htype)
  · by_contra hge
    have := h.1
    rw [hheap.clusters.beyond b (by omega)] at this
    contradiction

/-- A fragmented block belongs to no large object. -/
theorem Fragmented.outside (h : Fragmented p.table b log) (hobj : p.table.IsRun b' n) :
    b < b' ∨ b' + n ≤ b := by
  by_contra hin
  exact h.2.2 (h.2.1.symm.trans (hobj.type b (by omega) (by omega)))

theorem Fragmented.log_eq (h : Fragmented p.table b log) (h' : Fragmented p.table b log') :
    log = log' :=
  h.2.1.symm.trans h'.2.1

/-! ### The nodes of the lists -/

variable (hheap : Heap p L S E)
  (htype : ∀ b log, Fragmented p.table b log → 3 ≤ log ∧ log < L.log)
include hheap htype

/-- A fragment lies in its block, which is in the core. -/
theorem frag_bounds (hfrag : Fragmented p.table b log) (hk : k < L.count log) :
    L.addr b ≤ L.frag b log k ∧ L.frag b log k + 2 ^ log ≤ L.addr (b + 1) ∧ 8 ≤ 2 ^ log ∧
      L.addr (b + 1) ≤ L.addr E := by
  obtain ⟨hlog, hlt⟩ := htype b log hfrag
  obtain ⟨hb, hbE⟩ := hfrag.pos hheap
  refine ⟨L.addr_le_frag, ?_, ?_, L.addr_le (by omega) hbE⟩
  · rw [L.addr_succ (by omega)]
    exact L.frag_add_le (by omega) hk
  · exact Nat.pow_le_pow_right (show 0 < 2 by decide) hlog

/-- Different fragments do not overlap. -/
theorem frag_apart (hfrag : Fragmented p.table b log) (hfrag' : Fragmented p.table b' log')
    (hk : k < L.count log) (hk' : k' < L.count log')
    (hne : L.frag b log k ≠ L.frag b' log' k') :
    L.frag b log k + 2 ^ log ≤ L.frag b' log' k' ∨
      L.frag b' log' k' + 2 ^ log' ≤ L.frag b log k := by
  obtain ⟨hle, hge, -, -⟩ := frag_bounds hheap htype hfrag hk
  obtain ⟨hle', hge', -, -⟩ := frag_bounds hheap htype hfrag' hk'
  have hb := (hfrag.pos hheap).1
  have hb' := (hfrag'.pos hheap).1
  rcases Nat.lt_trichotomy b b' with hlt | rfl | hgt
  · have := L.addr_le (b := b + 1) (by omega) hlt
    omega
  · obtain rfl := hfrag.log_eq hfrag'
    rcases Nat.lt_trichotomy k k' with hlt | rfl | hgt
    · exact .inl (L.frag_add_le_frag hlt)
    · exact absurd rfl hne
    · exact .inr (L.frag_add_le_frag hgt)
  · have := L.addr_le (b := b' + 1) (by omega) hgt
    omega

theorem nodes_cells : Cells (Nodes p L) := by
  have hE := hheap.core.end_le_word
  have hbase := L.base_pos
  constructor
  · intro u hu
    rcases hu with ⟨log, -, rfl⟩ | ⟨b, log, k, -, -, rfl⟩
    · unfold Layout.head
      omega
    · have := L.base_le_addr (b := b)
      have : L.addr b ≤ L.frag b log k := L.addr_le_frag
      omega
  · intro u hu
    rcases hu with ⟨log, hlog, rfl⟩ | ⟨b, log, k, hfrag, hk, rfl⟩
    · have := L.head_add_le hlog
      have := L.base_le
      have := L.top_lt
      omega
    · have := frag_bounds hheap htype hfrag hk
      omega
  · intro u hu v hv huv
    rcases hu with ⟨log, hlog, rfl⟩ | ⟨b, log, k, hfrag, hk, rfl⟩
    · have := L.head_add_le hlog
      rcases hv with ⟨log', hlog', rfl⟩ | ⟨b', log', k', hfrag', hk', rfl⟩
      · have hne : log ≠ log' := fun heq => huv (by rw [heq])
        unfold Layout.head
        omega
      · have := L.base_le_addr (b := b')
        have := frag_bounds hheap htype hfrag' hk'
        omega
    · have := frag_bounds hheap htype hfrag hk
      rcases hv with ⟨log', hlog', rfl⟩ | ⟨b', log', k', hfrag', hk', rfl⟩
      · have := L.head_add_le hlog'
        have := L.base_le_addr (b := b)
        omega
      · have := frag_bounds hheap htype hfrag' hk'
        have := frag_apart hheap htype hfrag hfrag' hk hk' huv
        omega

/-! ### Regions -/

/-- Every region is in the core, behind the info table. -/
theorem Holds.inside (h : Holds p L run a c) :
    L.addr (L.infoBlocks + 1) ≤ a ∧ a + c ≤ L.addr E ∧ 0 < c := by
  have hpow := L.blksz_ge
  cases h with
  | object b n hb hobj =>
    have hle := hheap.run_le hobj.toIsRun
    have hmul := Nat.mul_le_mul_right L.blksz hobj.pos
    exact ⟨L.addr_le (by omega) hb, L.addr_add_le (by omega) hle, by omega⟩
  | frag b log k hfrag hk hrun =>
    obtain ⟨hle, hge, h8, hEle⟩ := frag_bounds hheap htype hfrag hk
    have := L.addr_le (b := L.infoBlocks + 1) (by omega) (hfrag.pos hheap).1
    omega

/-- Different regions are apart. -/
theorem Holds.apart {a' c' : Nat} (h : Holds p L run a c) (h' : Holds p L run a' c')
    (hne : a ≠ a') : a + c ≤ a' ∨ a' + c' ≤ a := by
  have hE := hheap.core.le_limit
  cases h with
  | object b n hb hobj =>
    have hle := hheap.run_le hobj.toIsRun
    cases h' with
    | object b' n' hb' hobj' =>
      have hle' := hheap.run_le hobj'.toIsRun
      rcases Nat.lt_trichotomy b b' with hlt | rfl | hgt
      · exact .inl (L.addr_add_le (by omega) (hobj.disjoint hobj' (by omega) (by omega) hlt))
      · exact absurd rfl hne
      · exact .inr (L.addr_add_le (by omega) (hobj'.disjoint hobj (by omega) (by omega) hgt))
    | frag b' log k hfrag hk hrun =>
      obtain ⟨hle', hge', -, -⟩ := frag_bounds hheap htype hfrag hk
      rcases hfrag.outside hobj.toIsRun with hlt | hge
      · have := L.addr_le (b := b' + 1) (by omega) hlt
        omega
      · have := L.addr_add_le (b := b) (by omega) hge
        omega
  | frag b log k hfrag hk hrun =>
    obtain ⟨hle, hge, -, -⟩ := frag_bounds hheap htype hfrag hk
    cases h' with
    | object b' n' hb' hobj' =>
      rcases hfrag.outside hobj'.toIsRun with hlt | hge'
      · have := L.addr_le (b := b + 1) (by omega) hlt
        omega
      · have := L.addr_add_le (b := b') (by omega) hge'
        omega
    | frag b' log' k' hfrag' hk' hrun' => exact frag_apart hheap htype hfrag hfrag' hk hk' hne

/-- A region starts in a busy block. -/
theorem Holds.busy (h : Holds p L run a c) : (p.table (p.BLOCK a)).status = 1 := by
  cases h with
  | object b n hb hobj =>
    have hle := hheap.run_le hobj.toIsRun
    have hpos := hobj.pos
    rw [hheap.core.BLOCK_addr (by omega) (hheap.core.addr_lt (by omega) (by omega))]
    exact hobj.status b (Nat.le_refl b) (by omega)
  | frag b log k hfrag hk hrun =>
    obtain ⟨hb, hbE⟩ := hfrag.pos hheap
    have hlog := htype b log hfrag
    rw [hheap.core.BLOCK_frag (by omega) hbE (by omega) hk]
    exact hfrag.1

end

/-! ### Allocating and freeing blocks -/

section

variable {p p' : Pool} {L : Layout} {S : Finset Nat} {E b b' log log' k k' n a c : Nat}
  {blocks run : Nat → List Nat}

theorem Fragmented.congr {t t' : Table} (h : Fragmented t b log) (heq : t' b = t b) :
    Fragmented t' b log := by
  unfold Fragmented
  rw [heq]
  exact h

/-- The same blocks are fragmented, with the same entries. -/
structure SameFrags (t t' : Table) : Prop where
  same : ∀ b log, Fragmented t b log → t' b = t b
  back : ∀ b log, Fragmented t' b log → Fragmented t b log

theorem Frags.congr (h : Frags p L blocks run) (hsame : SameFrags p.table p'.table)
    (hlist : ∀ log, 3 ≤ log → log < L.log →
      DList p'.mem (L.head log) (freeFrags L blocks run log)) : Frags p' L blocks run where
  type b log hfrag := h.type b log (hsame.back b log hfrag)
  list := hlist
  blocks_nodup := h.blocks_nodup
  mem_blocks log b := by
    rw [h.mem_blocks]
    constructor
    · intro hb
      exact ⟨hb.1.congr (hsame.same b log hb.1), hb.2⟩
    · intro hb
      exact ⟨hsame.back b log hb.1, hb.2⟩
  run_nodup b log hfrag := h.run_nodup b log (hsame.back b log hfrag)
  run_lt b log hfrag := h.run_lt b log (hsame.back b log hfrag)
  nfree b log hfrag := by
    rw [hsame.same b log (hsame.back b log hfrag)]
    exact h.nfree b log (hsame.back b log hfrag)
  first b log hfrag := by
    rw [hsame.same b log (hsame.back b log hfrag)]
    exact h.first b log (hsame.back b log hfrag)

/-- Busy blocks outside of the new object were busy before. -/
theorem Takes.busy (htakes : Takes p p' L b n) {x : Nat} (hx : (p'.table x).status = 1) :
    (p.table x).status = 1 ∨ (b ≤ x ∧ x < b + n) := by
  have hstatus := htakes.status x
  rw [hx] at hstatus
  split at hstatus
  · rename_i hin
    exact .inr hin
  · exact .inl hstatus.symm

/-- New objects leave the fragments alone. -/
theorem Takes.sameFrags (htakes : Takes p p' L b n) : SameFrags p.table p'.table := by
  constructor
  · intro x log hfrag
    exact htakes.same x hfrag.1
  · intro x log hfrag
    rcases htakes.busy hfrag.1 with hone | ⟨hle, hlt⟩
    · exact hfrag.congr (htakes.same x hone).symm
    · exact absurd (hfrag.2.1.symm.trans (htakes.object.type x hle hlt)) hfrag.2.2

/-- A new object leaves the regions alone. -/
theorem Takes.holds (htakes : Takes p p' L b n) (h : Holds p L run a c) :
    Holds p' L run a c := by
  cases h with
  | object b' n' hb hobj => exact .object b' n' hb (hobj.sameBusy htakes.same)
  | frag b' log k hfrag hk hrun =>
    exact .frag b' log k (hfrag.congr (htakes.same b' hfrag.1)) hk hrun

/-- Objects at different addresses have no block in common. -/
theorem Heap.object_apart (hheap : Heap p L S E) {n' : Nat} (hobj : p.table.IsObject b n)
    (hobj' : p.table.IsObject b' n') (hne : b' ≠ b) : b' + n' ≤ b ∨ b + n ≤ b' := by
  have hE := hheap.core.le_limit
  have hle := hheap.run_le hobj.toIsRun
  have hle' := hheap.run_le hobj'.toIsRun
  rcases Nat.lt_or_gt_of_ne hne with hlt | hgt
  · exact .inl (hobj'.disjoint hobj (by omega) (by omega) hlt)
  · exact .inr (hobj.disjoint hobj' (by omega) (by omega) hgt)

/-- Every region but the new object was there before. -/
theorem Takes.holds_back (htakes : Takes p p' L b n) (hheap' : Heap p' L S E)
    (h : Holds p' L run a c) : Holds p L run a c ∨ a = L.addr b := by
  have hsame : ∀ x, (p'.table x).status = 1 → x < b ∨ b + n ≤ x → p.table x = p'.table x := by
    intro x hx hout
    rcases htakes.busy hx with hone | hin
    · exact (htakes.same x hone).symm
    · omega
  cases h with
  | object b' n' hb hobj =>
    by_cases hne : b' = b
    · exact .inr (by rw [hne])
    · have hapart := hheap'.object_apart htakes.object hobj hne
      exact .inl (.object b' n' hb
        (hobj.congr fun i hi hlt => hsame i (hobj.status i hi hlt) (by omega)))
  | frag b' log k hfrag hk hrun =>
    have hout := hfrag.outside htakes.object.toIsRun
    exact .inl (.frag b' log k (hfrag.congr (hsame b' hfrag.1 (by omega))) hk hrun)

/-- Freed blocks leave the fragments alone. -/
theorem Gives.sameFrags (hgives : Gives p p' L b n) (hobj : p.table.IsRun b n) :
    SameFrags p.table p'.table := by
  constructor
  · intro x log hfrag
    exact hgives.same x hfrag.1 (hfrag.outside hobj)
  · intro x log hfrag
    have hstatus := hgives.status x
    rw [hfrag.1] at hstatus
    split at hstatus
    · contradiction
    · exact hfrag.congr (hgives.same x hstatus.symm (by omega)).symm

/-- Freed blocks leave the regions alone that are outside of them. -/
theorem Gives.holds (hgives : Gives p p' L b n) (hobj : p.table.IsRun b n)
    (h : Holds p L run a c)
    (hout : ∀ b' n', p.table.IsObject b' n' → a = L.addr b' → b' + n' ≤ b ∨ b + n ≤ b') :
    Holds p' L run a c := by
  cases h with
  | object b' n' hb hobj' => exact .object b' n' hb (hgives.object hobj' (hout b' n' hobj' rfl))
  | frag b' log k hfrag hk hrun =>
    exact .frag b' log k (hfrag.congr (hgives.same b' hfrag.1 (hfrag.outside hobj))) hk hrun

/-- Every region was there before. -/
theorem Gives.holds_back (hgives : Gives p p' L b n) (h : Holds p' L run a c) :
    Holds p L run a c := by
  have hsame : ∀ x, (p'.table x).status = 1 → p.table x = p'.table x := by
    intro x hx
    have hstatus := hgives.status x
    rw [hx] at hstatus
    split at hstatus
    · contradiction
    · exact (hgives.same x hstatus.symm (by omega)).symm
  cases h with
  | object b' n' hb hobj =>
    exact .object b' n' hb (hobj.congr fun i hi hlt => hsame i (hobj.status i hi hlt))
  | frag b' log k hfrag hk hrun =>
    exact .frag b' log k (hfrag.congr (hsame b' hfrag.1)) hk hrun

/-- No region starts at a freed block. -/
theorem Gives.ne_of_holds (hgives : Gives p p' L b n) (hn : 0 < n) (hb : 0 < b)
    (hheap' : Heap p' L S E) (htype : ∀ b log, Fragmented p'.table b log → 3 ≤ log ∧ log < L.log)
    (hlt : L.addr b < 2 ^ 32) (h : Holds p' L run a c) : a ≠ L.addr b := by
  rintro rfl
  have hbusy := h.busy hheap' htype
  rw [hheap'.core.BLOCK_addr hb hlt, hgives.status, if_pos ⟨Nat.le_refl b, by omega⟩] at hbusy
  contradiction

end

end Hcrtos.Native.Alloc
