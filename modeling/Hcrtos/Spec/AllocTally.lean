import Mathlib.Algebra.BigOperators.Group.Finset.Basic
import Mathlib.Algebra.Order.BigOperators.Group.Finset
import Mathlib.Order.Interval.Finset.Nat
import Hcrtos.ForStd.Word
import Hcrtos.Spec.AllocTable

/-!
# The counters of a pool

`chunks_free` and `bytes_free` count the clusters and their blocks, and beyond them the free
fragments. What they count beyond the clusters does not change when blocks are allocated and
freed.

## Key results

- `Clusters.sum_size`: the sizes of the clusters are the number of free blocks
- `Charged`: the counters before and after an operation on blocks
-/

namespace Hcrtos.Native.Alloc

open Word

namespace Table

variable {t t' : Table} {S : Finset Nat} {E b n : Nat}

/-- The free blocks of the core. -/
def freeBlocks (t : Table) (E : Nat) : Finset Nat :=
  (Finset.Ioo 0 E).filter fun b => (t b).status = 0

theorem mem_freeBlocks : b ∈ t.freeBlocks E ↔ (0 < b ∧ b < E) ∧ (t b).status = 0 := by
  rw [freeBlocks, Finset.mem_filter, Finset.mem_Ioo]

/-- Every free block is in one cluster. -/
theorem Clusters.sum_size (h : t.Clusters S E) :
    ∑ c ∈ S, (t c).freeSize = (t.freeBlocks E).card := by
  have hunion : t.freeBlocks E = S.biUnion fun c => Finset.Ico c (c + (t c).freeSize) := by
    ext b
    rw [mem_freeBlocks, Finset.mem_biUnion]
    constructor
    · intro ⟨⟨hb, hlt⟩, hfree⟩
      obtain ⟨c, hc, hcb, hbc⟩ := (h.busy b hb hlt).resolve_left (by omega)
      exact ⟨c, hc, Finset.mem_Ico.mpr ⟨hcb, hbc⟩⟩
    · intro ⟨c, hc, hmem⟩
      obtain ⟨hcb, hbc⟩ := Finset.mem_Ico.mp hmem
      have hpos := (h.lt_of_mem hc).1
      have hbound := h.bound c hc
      exact ⟨⟨by omega, by omega⟩, h.free c hc b hcb hbc⟩
  have hdisjoint : (S : Set Nat).PairwiseDisjoint fun c => Finset.Ico c (c + (t c).freeSize) := by
    intro c hc d hd hne
    rw [Function.onFun, Finset.disjoint_left]
    intro b hb hb'
    obtain ⟨hcb, hbc⟩ := Finset.mem_Ico.mp hb
    obtain ⟨hdb, hbd⟩ := Finset.mem_Ico.mp hb'
    rcases Nat.lt_or_gt_of_ne hne with hlt | hgt
    · have := h.apart c hc d hd hlt
      omega
    · have := h.apart d hd c hc hgt
      omega
  rw [hunion, Finset.card_biUnion hdisjoint]
  apply Finset.sum_congr rfl
  intro c _
  rw [Nat.card_Ico]
  omega

/-- `n` busy blocks become free. -/
theorem card_freeBlocks_flip (hb : 0 < b) (hE : b + n ≤ E)
    (hold : ∀ i, b ≤ i → i < b + n → (t i).status = 1)
    (hstatus : ∀ i, (t' i).status = if b ≤ i ∧ i < b + n then 0 else (t i).status) :
    (t'.freeBlocks E).card = (t.freeBlocks E).card + n := by
  have hunion : t'.freeBlocks E = t.freeBlocks E ∪ Finset.Ico b (b + n) := by
    ext i
    rw [Finset.mem_union, mem_freeBlocks, mem_freeBlocks, Finset.mem_Ico, hstatus]
    split
    · simp
      omega
    · have hi : ¬ (b ≤ i ∧ i < b + n) := by assumption
      simp [hi]
  have hdisjoint : Disjoint (t.freeBlocks E) (Finset.Ico b (b + n)) := by
    rw [Finset.disjoint_left]
    intro i hi hmem
    obtain ⟨hle, hlt⟩ := Finset.mem_Ico.mp hmem
    have h1 := hold i hle hlt
    have h0 := (mem_freeBlocks.mp hi).2
    omega
  rw [hunion, Finset.card_union_of_disjoint hdisjoint, Nat.card_Ico]
  omega

/-- The core with `n` more blocks, which are free. -/
theorem card_freeBlocks_grow (hE : 0 < E) (hfree : ∀ i, E ≤ i → i < E + n → (t i).status = 0) :
    (t.freeBlocks (E + n)).card = (t.freeBlocks E).card + n := by
  have hunion : t.freeBlocks (E + n) = t.freeBlocks E ∪ Finset.Ico E (E + n) := by
    ext i
    rw [Finset.mem_union, mem_freeBlocks, mem_freeBlocks, Finset.mem_Ico]
    constructor
    · intro ⟨hi, h0⟩
      by_cases hlt : i < E
      · exact .inl ⟨⟨hi.1, hlt⟩, h0⟩
      · exact .inr ⟨by omega, hi.2⟩
    · rintro (⟨hi, h0⟩ | hi)
      · exact ⟨⟨hi.1, by omega⟩, h0⟩
      · exact ⟨⟨by omega, hi.2⟩, hfree i hi.1 hi.2⟩
  have hdisjoint : Disjoint (t.freeBlocks E) (Finset.Ico E (E + n)) := by
    rw [Finset.disjoint_left]
    intro i hi hmem
    have := (mem_freeBlocks.mp hi).1
    have := Finset.mem_Ico.mp hmem
    omega
  rw [hunion, Finset.card_union_of_disjoint hdisjoint, Nat.card_Ico]
  omega

end Table

namespace Pool

/-- The chunks that `chunks_free` counts beyond the clusters. -/
def spareChunks (p : Pool) (S : Finset Nat) : WordRing := p.chunks_free - S.card

/-- The bytes that `bytes_free` counts beyond those of the clusters. -/
def spareBytes (p : Pool) (S : Finset Nat) : WordRing :=
  p.bytes_free - (∑ c ∈ S, (p.table c).freeSize : ℕ) * p.blksz

/-- The counters are words. -/
structure Counters (p : Pool) : Prop where
  chunks_used : p.chunks_used < 2 ^ 32
  bytes_used : p.bytes_used < 2 ^ 32
  chunks_free : p.chunks_free < 2 ^ 32
  bytes_free : p.bytes_free < 2 ^ 32

end Pool

/-- `chunks` more chunks of `bytes` bytes in all are in use, and the counters of the free ones
    follow the clusters. -/
structure Charged (p p' : Pool) (S S' : Finset Nat) (chunks bytes : WordRing) : Prop where
  chunks_used : (p'.chunks_used : WordRing) = p.chunks_used + chunks
  bytes_used : (p'.bytes_used : WordRing) = p.bytes_used + bytes
  chunks_free : p'.spareChunks S' = p.spareChunks S
  bytes_free : p'.spareBytes S' = p.spareBytes S
  counters : p.Counters → p'.Counters

theorem Charged.trans {p p' p'' : Pool} {S S' S'' : Finset Nat}
    {chunks bytes chunks' bytes' : WordRing} (h : Charged p p' S S' chunks bytes)
    (h' : Charged p' p'' S' S'' chunks' bytes') :
    Charged p p'' S S'' (chunks + chunks') (bytes + bytes') where
  chunks_used := by rw [h'.chunks_used, h.chunks_used, add_assoc]
  bytes_used := by rw [h'.bytes_used, h.bytes_used, add_assoc]
  chunks_free := h'.chunks_free.trans h.chunks_free
  bytes_free := h'.bytes_free.trans h.bytes_free
  counters hc := h'.counters (h.counters hc)

/-- The counter of free chunks when blocks may become a cluster of their own (`P` does not
    hold) and may swallow the next one (`Q`). -/
theorem cast_joined {chunks s s₁ s₂ : Nat} {P Q : Prop} [Decidable P] [Decidable Q]
    (h₁ : s₁ = s + if P then 0 else 1) (h₂ : s₂ + (if Q then 1 else 0) = s₁) :
    ((if Q then sub32 (if P then chunks else add32 chunks 1) 1
      else if P then chunks else add32 chunks 1 : ℕ) : WordRing) - s₂ = chunks - s := by
  have hcast : (s₂ : WordRing) + (if Q then 1 else 0 : ℕ) = s + (if P then 0 else 1 : ℕ) := by
    rw [← Nat.cast_add, ← Nat.cast_add, h₂, h₁]
  have hs₂ : (s₂ : WordRing) = s + (if P then 0 else 1 : ℕ) - (if Q then 1 else 0 : ℕ) :=
    eq_sub_of_add_eq hcast
  rw [hs₂]
  by_cases hP : P
  · by_cases hQ : Q
    · simp only [hP, hQ, if_true, cast_sub32]
      push_cast
      ring
    · simp only [hP, hQ, if_true, if_false]
      push_cast
      ring
  · by_cases hQ : Q
    · simp only [hP, hQ, if_true, if_false, cast_sub32, cast_add32]
      push_cast
      ring
    · simp only [hP, hQ, if_false, cast_add32]
      push_cast
      ring

end Hcrtos.Native.Alloc
