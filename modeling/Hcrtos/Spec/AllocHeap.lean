import Hcrtos.Spec.AllocLayout
import Hcrtos.Spec.AllocTally

/-!
# Allocating and freeing blocks

`__malloc` of whole blocks takes them from the first cluster on the way around the list that is
long enough, or from the end of the core. A request fails exactly when neither holds it, as long
as the end of the memory it asks for is a word (`InWords`).

## Key results

- `Heap.mallocBlocks`: the blocks of the new object were free, and no busy block changes
- `Heap.freeBlocks`: the blocks of the object become free, and no other busy block changes
-/

namespace Hcrtos.Native.Alloc

open Word Table

/-! ### Requests -/

namespace Pool

/-- The request for `n` blocks fits into the core, where `F` are its free blocks. -/
def HasRun (p : Pool) (F : Nat → Prop) (n : Nat) : Prop :=
  ∃ b, 0 < b ∧ b + n ≤ p.info_limit ∧ ∀ i, b ≤ i → i < b + n → F i

/-- The core can grow so that its end holds `n` blocks, the first `m` of which are free ones. -/
def HasEnd (p : Pool) (F : Nat → Prop) (n : Nat) : Prop :=
  ∃ m, m ≤ n ∧ p.ptr + (n - m) * p.blksz < p.top ∧
    (0 < m → p.ptr = p.ADDRESS p.info_limit ∧ m < p.info_limit ∧
      ∀ i, p.info_limit - m ≤ i → i < p.info_limit → F i)

/-- There is room for `n` blocks. -/
def Served (p : Pool) (F : Nat → Prop) (n : Nat) : Prop := p.HasRun F n ∨ p.HasEnd F n

/-- There is room for `n` blocks, or the end that is asked for is a word and `__sbrk` sees that
    it is behind the top. -/
def InWords (p : Pool) (F : Nat → Prop) (n : Nat) : Prop :=
  p.Served F n ∨ p.ptr + n * p.blksz < 2 ^ 32

/-- The blocks that are free. -/
def Free (p : Pool) (b : Nat) : Prop := (p.table b).status = 0

end Pool

/-- Free blocks in a row are in one cluster. -/
theorem Table.Clusters.run {t : Table} {S : Finset Nat} {E b n : Nat} (h : t.Clusters S E)
    (hb : 0 < b) (hn : 0 < n) (hE : b + n ≤ E) (hfree : ∀ i, b ≤ i → i < b + n → (t i).status = 0) :
    ∃ c ∈ S, c ≤ b ∧ b + n ≤ c + (t c).freeSize := by
  have hin : ∀ i, b ≤ i → i < b + n → ∃ c ∈ S, c ≤ i ∧ i < c + (t c).freeSize := by
    intro i hi hlt
    refine (h.busy i (by omega) (by omega)).resolve_left ?_
    rw [hfree i hi hlt]
    decide
  obtain ⟨c, hc, hcb, hlt⟩ := hin b (Nat.le_refl b) (by omega)
  refine ⟨c, hc, hcb, ?_⟩
  -- the cluster does not end before the row does, since the next one is not adjacent
  have hall : ∀ k, k < n → b + k < c + (t c).freeSize := by
    intro k
    induction k with
    | zero => exact fun _ => hlt
    | succ k ih =>
      intro hk
      have hprev := ih (by omega)
      obtain ⟨d, hd, hdk, hlt'⟩ := hin (b + (k + 1)) (by omega) (by omega)
      rcases Nat.lt_trichotomy c d with hcd | rfl | hdc
      · have := h.apart c hc d hd hcd
        omega
      · exact hlt'
      · have := h.apart d hd c hc hdc
        omega
  have := hall (n - 1) (by omega)
  omega

/-! ### The heap -/

/-- The blocks of a pool: the clusters `S`, the end of the core `E`, and the info table in its
    blocks. -/
structure Heap (p : Pool) (L : Layout) (S : Finset Nat) (E : Nat) : Prop where
  core : p.Core L E
  clusters : p.table.Clusters S E
  index : p.info_index ∈ insert 0 S
  info : p.table.IsObject 1 L.infoBlocks

/-- The limit is the end of the core once the core has grown. -/
def Limit (p : Pool) (L : Layout) (E : Nat) : Prop :=
  p.info_limit = E ∨ (p.info_limit = 0 ∧ E = L.infoBlocks + 1)

/-- `n` free blocks became an object at `b`, and the other busy blocks are as before. -/
structure Takes (p p' : Pool) (L : Layout) (b n : Nat) : Prop where
  mem : p'.mem = p.mem
  ptr : p.ptr ≤ p'.ptr
  free : ∀ i, b ≤ i → i < b + n → p.Free i
  object : p'.table.IsObject b n
  same : SameBusy p.table p'.table
  status : ∀ i, (p'.table i).status = if b ≤ i ∧ i < b + n then 1 else (p.table i).status
  beyond : ∀ i, L.infoSize ≤ i → p'.table i = p.table i

/-- The `n` blocks at `b` became free, and the other busy blocks are as before. -/
structure Gives (p p' : Pool) (L : Layout) (b n : Nat) : Prop where
  mem : p'.mem = p.mem
  status : ∀ i, (p'.table i).status = if b ≤ i ∧ i < b + n then 0 else (p.table i).status
  same : ∀ i, (p.table i).status = 1 → i < b ∨ b + n ≤ i → p'.table i = p.table i
  beyond : ∀ i, L.infoSize ≤ i → p'.table i = p.table i

/-- What a request for `n` blocks comes to. -/
inductive Outcome (p : Pool) (L : Layout) (S : Finset Nat) (n : Nat) :
    Pool → Option Nat → Prop where
  | none (h : ¬ p.Served p.Free n) : Outcome p L S n p none
  | some {p' : Pool} {b : Nat} {S' : Finset Nat} {E : Nat} (heap : Heap p' L S' E)
      (limit : p'.info_limit = E) (takes : Takes p p' L b n)
      (charged : Charged p p' S S' 1 (n * L.blksz)) : Outcome p L S n p' (some (L.addr b))

section

variable {p p' : Pool} {L : Layout} {S : Finset Nat} {E b c n : Nat} {r : Option Nat}

/-- The blocks of the info table come first, so free blocks are behind them. -/
theorem Heap.infoBlocks_lt (h : Heap p L S E) (hb : 0 < b) (hfree : p.Free b) :
    L.infoBlocks < b := by
  by_contra hle
  have := h.info.status b hb (by omega)
  unfold Pool.Free at hfree
  omega

/-- A core with a cluster has more blocks than those of the info table. -/
theorem Heap.lt_of_mem (h : Heap p L S E) (hc : c ∈ S) : L.infoBlocks + 1 < E := by
  have hlt := h.clusters.lt_of_mem hc
  have hfree := h.clusters.status_zero (Finset.mem_insert_of_mem hc)
  have := h.infoBlocks_lt hlt.1 hfree
  omega

/-- Where no core was asked for yet, all blocks hold the info table. -/
theorem Heap.limit_eq (h : Heap p L S E) (hlimit : Limit p L E) (hc : c ∈ S) :
    p.info_limit = E := by
  refine hlimit.resolve_right ?_
  rintro ⟨-, hE⟩
  have := h.lt_of_mem hc
  omega

theorem Heap.limit_le (hlimit : Limit p L E) : p.info_limit ≤ E := by
  rcases hlimit with heq | ⟨hzero, -⟩ <;> omega

/-- The entry of a busy block changes, but not its status. -/
theorem Heap.edit (h : Heap p L S E) (hcore : p'.Core L E) (hindex : p'.info_index = p.info_index)
    (hb : L.infoBlocks < b) (hbusy : (p.table b).status = 1)
    (hstatus : (p'.table b).status = 1) (hother : ∀ x, x ≠ b → p'.table x = p.table x) :
    Heap p' L S E where
  core := hcore
  clusters := by
    apply h.clusters.congr
    · intro x
      by_cases hx : x = b
      · rw [hx, hstatus, hbusy]
      · rw [hother x hx]
    · intro x hx
      apply hother
      rintro rfl
      rw [h.clusters.status_zero hx] at hbusy
      contradiction
  index := by
    rw [hindex]
    exact h.index
  info := h.info.congr fun i _ hlt => hother i (by omega)

/-! ### Taking blocks -/

theorem take_status {t : Table} (hn : 0 < n) (hc : c + n ≤ 2 ^ 32) {i : Nat}
    (hi : i < c ∨ c + n ≤ i) : ((t.take c n).1.setObject c n i).status = (t i).status := by
  rw [setObject_of_outside hn hc hi]
  unfold Table.take
  split <;> rfl

/-- The first blocks of a cluster become an object. -/
theorem Heap.takeBlocks (h : Heap p L S E) (hc : c ∈ S) (hn : 0 < n)
    (hle : n ≤ (p.table c).freeSize) : ∃ S', (p.takeBlocks c n).2 = some (L.addr c) ∧
      Heap (p.takeBlocks c n).1 L S' E ∧ Takes p (p.takeBlocks c n).1 L c n ∧
      Charged p (p.takeBlocks c n).1 S S' 1 (n * L.blksz) ∧
      (n < (p.table c).freeSize → (p.takeBlocks c n).1.info_index = c + n ∧ c + n ∈ S' ∧
        ((p.takeBlocks c n).1.table (c + n)).freeSize = (p.table c).freeSize - n) := by
  have hlimit := h.core.le_limit
  have hbound := h.clusters.bound c hc
  have hpos := h.clusters.lt_of_mem hc
  have hsize := h.core.le_infoSize
  have h32 : c + n ≤ 2 ^ 32 := by omega
  have hsame := h.clusters.take_sameBusy hlimit hc hn hle
  obtain ⟨S', hclusters, hindex, hcard, hrest⟩ := h.clusters.take hlimit hc hn hle
  have hstatus : ∀ i, ((p.table.take c n).1.setObject c n i).status =
      if c ≤ i ∧ i < c + n then 1 else (p.table i).status := by
    intro i
    split
    · rename_i hin
      exact setObject_status hn h32 hin.1 hin.2
    · exact take_status hn h32 (by omega)
  have hsum : ∑ c ∈ S, (p.table c).freeSize =
      ∑ d ∈ S', ((p.takeBlocks c n).1.table d).freeSize + n := by
    have hsum' : ∑ d ∈ S', ((p.takeBlocks c n).1.table d).freeSize = _ := hclusters.sum_size
    rw [h.clusters.sum_size, hsum']
    apply card_freeBlocks_flip (b := c) hpos.1 (by omega)
    · intro i hi hlt
      rw [hstatus, if_pos ⟨hi, hlt⟩]
    · intro i
      rw [hstatus]
      split
      · rename_i hin
        exact h.clusters.free c hc i hin.1 (by omega)
      · rfl
  refine ⟨S', ?_, ?_, ?_, ?_, hrest⟩
  · show some (p.ADDRESS c) = some (L.addr c)
    rw [h.core.ADDRESS_eq hpos.1 (h.core.addr_lt hpos.1 (by omega))]
  · exact ⟨{ h.core with }, hclusters, hindex, h.info.sameBusy hsame⟩
  · constructor
    · rfl
    · exact Nat.le_refl _
    · intro i hi hlt
      exact h.clusters.free c hc i hi (by omega)
    · exact isObject_setObject hn h32
    · exact hsame
    · exact hstatus
    · intro i hi
      exact h.clusters.take_beyond hlimit hc hn hle (by omega)
  · have hblksz := h.core.blksz
    constructor
    · show ((add32 p.chunks_used 1 : ℕ) : WordRing) = _
      rw [cast_add32, Nat.cast_one]
    · show ((add32 p.bytes_used (mul32 n p.blksz) : ℕ) : WordRing) = _
      rw [cast_add32, cast_mul32, hblksz]
    · show ((if (p.table c).freeSize > n then p.chunks_free else sub32 p.chunks_free 1 : ℕ) :
        WordRing) - S'.card = p.chunks_free - S.card
      rw [← hcard]
      split
      · simp
      · rw [cast_sub32]
        push_cast
        ring
    · show ((sub32 p.bytes_free (mul32 n p.blksz) : ℕ) : WordRing) - _ * (p.blksz : WordRing) = _
      unfold Pool.spareBytes
      rw [cast_sub32, cast_mul32, hsum]
      push_cast
      ring
    · intro hcount
      constructor
      · exact add32_lt _ _
      · exact add32_lt _ _
      · show (if (p.table c).freeSize > n then p.chunks_free else sub32 p.chunks_free 1) < 2 ^ 32
        split
        · exact hcount.chunks_free
        · exact sub32_lt _ _
      · exact sub32_lt _ _

theorem Heap.takeBlocks_outcome (h : Heap p L S E) (hlimit : Limit p L E) (hc : c ∈ S)
    (hn : 0 < n) (hle : n ≤ (p.table c).freeSize) :
    Outcome p L S n (p.takeBlocks c n).1 (p.takeBlocks c n).2 := by
  obtain ⟨S', hresult, hheap, htakes, hcharged, -⟩ := h.takeBlocks hc hn hle
  rw [hresult]
  exact .some hheap (h.limit_eq hlimit hc) htakes hcharged

/-- A new object at the end of the core. -/
theorem Heap.newCore (h : Heap p L S E) (hn : 0 < n) (hlt : p.ptr + n * L.blksz < L.top)
    (hfit : L.addr E + n * L.blksz ≤ L.top) :
    ∃ p' r, p.newCore n = some (p', r) ∧ Outcome p L S n p' r := by
  obtain ⟨ptr, hmore, hcore⟩ := h.core.morecore_eq hlt hfit
  have htop := L.top_lt
  have hE := hcore.le_limit
  have hsize := hcore.le_infoSize
  have hEpos := h.core.pos
  have hEaddr := hcore.addr_lt hEpos (by omega)
  have hgrow : p.ptr ≤ ptr := h.core.ptr_le_of_grow hcore hn
  have hblock : Pool.BLOCK { p with ptr := ptr, info_limit := E + n } (L.addr E) = E :=
    hcore.BLOCK_addr hEpos hEaddr
  have hsame := h.clusters.newObject_sameBusy hn (by omega)
  have hclusters := h.clusters.newObject hEpos hn (by omega)
  have hsum : ∑ c ∈ S, (p.table.setObject E n c).freeSize = ∑ c ∈ S, (p.table c).freeSize := by
    apply Finset.sum_congr rfl
    intro d hd
    rw [setObject_of_outside hn (by omega) (.inl (h.clusters.lt_of_mem hd).2)]
  unfold Pool.newCore
  rw [h.core.blksz, mul32_of_lt (by omega), hmore]
  dsimp only
  rw [hblock]
  refine ⟨_, _, rfl, ?_⟩
  apply @Outcome.some _ _ _ _ _ _ S (E + n)
  · exact ⟨{ hcore with }, hclusters, h.index, h.info.sameBusy hsame⟩
  · rfl
  · constructor
    · rfl
    · exact hgrow
    · intro i hi _
      exact h.clusters.beyond i hi
    · exact isObject_setObject hn (by omega)
    · exact hsame
    · intro i
      split
      · rename_i hin
        exact setObject_status hn (by omega) hin.1 hin.2
      · exact congrArg HeapInfo.status (setObject_of_outside hn (by omega) (by omega))
    · intro i hi
      exact setObject_of_outside hn (by omega) (.inr (by omega))
  · constructor
    · show ((add32 p.chunks_used 1 : ℕ) : WordRing) = _
      rw [cast_add32, Nat.cast_one]
    · show ((add32 p.bytes_used (mul32 n p.blksz) : ℕ) : WordRing) = _
      rw [cast_add32, cast_mul32, h.core.blksz]
    · rfl
    · show (p.bytes_free : WordRing) -
        (∑ c ∈ S, (p.table.setObject E n c).freeSize : ℕ) * (p.blksz : WordRing) = _
      rw [hsum]
      rfl
    · intro hcount
      exact ⟨add32_lt _ _, add32_lt _ _, hcount.chunks_free, hcount.bytes_free⟩

/-! ### Searching -/

/-- The part of the search that gets more from the system. -/
def moreBlocks (p : Pool) (blocks start fuel : Nat) : Option (Pool × Option Nat) :=
  let block := (p.table 0).prev
  let last := (p.table block).freeSize
  if p.endsCore block then
    (p.morecore (mul32 (sub32 blocks last) p.blksz)).bind fun (p, result) =>
      if result.isSome then
        let block := (p.table 0).prev
        let p := { p with
          table := p.table.setFreeSize block
            (add32 (p.table block).freeSize (sub32 blocks last))
          bytes_free := add32 p.bytes_free (mul32 (sub32 blocks last) p.blksz) }
        p.search blocks start fuel block
      else p.newCore blocks
  else p.newCore blocks

theorem search_succ (start fuel block : Nat) : p.search n start (fuel + 1) block =
    if (p.table block).freeSize < n then
      if (p.table block).next = start then moreBlocks p n start fuel
      else p.search n start fuel (p.table block).next
    else some (p.takeBlocks block n) := rfl

/-- The end of the core is the last cluster. -/
theorem Heap.endsCore_iff (h : Heap p L S E) (hlimit : Limit p L E) :
    p.endsCore (p.table 0).prev ↔ p.info_limit = E ∧ p.ptr = L.addr E ∧ (p.table 0).prev ∈ S ∧
      (p.table 0).prev + (p.table (p.table 0).prev).freeSize = E := by
  have hEpos := h.core.pos
  have hE := h.core.le_limit
  have hprev := h.clusters.ring.prev_mem 0 (Finset.mem_insert_self 0 S)
  have hADDRESS : (p.table 0).prev ∈ S → p.ADDRESS E = L.addr E := fun hc =>
    h.core.ADDRESS_eq hEpos (h.core.end_lt (h.lt_of_mem hc))
  generalize (p.table 0).prev = c at *
  have hbound : c + (p.table c).freeSize ≤ E := by
    obtain rfl | hc := Finset.mem_insert.mp hprev
    · have := h.clusters.zero.2
      omega
    · exact h.clusters.bound c hc
  unfold Pool.endsCore
  dsimp only
  rw [h.core.sbrk_zero, add32_of_lt (by omega)]
  constructor
  · rintro ⟨hne, hsum, hptr⟩
    have hlimit' : p.info_limit = E := hlimit.resolve_right fun hzero => hne hzero.1
    rw [hlimit'] at hsum
    have hc : c ∈ S := by
      refine (Finset.mem_insert.mp hprev).resolve_left ?_
      rintro rfl
      have := h.clusters.zero.2
      omega
    rw [hsum, hADDRESS hc] at hptr
    exact ⟨hlimit', Option.some.inj hptr, hc, hsum⟩
  · rintro ⟨hlimit', hptr, hc, hsum⟩
    rw [hsum, hADDRESS hc, hptr]
    exact ⟨by omega, hlimit'.symm, rfl⟩

/-- Where free blocks end the core, the last cluster holds them. -/
theorem Heap.last_of_free (h : Heap p L S E) {m : Nat} (hm : 0 < m) (hmE : m < E)
    (hfree : ∀ i, E - m ≤ i → i < E → p.Free i) : (p.table 0).prev ∈ S ∧
      (p.table 0).prev + (p.table (p.table 0).prev).freeSize = E ∧
      m ≤ (p.table (p.table 0).prev).freeSize := by
  obtain ⟨c, hc, hcb, hle⟩ := h.clusters.run (b := E - m) (n := m) (by omega) hm (by omega)
    (fun i hi hlt => hfree i hi (by omega))
  have hbound := h.clusters.bound c hc
  -- no cluster comes behind this one
  have hlast : (p.table c).next = 0 := by
    by_contra hne
    have hcn : c ∈ insert 0 S := Finset.mem_insert_of_mem hc
    have hmem := (Finset.mem_insert.mp (h.clusters.ring.next_mem c hcn)).resolve_left hne
    have := h.clusters.apart c hc _ hmem (h.clusters.ring.lt_next c hcn hne)
    have := (h.clusters.lt_of_mem hmem).2
    omega
  have hprev := h.clusters.ring.prev_next c (Finset.mem_insert_of_mem hc)
  rw [hlast] at hprev
  rw [hprev]
  exact ⟨hc, by omega, by omega⟩

/-- A request that no cluster holds and that does not fit behind the core fails. -/
theorem Heap.not_served (h : Heap p L S E) (hlimit : Limit p L E) (hn : 0 < n)
    (hsmall : ∀ c ∈ S, (p.table c).freeSize < n) (htop : L.top ≤ p.ptr + n * L.blksz)
    (hend : p.endsCore (p.table 0).prev →
      L.top ≤ p.ptr + (n - (p.table (p.table 0).prev).freeSize) * L.blksz) :
    ¬ p.Served p.Free n := by
  rintro (⟨b, hb, hbn, hfree⟩ | ⟨m, hm, hlt, hlast⟩)
  · obtain ⟨c, hc, hcb, hle⟩ :=
      h.clusters.run hb hn (Nat.le_trans hbn (Heap.limit_le hlimit)) hfree
    have := hsmall c hc
    omega
  · rw [h.core.blksz, h.core.top] at hlt
    rcases Nat.eq_zero_or_pos m with rfl | hmpos
    · rw [Nat.sub_zero] at hlt
      omega
    · obtain ⟨hptr, hmlt, hfree⟩ := hlast hmpos
      have hlimit' : p.info_limit = E := hlimit.resolve_right fun hzero => by omega
      rw [hlimit'] at hptr hmlt hfree
      obtain ⟨hc, hsum, hle⟩ := h.last_of_free hmpos hmlt hfree
      rw [h.core.ADDRESS_eq h.core.pos (h.core.end_lt (h.lt_of_mem hc))] at hptr
      have hcore := hend ((h.endsCore_iff hlimit).mpr ⟨hlimit', hptr, hc, hsum⟩)
      have hmul := Nat.mul_le_mul_right L.blksz (Nat.sub_le_sub_left hle n)
      omega

/-- The last cluster is extended and becomes the object. -/
theorem Heap.extend (h : Heap p L S E) (hn : 0 < n) (hc : c ∈ S)
    (hlast : c + (p.table c).freeSize = E) (hlt : (p.table c).freeSize < n) {ptr : Nat}
    (hcore : Pool.Core { p with ptr := ptr, info_limit := E + (n - (p.table c).freeSize) } L
      (E + (n - (p.table c).freeSize))) :
    let p₁ := { p with
      ptr := ptr
      info_limit := E + (n - (p.table c).freeSize)
      table := p.table.setFreeSize c n
      bytes_free := add32 p.bytes_free (mul32 (n - (p.table c).freeSize) p.blksz) }
    Outcome p L S n (p₁.takeBlocks c n).1 (p₁.takeBlocks c n).2 := by
  intro p₁
  have hclusters := h.clusters.extend (n := n - (p.table c).freeSize) hc hlast
  rw [show (p.table c).freeSize + (n - (p.table c).freeSize) = n by omega] at hclusters
  have hsame : SameBusy p.table p₁.table := by
    intro b hb
    have hbc : b ≠ c := by
      rintro rfl
      rw [h.clusters.status_zero (Finset.mem_insert_of_mem hc)] at hb
      omega
    show p.table.setW1 c n b = _
    unfold Table.setW1
    simp only [hbc, if_false]
  have hheap : Heap p₁ L S (E + (n - (p.table c).freeSize)) :=
    ⟨{ hcore with }, hclusters, h.index, h.info.sameBusy hsame⟩
  have hcE := (h.clusters.lt_of_mem hc).2
  have hEsize := h.core.le_infoSize
  have hsum : ∑ d ∈ S, (p₁.table d).freeSize =
      ∑ d ∈ S, (p.table d).freeSize + (n - (p.table c).freeSize) := by
    have hsum' : ∑ d ∈ S, (p₁.table d).freeSize = _ := hclusters.sum_size
    rw [h.clusters.sum_size, hsum']
    exact card_freeBlocks_grow h.core.pos (fun i hi _ => h.clusters.beyond i hi)
  have hcharged : Charged p p₁ S S 0 0 := by
    constructor
    · rw [add_zero]
    · rw [add_zero]
    · rfl
    · show ((add32 p.bytes_free (mul32 (n - (p.table c).freeSize) p.blksz) : ℕ) : WordRing) -
        _ * (p.blksz : WordRing) = _
      unfold Pool.spareBytes
      rw [cast_add32, cast_mul32, hsum]
      push_cast
      ring
    · intro hcount
      exact ⟨hcount.chunks_used, hcount.bytes_used, hcount.chunks_free, add32_lt _ _⟩
  have hgrow : p.ptr ≤ ptr := h.core.ptr_le_of_grow hcore (by omega)
  have hsize : (p₁.table c).freeSize = n := if_pos rfl
  obtain ⟨S', hresult, hheap', htakes, hcharged', -⟩ :=
    hheap.takeBlocks hc hn (Nat.le_of_eq hsize.symm)
  have htotal := hcharged.trans hcharged'
  rw [zero_add, zero_add] at htotal
  rw [hresult]
  apply Outcome.some hheap' rfl _ htotal
  exact
    { mem := htakes.mem
      ptr := Nat.le_trans hgrow htakes.ptr
      free := htakes.free
      object := htakes.object
      same := hsame.trans htakes.same
      status := htakes.status
      beyond := fun i hi => by
        rw [htakes.beyond i hi]
        show p.table.setW1 c n i = _
        unfold Table.setW1
        simp only [show i ≠ c by omega, if_false] }

/-- The system gives more, or the request fails. -/
theorem Heap.moreBlocks (h : Heap p L S E) (hlimit : Limit p L E) (hn : 0 < n)
    (hsmall : ∀ c ∈ S, (p.table c).freeSize < n) (hwords : p.InWords p.Free n)
    (hwhole : p.Whole n) (hmul : n * L.blksz < 2 ^ 32) (start fuel : Nat) :
    ∃ p' r, moreBlocks p n start (fuel + 1) = some (p', r) ∧ Outcome p L S n p' r := by
  have hE := h.core.le_limit
  have htop := L.top_lt
  have hfit : ∀ m, 0 < m → m ≤ n → p.ptr + m * L.blksz < L.top →
      L.addr E + m * L.blksz ≤ L.top := by
    intro m hpos hm hlt
    have hw := hwhole m hpos hm
    rw [h.core.blksz, h.core.top, h.core.endOfCore_eq] at hw
    exact hw hlt
  -- the end of the core when the request goes behind it
  have hnew : (p.endsCore (p.table 0).prev →
      L.top ≤ p.ptr + (n - (p.table (p.table 0).prev).freeSize) * L.blksz) →
      ∃ p' r, p.newCore n = some (p', r) ∧ Outcome p L S n p' r := by
    intro hend
    by_cases hlt : p.ptr + n * L.blksz < L.top
    · exact h.newCore hn hlt (hfit n hn (Nat.le_refl n) hlt)
    · have hnot := h.not_served hlimit hn hsmall (by omega) hend
      have hword := hwords.resolve_left hnot
      rw [h.core.blksz] at hword
      unfold Pool.newCore
      rw [h.core.blksz, mul32_of_lt hmul, h.core.morecore_none (by omega) hword]
      exact ⟨p, none, rfl, .none hnot⟩
  unfold Alloc.moreBlocks
  dsimp only
  split
  · rename_i hends
    obtain ⟨hlimit', hptr, hc, hsum⟩ := (h.endsCore_iff hlimit).mp hends
    have hsize := hsmall _ hc
    have hpos := h.clusters.pos _ hc
    generalize hcdef : (p.table 0).prev = c at *
    have hle : (n - (p.table c).freeSize) * L.blksz ≤ n * L.blksz :=
      Nat.mul_le_mul_right _ (Nat.sub_le _ _)
    have hblksz := L.blksz_ge
    have hn32 : n < 2 ^ 32 := by
      have := Nat.mul_le_mul_left n (show 1 ≤ L.blksz by omega)
      omega
    have hsum' : (p.table c).freeSize + (n - (p.table c).freeSize) = n := by omega
    have hmul' : mul32 (n - (p.table c).freeSize) p.blksz = (n - (p.table c).freeSize) * L.blksz := by
      rw [h.core.blksz, mul32_of_lt (by omega)]
    rw [sub32_of_le (by omega) hn32, hmul']
    by_cases hlt : p.ptr + (n - (p.table c).freeSize) * L.blksz < L.top
    · -- the extended cluster is long enough, so the search ends there
      obtain ⟨ptr, hmore, hcore⟩ := h.core.morecore_eq hlt (hfit _ (by omega) (Nat.sub_le _ _) hlt)
      have hextend := h.extend hn hc hsum hsize hcore
      rw [hmore, Option.bind_some]
      dsimp only [Option.isSome_some]
      rw [if_pos rfl, hcdef,
        add32_of_lt (show (p.table c).freeSize + (n - (p.table c).freeSize) < 2 ^ 32 by omega),
        hsum', search_succ, if_neg (by
        show ¬ (if c = c then n else _) < n
        rw [if_pos rfl]
        omega)]
      exact ⟨_, _, rfl, hextend⟩
    · have hword : p.ptr + (n - (p.table c).freeSize) * L.blksz < 2 ^ 32 := by
        rcases hwords with hserved | hword
        · by_contra hge
          exact h.not_served hlimit hn hsmall (by omega) (fun _ => by
            rw [hcdef]
            omega) hserved
        · rw [h.core.blksz] at hword
          omega
      rw [h.core.morecore_none (by omega) hword]
      exact hnew (fun _ => by omega)
  · rename_i hends
    exact hnew (fun hyes => absurd hyes hends)

/-- The search comes to an end. -/
theorem Heap.search (h : Heap p L S E) (hlimit : Limit p L E) (hn : 0 < n)
    (hwords : p.InWords p.Free n) (hwhole : p.Whole n) (hmul : n * L.blksz < 2 ^ 32)
    {start block fuel : Nat}
    (hstart : start ∈ insert 0 S) (hblock : block ∈ insert 0 S)
    (hpassed : ∀ x ∈ insert 0 S, SortedRing.Passed start block x → (p.table x).freeSize < n)
    (hfuel : SortedRing.remaining 0 S start block < fuel) :
    ∃ p' r, p.search n start fuel block = some (p', r) ∧ Outcome p L S n p' r := by
  induction fuel generalizing block with
  | zero => contradiction
  | succ fuel ih =>
    rw [search_succ]
    split
    · rename_i hlt
      -- the clusters that were passed, and this one, are too small
      split
      · rename_i hback
        have hsmall : ∀ c ∈ S, (p.table c).freeSize < n := by
          intro c hc
          have hcn : c ∈ insert 0 S := Finset.mem_insert_of_mem hc
          obtain hp | rfl := h.clusters.ring.passed_all hstart hblock hcn hback
          · exact hpassed c hcn hp
          · exact hlt
        have hpos := SortedRing.remaining_pos hblock (s := start)
        obtain ⟨fuel, rfl⟩ : ∃ k, fuel = k + 1 := ⟨fuel - 1, by omega⟩
        exact h.moreBlocks hlimit hn hsmall hwords hwhole hmul start fuel
      · rename_i hne
        apply ih (h.clusters.ring.next_mem block hblock)
        · intro x hx hp
          obtain hp | rfl := (h.clusters.ring.passed_next hstart hblock hx hne).mp hp
          · exact hpassed x hx hp
          · exact hlt
        · have := h.clusters.ring.remaining_next hstart hblock hne
          omega
    · rename_i hge
      have hc : block ∈ S := by
        refine (Finset.mem_insert.mp hblock).resolve_left ?_
        rintro rfl
        have := h.clusters.zero.2
        omega
      exact ⟨_, _, rfl, h.takeBlocks_outcome hlimit hc hn (by omega)⟩

/-- The table has an entry for each cluster. -/
theorem Heap.card_le (h : Heap p L S E) : S.card + 1 ≤ p.info_size := by
  have hsub : S ⊆ Finset.Ioo 0 E := fun c hc => Finset.mem_Ioo.mpr (h.clusters.lt_of_mem hc)
  have hcard := Finset.card_le_card hsub
  have hle := h.core.le_infoSize
  have hpos := h.core.pos
  rw [Nat.card_Ioo] at hcard
  rw [h.core.info_size]
  omega

/-- `__malloc` of one or more blocks. -/
theorem Heap.mallocBlocks (h : Heap p L S E) (hlimit : Limit p L E) {size : Nat}
    (hpos : 0 < size) (hsize : size + L.blksz - 1 < 2 ^ 32)
    (hwords : p.InWords p.Free (p.BLOCKIFY size)) (hwhole : p.Whole (p.BLOCKIFY size)) :
    ∃ p' r, p.mallocBlocks size = some (p', r) ∧ Outcome p L S (p.BLOCKIFY size) p' r := by
  have hblocks := h.core.le_BLOCKIFY hsize
  have hcard := h.card_le
  have hleft := SortedRing.remaining_le (z := 0) (S := S) p.info_index p.info_index
  apply h.search hlimit ?_ hwords hwhole ?_ h.index h.index ?_ (by omega)
  · by_contra hzero
    rw [Nat.eq_zero_of_not_pos hzero, Nat.zero_mul] at hblocks
    omega
  · omega
  · intro x _ hp
    exact absurd hp (SortedRing.not_passed_start _ _)

/-! ### Freeing -/

theorem Heap.run_le (h : Heap p L S E) (hobj : p.table.IsRun b n) : b + n ≤ E := by
  have hpos := hobj.pos
  by_contra hgt
  have hone := hobj.status (b + n - 1) (by omega) (by omega)
  rw [h.clusters.beyond _ (by omega)] at hone
  contradiction

theorem Gives.object {p' : Pool} (hgives : Gives p p' L b n) {c m : Nat}
    (hobj : p.table.IsObject c m) (hout : c + m ≤ b ∨ b + n ≤ c) : p'.table.IsObject c m :=
  hobj.congr fun i hi hlt => hgives.same i (hobj.status i hi hlt) (by omega)

/-- The pool in which the `n` blocks at `b` are a part of the cluster `c`. -/
structure Joined (p p' : Pool) (L : Layout) (S S' : Finset Nat) (E b n c : Nat) : Prop where
  core : p'.Core L E
  limit : p'.info_limit = p.info_limit
  ptr : p'.ptr = p.ptr
  clusters : p'.table.Clusters S' E
  info : p'.table.IsObject 1 L.infoBlocks
  mem : c ∈ S'
  le : c ≤ b
  ge : b + n ≤ c + (p'.table c).freeSize
  gives : Gives p p' L b n
  charged : Charged p p' S S' (-1) (-(n * L.blksz))

variable {S' : Finset Nat}

theorem Joined.heap (h : Joined p p' L S S' E b n c) :
    Heap { p' with info_index := c } L S' E where
  core := h.core.update _ _ _ _ _ _ _ _
  clusters := h.clusters
  index := Finset.mem_insert_of_mem h.mem
  info := h.info

/-- Without a limit the core keeps its end. -/
theorem Joined.giveBack_zero (h : Joined p p' L S S' E b n c)
    (hlimit : p.info_limit = 0) : p'.giveBack c = { p' with info_index := c } := by
  have hbound := h.clusters.bound c h.mem
  have hE := h.core.le_limit
  have hpos := h.clusters.pos c h.mem
  have hlimit' : p'.info_limit = 0 := h.limit.trans hlimit
  have hsum : add32 c (p'.table c).freeSize = c + (p'.table c).freeSize := add32_of_lt (by omega)
  unfold Pool.giveBack
  exact if_neg fun hcond => by omega

/-- The last cluster leaves the core. -/
theorem Joined.giveBack_last (h : Joined p p' L S S' E b n c)
    (hlast : c + (p'.table c).freeSize = E) :
    let q := { p' with
      ptr := L.addr c
      info_limit := c
      table := p'.table.unlink c
      info_index := (p'.table c).prev
      chunks_free := sub32 p'.chunks_free 1
      bytes_free := sub32 p'.bytes_free (mul32 (p'.table c).freeSize p'.blksz) }
    Heap q L (S'.erase c) c ∧ Gives p q L b n ∧
      Charged p q S (S'.erase c) (-1) (-(n * L.blksz)) := by
  intro q
  have hpos := h.clusters.lt_of_mem h.mem
  have hsize := h.clusters.pos c h.mem
  have hEsize := h.core.le_infoSize
  have hinfo : L.infoBlocks < c := by
    by_contra hle
    have hone := h.info.status c hpos.1 (by omega)
    rw [h.clusters.status_zero (Finset.mem_insert_of_mem h.mem)] at hone
    contradiction
  obtain ⟨hclusters, hindex⟩ := h.clusters.giveBack h.mem hlast
  have hsame : ∀ x, (p'.table x).status = 1 ∨ E ≤ x → q.table x = p'.table x := fun x hx =>
    h.clusters.unlink_of_notMem h.mem (h.clusters.notMem h.core.pos hx)
  have hsum : ∑ d ∈ S', (p'.table d).freeSize =
      ∑ d ∈ S'.erase c, (q.table d).freeSize + (p'.table c).freeSize := by
    have hsum' : ∑ d ∈ S'.erase c, (q.table d).freeSize = (p'.table.freeBlocks c).card :=
      hclusters.sum_size
    have hgrow := card_freeBlocks_grow (t := p'.table) (n := (p'.table c).freeSize) hpos.1
      (fun i hi hlt => h.clusters.free c h.mem i hi hlt)
    rw [hlast] at hgrow
    rw [h.clusters.sum_size, hsum', hgrow]
  refine ⟨⟨?_, hclusters, hindex, h.info.sameBusy fun x hx => hsame x (.inl hx)⟩, ?_, ?_⟩
  · exact (h.core.shrink hinfo (by omega) c).update _ _ _ _ _ _ _ _
  · constructor
    · exact h.gives.mem
    · exact h.gives.status
    · intro i hi hout
      have heq := h.gives.same i hi hout
      exact (hsame i (.inl (by rw [heq]; exact hi))).trans heq
    · intro i hi
      exact (hsame i (.inr (by omega))).trans (h.gives.beyond i hi)
  · have hcard := Finset.card_erase_add_one h.mem
    have hleave : Charged p' q S' (S'.erase c) 0 0 := by
      constructor
      · rw [add_zero]
      · rw [add_zero]
      · show ((sub32 p'.chunks_free 1 : ℕ) : WordRing) - (S'.erase c).card =
          p'.chunks_free - S'.card
        rw [← hcard, cast_sub32]
        push_cast
        ring
      · show ((sub32 p'.bytes_free (mul32 (p'.table c).freeSize p'.blksz) : ℕ) : WordRing) -
          _ * (p'.blksz : WordRing) = _
        unfold Pool.spareBytes
        rw [cast_sub32, cast_mul32, hsum]
        push_cast
        ring
      · intro hcount
        exact ⟨hcount.chunks_used, hcount.bytes_used, sub32_lt _ _, sub32_lt _ _⟩
    have htotal := h.charged.trans hleave
    rwa [add_zero, add_zero] at htotal

/-- The last cluster may leave the core. -/
theorem Joined.giveBack (h : Joined p p' L S S' E b n c) (hlimit : p.info_limit = E) :
    ∃ S'' E', Heap (p'.giveBack c) L S'' E' ∧ (p'.giveBack c).info_limit = E' ∧
      Gives p (p'.giveBack c) L b n ∧
      Charged p (p'.giveBack c) S S'' (-1) (-(n * L.blksz)) := by
  have hbound := h.clusters.bound c h.mem
  have hE := h.core.le_limit
  have hpos := h.clusters.lt_of_mem h.mem
  have hEaddr : L.addr E < 2 ^ 32 := by
    apply h.core.end_lt
    have hfree := h.clusters.status_zero (Finset.mem_insert_of_mem h.mem)
    have := h.heap.infoBlocks_lt hpos.1 hfree
    omega
  have hlimit' : p'.info_limit = E := h.limit.trans hlimit
  have hsum : add32 c (p'.table c).freeSize = c + (p'.table c).freeSize := add32_of_lt (by omega)
  unfold Pool.giveBack
  dsimp only
  split
  · rename_i hcond
    obtain ⟨-, hlast, hptr⟩ := hcond
    rw [hlast, hlimit', h.core.sbrk_zero, h.core.ADDRESS_eq h.core.pos hEaddr] at hptr
    have hlast' : c + (p'.table c).freeSize = E := by rw [← hsum, hlast, hlimit']
    have hrest : sub32 E (p'.table c).freeSize = c := by
      rw [sub32_of_le (by omega) (by omega)]
      omega
    have hcore : Pool.Core { p' with info_limit := c } L E := h.core.update _ _ _ _ _ _ _ _
    have hsbrk := hcore.sbrk_neg (Option.some.inj hptr) hpos.1 hlast'
    rw [← h.core.blksz] at hsbrk
    obtain ⟨hheap, hgives, hcharged⟩ := h.giveBack_last hlast'
    rw [hlimit', hrest, hsbrk]
    exact ⟨_, c, hheap, rfl, hgives, hcharged⟩
  · have hcounters : p.Counters → Pool.Counters { p' with info_index := c } := fun hcount =>
      { h.charged.counters hcount with }
    exact ⟨S', E, h.heap, hlimit', { h.gives with }, { h.charged with counters := hcounters }⟩

theorem linkBlock_eq (i block : Nat) : p.linkBlock i block =
    let r := p.table.joinPrev i block
    let chunks := if block = add32 i (p.table i).freeSize then p.chunks_free
      else add32 p.chunks_free 1
    ({ p with
        table := r.1.joinNext r.2
        chunks_free := if add32 r.2 (r.1 r.2).freeSize = (r.1 r.2).next then sub32 chunks 1
          else chunks }, r.2) := by
  unfold Pool.linkBlock joinPrev joinNext
  by_cases heq : block = add32 i (p.table i).freeSize
  · simp only [if_pos heq]
    split <;> rfl
  · simp only [if_neg heq]
    split <;> rfl

/-- The blocks join the clusters. -/
theorem Heap.joined (h : Heap p L S E) (hobj : p.table.IsRun b n) (hb : L.infoBlocks < b) :
    ∃ p' S' c, p.freeBlocks b = some (p'.giveBack c) ∧ Joined p p' L S S' E b n c := by
  have hE := h.core.le_limit
  have hbE := h.run_le hobj
  have hpos := hobj.pos
  have h32 : b + n ≤ 2 ^ 32 := by omega
  have hbusy : Busy p.table S E b n := ⟨hpos, by omega, hbE, hobj.status⟩
  have hsize := h.core.le_infoSize
  have hindex : p.info_index < E := by
    obtain hzero | hS := Finset.mem_insert.mp h.index
    · omega
    · exact (h.clusters.lt_of_mem hS).2
  obtain ⟨i, hi, hbefore⟩ := findPrev_spec (h.clusters.ring_freed (b := b) hpos h32)
    (hbusy.notMem h.clusters) h.index
    (show p.info_index < p.info_size + 2 by rw [h.core.info_size]; omega)
    (by rw [h.core.info_size]; omega)
  obtain ⟨S₁, t₁, c, ht₁, htouch, hcS₁, hcb, hge, hcard₁, hsame₁⟩ :=
    hbusy.joinPrev h.clusters hE hobj.size hbefore
  obtain ⟨S₂, hclusters, hc, hle, hcard₂, hsame₂⟩ := htouch.joinNext hE hcS₁
  have hstatus : ∀ x, (t₁.joinNext c x).status =
      if b ≤ x ∧ x < b + n then 0 else (p.table x).status := by
    intro x
    have hprev := joinPrev_status (t := p.table.freed b n) (i := i) (b := b) x
    rw [ht₁] at hprev
    rw [joinNext_status, hprev, freed_status hpos h32]
  have hsame : ∀ x, (p.table x).status = 1 ∨ E ≤ x → x < b ∨ b + n ≤ x →
      t₁.joinNext c x = p.table x := by
    intro x hx hout
    obtain ⟨hnot, heq⟩ := hsame₁ x (h.clusters.notMem h.core.pos hx) hout
    rw [hsame₂ x hnot, heq]
  have hsum : ∑ d ∈ S₂, (t₁.joinNext c d).freeSize = ∑ d ∈ S, (p.table d).freeSize + n := by
    rw [h.clusters.sum_size, hclusters.sum_size]
    exact card_freeBlocks_flip (by omega) hbE hobj.status hstatus
  have hgives : ∀ q : Pool, q.mem = p.mem → q.table = t₁.joinNext c → Gives p q L b n := by
    intro q hmem htable
    constructor
    · exact hmem
    · intro x
      rw [htable]
      exact hstatus x
    · intro x hx hout
      rw [htable]
      exact hsame x (.inl hx) hout
    · intro x hx
      rw [htable]
      exact hsame x (.inr (by omega)) (by omega)
  unfold Pool.freeBlocks
  dsimp only
  rw [hobj.size]
  unfold freed at hi ht₁ hcard₁
  rw [hi, Option.map_some, linkBlock_eq]
  dsimp only
  rw [ht₁]
  refine ⟨_, S₂, c, rfl, ?_⟩
  constructor
  · exact h.core.update _ _ _ _ _ _ _ _
  · rfl
  · rfl
  · exact hclusters
  · exact (hgives _ (by rfl) (by rfl)).object h.info (.inl (by omega))
  · exact hc
  · exact hcb
  · exact Nat.le_trans hge (Nat.add_le_add_left hle c)
  · exact hgives _ (by rfl) (by rfl)
  · constructor
    · dsimp only
      rw [cast_sub32, Nat.cast_one]
      ring
    · dsimp only
      rw [cast_sub32, cast_mul32, h.core.blksz]
      ring
    · exact cast_joined hcard₁ hcard₂
    · unfold Pool.spareBytes
      dsimp only
      rw [cast_add32, cast_mul32, hsum]
      push_cast
      ring
    · intro hcount
      refine ⟨sub32_lt _ _, sub32_lt _ _, ?_, add32_lt _ _⟩
      dsimp only
      split
      · exact sub32_lt _ _
      · split
        · exact hcount.chunks_free
        · exact add32_lt _ _

/-- `__free` of a large object. -/
theorem Heap.freeBlocks (h : Heap p L S E) (hobj : p.table.IsRun b n) (hb : L.infoBlocks < b)
    (hlimit : Limit p L E) : ∃ p' S' E', p.freeBlocks b = some p' ∧ Heap p' L S' E' ∧
      p'.info_limit = E' ∧ Gives p p' L b n ∧ Charged p p' S S' (-1) (-(n * L.blksz)) := by
  have hbE := h.run_le hobj
  have hpos := hobj.pos
  have hlimit' : p.info_limit = E := hlimit.resolve_right fun hzero => by omega
  obtain ⟨p', S', c, hfree, hjoined⟩ := h.joined hobj hb
  obtain ⟨S'', E', hheap, hlim, hgives, hcharged⟩ := hjoined.giveBack hlimit'
  exact ⟨_, S'', E', hfree, hheap, hlim, hgives, hcharged⟩

end

end Hcrtos.Native.Alloc
