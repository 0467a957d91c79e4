import Hcrtos.Spec.AllocMalloc

/-!
# Freeing

The assertions of `__free` let through exactly the pointers at which an owned region starts, as
long as the links of free fragments lead into the kernel's half of the address space. The region
is then free, and the others keep their bytes.

## Key results

- `Sound.live_of_checkFree`, `Heap.checkFree_of_run`, `Sound.checkFree_of_frag`: what the
  assertions let through
- `Owns.free`: all of `__free`
-/

namespace Hcrtos.Native.Alloc

open Word Memory IntrusiveList Table

/-! ### The walk over free fragments -/

theorem checkFrags_iff {m : Mem} {ptr h : Nat} {xs ys : List Nat} (hl : DList m h (xs ++ ys)) :
    Pool.checkFrags m ptr xs.length (next m h) = true ↔ ∀ u ∈ xs, ptr ≠ u ∧ 2 ^ 31 ≤ u := by
  induction xs generalizing h with
  | nil => simp [Pool.checkFrags]
  | cons x xs ih =>
    obtain ⟨hx, -, htail⟩ := hl
    rw [List.length_cons, hx, Pool.checkFrags, Bool.and_eq_true, Bool.and_eq_true, ih htail,
      List.forall_mem_cons]
    simp

section

variable {p p' : Pool} {L : Layout} {S S' : Finset Nat} {E b c n a log k : Nat}
  {blocks run : Nat → List Nat} {R : Finset (Nat × Nat)}

/-- The first free fragment of a block. -/
theorem Frags.firstFrag_eq (h : Frags p L blocks run) (hheap : Heap p L S E)
    (hfrag : Fragmented p.table b log) {ks : List Nat} (hrun : run b = k :: ks) :
    p.firstFrag b = L.frag b log k := by
  obtain ⟨hb, hbE⟩ := hfrag.pos hheap
  have hk : k < L.count log := h.run_lt b log hfrag k (by simp [hrun])
  have hfirst : (p.table b).first = k := h.first b log hfrag k (by simp [hrun])
  have hbounds := frag_bounds hheap h.type hfrag hk
  have hend := hheap.core.end_le_word
  have haddr := hheap.core.addr_lt (b := b) (by omega) hbE
  unfold Layout.frag at hbounds ⊢
  unfold Pool.firstFrag
  rw [hheap.core.ADDRESS_eq (by omega) haddr, hfirst, hfrag.2.1, mul32_of_lt (by omega),
    add32_of_lt (by omega)]

/-- The assertions on the free fragments of a block. -/
theorem Frags.checkFrags_iff (h : Frags p L blocks run) (hheap : Heap p L S E)
    (hfrag : Fragmented p.table b log) : Pool.checkFrags p.mem a (p.table b).nfree
      (p.firstFrag b) = true ↔ ∀ k ∈ run b, a ≠ L.frag b log k ∧ 2 ^ 31 ≤ L.frag b log k := by
  rw [h.nfree b log hfrag]
  cases hrun : run b with
  | nil => simp [Pool.checkFrags]
  | cons k ks =>
    have hlog := h.type b log hfrag
    have hb : b ∈ blocks log := (h.mem_blocks log b).mpr ⟨hfrag, by simp [hrun]⟩
    obtain ⟨bs, bs', hblocks⟩ := List.append_of_mem hb
    have hl := h.list log hlog.1 hlog.2
    rw [@freeFrags_split L b log blocks run bs bs' hblocks] at hl
    have hnext := hl.drop.next_eq
    rw [hrun, List.map_cons, List.cons_append, List.headD_cons] at hnext
    have hcheck := @Alloc.checkFrags_iff _ a _ _ _ hl.drop
    rw [hnext, List.length_map, hrun] at hcheck
    rw [h.firstFrag_eq hheap hfrag hrun, hcheck, List.forall_mem_map]

variable (h : Sound p L S E blocks run R)
include h

/-- Regions start in the core behind the info table. -/
theorem Sound.bounds (hr : (a, c) ∈ R) :
    L.base + 16 * L.infoSize ≤ a ∧ a + c ≤ L.addr E ∧ 0 < c := by
  have hin := (h.holds hr).inside h.heap h.frags.type
  have hinfo : 16 * L.infoSize ≤ L.infoBlocks * L.blksz := L.info_le
  have haddr : L.addr (L.infoBlocks + 1) = L.base + L.infoBlocks * L.blksz := rfl
  omega

/-- A block of the core that `__free` takes for one that it may free. -/
theorem Sound.block_of_status (ha : L.base ≤ a) (ha' : a < 2 ^ 32) :
    0 < p.BLOCK a ∧ L.addr (p.BLOCK a) ≤ a ∧ a < L.addr (p.BLOCK a) + L.blksz := by
  have hge := L.blksz_ge
  have hblock : p.BLOCK a = (a - L.base) / L.blksz + 1 := by
    unfold Pool.BLOCK
    rw [h.heap.core.base, h.heap.core.blksz, sub32_of_le ha ha']
  have hdiv := Nat.div_add_mod (a - L.base) L.blksz
  have hmod := Nat.mod_lt (a - L.base) (show L.blksz > 0 by omega)
  rw [Nat.mul_comm] at hdiv
  rw [hblock]
  unfold Layout.addr
  rw [Nat.add_sub_cancel]
  generalize (a - L.base) / L.blksz = q at *
  omega

/-- Every pointer that the assertions let through is one to an owned region. -/
theorem Sound.live_of_checkFree (ha : a < 2 ^ 32) (hcheck : p.checkFree a = true) :
    ∃ c, (a, c) ∈ R := by
  have hcore := h.heap.core
  have hsize := hcore.le_infoSize
  have hlim := L.infoSize_le
  have hinfo := L.infoBlocks_lt
  unfold Pool.checkFree at hcheck
  simp only [Bool.and_eq_true, Bool.not_eq_true', Bool.or_eq_false_iff, decide_eq_false_iff_not,
    Bool.and_eq_false_iff, decide_eq_true_eq] at hcheck
  obtain ⟨⟨⟨hrange, htable⟩, hstatus⟩, hcheck⟩ := hcheck
  rw [hcore.base] at hrange
  rw [hcore.info, hcore.info_end] at htable
  obtain ⟨hb, hle, hlt⟩ := h.block_of_status (a := a) (by omega) ha
  generalize p.BLOCK a = b at *
  have hbE : b < E := by
    by_contra hge
    rw [h.heap.clusters.beyond b (by omega)] at hstatus
    contradiction
  have haddr := hcore.addr_lt hb hbE
  split at hcheck
  · -- a large object, and the pointer is one to its first block
    rename_i htype
    rw [hcore.ADDRESS_eq hb haddr, Bool.and_eq_true, decide_eq_true_eq, decide_eq_true_eq] at hcheck
    obtain ⟨rfl, hpos⟩ := hcheck
    have hback : ∀ c n, p.table.IsObject c n → c ≤ b → b < c + n → c = b := by
      intro c n hobj hcb hbc
      by_contra hne
      have := hobj.back b (by omega) hbc
      omega
    by_cases hbi : b ≤ L.infoBlocks
    · -- the first block of the info table is where it starts
      obtain rfl := hback 1 L.infoBlocks h.heap.info hb (by omega)
      unfold Layout.addr at htable
      omega
    · obtain ⟨c, n, hc, hobj, hcb, hbc⟩ := h.cover b (by omega) hstatus htype
      obtain rfl := hback c n hobj hcb hbc
      exact ⟨_, (h.regions _ _).mpr (.object c n hc hobj)⟩
  · -- a fragment that is not free
    rename_i htype
    have hfrag : Fragmented p.table b (p.table b).type := ⟨hstatus, rfl, htype⟩
    have hlog := h.frags.type b _ hfrag
    rw [Bool.and_eq_true, decide_eq_true_eq, h.frags.checkFrags_iff h.heap hfrag] at hcheck
    obtain ⟨hmod, hrun⟩ := hcheck
    generalize (p.table b).type = log at *
    have hpow := Nat.two_pow_pos log
    obtain ⟨k, hk⟩ : 2 ^ log ∣ a - L.addr b := by
      apply Nat.dvd_sub (Nat.dvd_of_mod_eq_zero hmod)
      exact Nat.dvd_trans (Nat.pow_dvd_pow 2 (by omega)) L.addr_dvd
    have hafrag : a = L.frag b log k := by
      unfold Layout.frag
      rw [Nat.mul_comm] at hk
      omega
    have hkcount : k < L.count log := by
      have hcount := L.count_mul (show log ≤ L.log by omega)
      rw [Nat.mul_comm] at hk
      by_contra hge
      have := Nat.mul_le_mul_right (2 ^ log) (Nat.le_of_not_lt hge)
      omega
    have hnot : k ∉ run b := fun hmem => (hrun k hmem).1 hafrag
    exact ⟨2 ^ log, (h.regions _ _).mpr (hafrag ▸ .frag b log k hfrag hkcount hnot)⟩

omit h in
/-- The assertions let all large objects through. -/
theorem Heap.checkFree_of_run (h : Heap p L S E) (hrun : p.table.IsRun b n)
    (hb : L.infoBlocks < b) : p.checkFree (L.addr b) = true := by
  have hcore := h.core
  have hend := hcore.lt_ptr
  have hsize := hcore.le_infoSize
  have hlim := L.infoSize_le
  have hle := h.run_le hrun
  have hpos := hrun.pos
  have hsucc := L.addr_succ (b := b) (by omega)
  have haddrE := L.addr_le (b := b + 1) (c := E) (by omega) (by omega)
  have haddr := hcore.addr_lt (b := b) (by omega) (by omega)
  -- the block is behind those of the info table
  have hinfo : 16 * L.infoSize ≤ L.infoBlocks * L.blksz := L.info_le
  have hbehind := L.addr_le (b := L.infoBlocks + 1) (by omega) hb
  have hbehind' : L.addr (L.infoBlocks + 1) = L.base + L.infoBlocks * L.blksz := rfl
  unfold Pool.checkFree
  simp only [Bool.and_eq_true, Bool.not_eq_true', Bool.or_eq_false_iff, decide_eq_false_iff_not,
    Bool.and_eq_false_iff, decide_eq_true_eq]
  rw [hcore.base, hcore.info, hcore.info_end, hcore.BLOCK_addr (by omega) haddr,
    if_pos (hrun.type b (Nat.le_refl b) (by omega)), hrun.size, hcore.ADDRESS_eq (by omega) haddr]
  refine ⟨⟨⟨by omega, by omega⟩, hrun.status b (Nat.le_refl b) (by omega)⟩, ?_⟩
  simp
  omega

/-- The assertions let a fragment through that starts in the core, where the free ones of its
    block are in the kernel's half of the address space. -/
theorem Sound.checkFree_of_frag (hfrag : Fragmented p.table b log) (hk : k < L.count log)
    (hnot : k ∉ run b) (hptr : L.frag b log k ≤ p.ptr)
    (hhigh : ∀ j ∈ run b, 2 ^ 31 ≤ L.frag b log j) : p.checkFree (L.frag b log k) = true := by
  obtain ⟨hb, hbE⟩ := hfrag.pos h.heap
  have hcore := h.heap.core
  have hlog := h.frags.type b log hfrag
  have hhold : Holds p L run (L.frag b log k) (2 ^ log) := .frag b log k hfrag hk hnot
  have hbounds := h.bounds ((h.regions _ _).mpr hhold)
  unfold Pool.checkFree
  simp only [Bool.and_eq_true, Bool.not_eq_true', Bool.or_eq_false_iff, decide_eq_false_iff_not,
    Bool.and_eq_false_iff, decide_eq_true_eq]
  rw [hcore.base, hcore.info, hcore.info_end, hcore.BLOCK_frag (by omega) hbE (by omega) hk,
    hfrag.2.1, if_neg hfrag.2.2, Bool.and_eq_true, decide_eq_true_eq,
    h.frags.checkFrags_iff h.heap hfrag]
  refine ⟨⟨⟨by omega, by omega⟩, hfrag.1⟩, Nat.mod_eq_zero_of_dvd (L.frag_dvd (by omega)), ?_⟩
  intro j hj
  exact ⟨h.frags.ne_free h.heap hhold hfrag hj, hhigh j hj⟩

/-- The reasons for which the assertions reject the pointer to a region: it is behind the end of
    the core, or there are fragments outside of the kernel's half of the address space. -/
def Pool.MayReject (p : Pool) (a : Nat) : Prop := p.ptr < a ∨ p.base < 2 ^ 31

/-- The assertions let all other pointers to regions through. -/
theorem Sound.checkFree_of_region (hr : (a, c) ∈ R) (hnot : ¬ p.MayReject a) :
    p.checkFree a = true := by
  unfold Pool.MayReject at hnot
  rw [h.heap.core.base] at hnot
  cases h.holds hr with
  | object b n hb hobj => exact h.heap.checkFree_of_run hobj.toIsRun hb
  | frag b log k hfrag hk hfree =>
    apply h.checkFree_of_frag hfrag hk hfree (by omega)
    intro j _
    have := L.base_le_addr (b := b)
    have : L.addr b ≤ L.frag b log j := L.addr_le_frag
    omega

/-! ### A fragment -/

omit h in
/-- The branches of `__free` of a fragment, with the counters of each. -/
theorem freeFrag_eq (hblock : p.BLOCK a = b) (htype : (p.table b).type = log)
    (free : Pool → Nat → Option Pool) : p.freeFrag free a =
      if (p.table b).nfree = sub32 (p.fragCount log) 1 then
        free { p with
          mem := unlink p.mem (p.firstFrag b)
            (walk p.mem (p.fragCount log - 1) (p.firstFrag b))
          table := (p.table.setType b 0).setSize b 1
          chunks_used := add32 (sub32 p.chunks_used 1) 1
          bytes_used := add32 (sub32 p.bytes_used (2 ^ log)) p.blksz
          chunks_free := sub32 (add32 p.chunks_free 1) (p.fragCount log)
          bytes_free := sub32 (add32 p.bytes_free (2 ^ log)) p.blksz } (p.ADDRESS b)
      else some { p with
        mem := insertAfter p.mem (if (p.table b).nfree ≠ 0 then p.firstFrag b else p.frag log) a
        table := if (p.table b).nfree ≠ 0 then p.table.setNfree b (add32 (p.table b).nfree 1)
          else (p.table.setNfree b 1).setFirst b (a % p.blksz / 2 ^ log)
        chunks_used := sub32 p.chunks_used 1
        bytes_used := sub32 p.bytes_used (2 ^ log)
        chunks_free := add32 p.chunks_free 1
        bytes_free := add32 p.bytes_free (2 ^ log) } := by
  subst hblock htype
  unfold Pool.freeFrag Pool.fragCount Pool.firstFrag Pool.ADDRESS Pool.frag
  dsimp only
  by_cases hfull : (p.table (p.BLOCK a)).nfree =
      sub32 (p.blksz / 2 ^ (p.table (p.BLOCK a)).type) 1
  · rw [if_pos hfull, if_pos hfull]
  · rw [if_neg hfull, if_neg hfull]
    by_cases hpos : (p.table (p.BLOCK a)).nfree ≠ 0
    · rw [if_pos hpos, if_pos hpos, if_pos hpos]
    · rw [if_neg hpos, if_neg hpos, if_neg hpos]

/-- A freed fragment joins the free ones of its block, which are not all the others. -/
theorem Sound.freeFrag (hfrag : Fragmented p.table b log) (hk : k < L.count log)
    (hnot : k ∉ run b) (hfull : (p.table b).nfree ≠ L.count log - 1)
    (free : Pool → Nat → Option Pool) :
    ∃ p' blocks' run', p.freeFrag free (L.frag b log k) = some p' ∧
      Sound p' L S E blocks' run' (R.erase (L.frag b log k, 2 ^ log)) ∧
      SameBytes (R.erase (L.frag b log k, 2 ^ log)) p.mem p'.mem := by
  obtain ⟨hb, hbE⟩ := hfrag.pos h.heap
  have hlog := h.frags.type b log hfrag
  have hcore := h.heap.core
  have hblock := hcore.BLOCK_frag (by omega) hbE (by omega) hk
  have hlength := h.frags.length_run_le hfrag
  have hblksz := L.blksz_le
  have hnfree := h.frags.nfree b log hfrag
  have hsize := hcore.le_infoSize
  have hmem : (L.frag b log k, 2 ^ log) ∈ R := (h.regions _ _).mpr (.frag b log k hfrag hk hnot)
  obtain ⟨hcard, hsum⟩ := sum_erase_region hmem
  have hcount : 0 < L.count log := L.count_pos
  rw [freeFrag_eq hblock hfrag.2.1, hcore.fragCount_eq (by omega), sub32_of_le (by omega) (by omega),
    if_neg hfull]
  generalize hq : ({ p with
      mem := insertAfter p.mem (if (p.table b).nfree ≠ 0 then p.firstFrag b else p.frag log)
        (L.frag b log k)
      table := if (p.table b).nfree ≠ 0 then p.table.setNfree b (add32 (p.table b).nfree 1)
        else (p.table.setNfree b 1).setFirst b (L.frag b log k % p.blksz / 2 ^ log)
      chunks_used := sub32 p.chunks_used 1
      bytes_used := sub32 p.bytes_used (2 ^ log)
      chunks_free := add32 p.chunks_free 1
      bytes_free := add32 p.bytes_free (2 ^ log) } : Pool) = q
  -- the fragment comes first in its block, or behind the first free one
  obtain ⟨blocks', ks, hfrags, hks, hframe⟩ : ∃ blocks' ks,
      Frags q L blocks' (Function.update run b ks) ∧ (∀ j, j ∉ ks ↔ j ∉ run b ∧ j ≠ k) ∧
      ∀ a c, Holds p L run a c → a ≠ L.frag b log k → ∀ x, a ≤ x → x < a + c →
        q.mem x = p.mem x := by
    cases hrun : run b with
    | nil =>
      have hzero : ¬ (p.table b).nfree ≠ 0 := by
        rw [hnfree, hrun]
        simp
      rw [if_neg hzero, if_neg hzero, hcore.frag_eq, hcore.blksz, L.frag_mod (by omega) hk] at hq
      obtain ⟨hfrags, hframe⟩ := h.frags.insertFirst h.heap hfrag hk hrun
        (show q.mem = insertAfter p.mem (L.head log) (L.frag b log k) by rw [← hq])
        (show q.table = (p.table.setNfree b 1).setFirst b k by rw [← hq])
      refine ⟨_, _, hfrags, ?_, hframe⟩
      simp
    | cons k₀ ks =>
      have hlen : (p.table b).nfree = ks.length + 1 := by
        rw [hnfree, hrun]
        rfl
      have hpos : (p.table b).nfree ≠ 0 := by omega
      rw [if_pos hpos, if_pos hpos, hlen, add32_of_lt (a := ks.length + 1) (by omega),
        h.frags.firstFrag_eq h.heap hfrag hrun] at hq
      obtain ⟨hfrags, hframe⟩ := h.frags.insertBehind h.heap hfrag hk hnot hrun
        (show q.mem = insertAfter p.mem (L.frag b log k₀) (L.frag b log k) by rw [← hq])
        (show q.table = p.table.setNfree b (ks.length + 2) by rw [← hq])
      refine ⟨_, _, hfrags, ?_, hframe⟩
      grind
  have hother : ∀ x, x ≠ b → q.table x = p.table x := by
    intro x hx
    rw [← hq]
    dsimp only
    split
    · simp [Table.setW2, hx]
    · simp [Table.setW2, Table.setW3, hx]
  have hfrag' : Fragmented q.table b log := by
    rw [← hq]
    dsimp only
    split
    · exact hfrag
    · exact hfrag
  have hnfree' : (q.table b).nfree = (p.table b).nfree + 1 := by
    rw [← hq]
    dsimp only
    split
    · have hadd : add32 (p.table b).nfree 1 = (p.table b).nfree + 1 := add32_of_lt (by omega)
      simp [hadd]
    · simp
      omega
  refine ⟨q, _, _, rfl, h.edit hfrag hfrag' hother ?_ ?_ ?_ hfrags ?_ ?_, ?_⟩
  · rw [← hq]
    exact hcore.update _ _ _ _ _ _ _ _
  · rw [← hq]
  · rw [← hq]
  · exact h.regions_erase hfrag hfrag' hother hk hks
  · apply h.counted.releaseFrag (by omega) (h.heap.notMem_of_busy hfrag.1) hfrag hfrag' hother
      (by rw [← hq]) hnfree'
    · rw [← hq]
    · rw [← hq]
    · rw [← hq]
    · rw [← hq]
    · exact hcard
    · exact hsum
  · intro r hr
    obtain ⟨hne, hr⟩ := Finset.mem_erase.mp hr
    apply hframe r.1 r.2 (h.holds hr)
    intro hra
    apply hne
    rw [← hra] at hmem ⊢
    exact Prod.ext rfl (h.size_eq hr hmem)

/-! ### The last fragment of a block -/

/-- All other fragments of the block are free. -/
theorem Sound.mem_run_of_full (hfrag : Fragmented p.table b log) (hk : k < L.count log)
    (hnot : k ∉ run b) (hfull : (run b).length + 1 = L.count log) {j : Nat}
    (hj : j < L.count log) (hne : j ≠ k) : j ∈ run b := by
  have hnodup : (k :: run b).Nodup :=
    List.nodup_cons.mpr ⟨hnot, h.frags.run_nodup b log hfrag⟩
  have hsub : k :: run b ⊆ List.range (L.count log) := by
    intro i hi
    obtain rfl | hi := List.mem_cons.mp hi
    · exact List.mem_range.mpr hk
    · exact List.mem_range.mpr (h.frags.run_lt b log hfrag i hi)
  have hperm := (hnodup.subperm hsub).perm_of_length_le (by
    rw [List.length_range, List.length_cons]
    omega)
  have hmem : j ∈ k :: run b := hperm.mem_iff.mpr (List.mem_range.mpr hj)
  exact (List.mem_cons.mp hmem).resolve_left hne

/-- The last fragment in use is the only region in its block. -/
theorem Sound.addr_ne_of_full (hfrag : Fragmented p.table b log) (hk : k < L.count log)
    (hnot : k ∉ run b) (hfull : (run b).length + 1 = L.count log) (hr : (a, c) ∈ R)
    (hne : (a, c) ≠ (L.frag b log k, 2 ^ log)) : a ≠ L.addr b := by
  obtain ⟨hb, hbE⟩ := hfrag.pos h.heap
  have hzero : L.addr b = L.frag b log 0 := by simp [Layout.frag]
  cases h.holds hr with
  | object b' n hb' hobj =>
    intro heq
    have hpos := hobj.pos
    obtain rfl := L.addr_inj (by omega) (by omega) heq
    have := hfrag.outside hobj.toIsRun
    omega
  | frag b' log' k' hfrag' hk' hrun' =>
    intro heq
    obtain ⟨rfl, rfl, rfl⟩ := h.frags.frag_inj h.heap hfrag' hfrag hk' L.count_pos (heq.trans hzero)
    have hk0 : 0 ≠ k := by
      rintro rfl
      exact hne rfl
    exact hrun' (h.mem_run_of_full hfrag hk hnot hfull hk' hk0)

/-- The regions after the last fragment in use made its block one again. -/
theorem Sound.regions_uncut (hheap : Heap p' L S E) (hfrag : Fragmented p.table b log)
    (hk : k < L.count log) (hnot : k ∉ run b) (hfull : (run b).length + 1 = L.count log)
    (hobj : p'.table.IsObject b 1) (hother : ∀ x, x ≠ b → p'.table x = p.table x) (a c : Nat) :
    (a, c) ∈ insert (L.addr b, L.blksz) (R.erase (L.frag b log k, 2 ^ log)) ↔
      Holds p' L (Function.update run b []) a c := by
  obtain ⟨hb, hbE⟩ := hfrag.pos h.heap
  have hnofrag : ∀ l, ¬ Fragmented p'.table b l := fun l hl => by
    have := hl.outside hobj.toIsRun
    omega
  rw [Finset.mem_insert, Finset.mem_erase, h.regions]
  constructor
  · rintro (heq | ⟨hne, hold⟩)
    · cases heq
      have hobject : Holds p' L (Function.update run b []) (L.addr b) (1 * L.blksz) :=
        .object b 1 hb hobj
      rwa [Nat.one_mul] at hobject
    · cases hold with
      | object b' n hb' hobj' =>
        have hout := hfrag.outside hobj'.toIsRun
        exact .object b' n hb' (hobj'.congr fun i hi hlt => hother i (by omega))
      | frag b' log' k' hfrag' hk' hrun' =>
        have hbb' : b' ≠ b := by
          rintro rfl
          obtain rfl := hfrag.log_eq hfrag'
          have hkk' : k' ≠ k := by
            rintro rfl
            exact hne rfl
          exact hrun' (h.mem_run_of_full hfrag hk hnot hfull hk' hkk')
        exact .frag b' log' k' (hfrag'.congr (hother b' hbb')) hk'
          (by rwa [Function.update_of_ne hbb'])
  · intro hold
    cases hold with
    | object b' n hb' hobj' =>
      by_cases hbb' : b' = b
      · subst hbb'
        rw [hobj'.size_eq hobj, Nat.one_mul]
        exact .inl rfl
      · have hapart := hheap.object_apart hobj hobj' hbb'
        have hobj₀ : p.table.IsObject b' n :=
          hobj'.congr fun i hi hlt => (hother i (by omega)).symm
        refine .inr ⟨?_, .object b' n hb' hobj₀⟩
        intro heq
        exact addr_ne_frag h.heap h.frags.type (by omega) hobj₀ hfrag hk (congrArg Prod.fst heq)
    | frag b' log' k' hfrag' hk' hrun' =>
      have hbb' : b' ≠ b := by
        rintro rfl
        exact hnofrag log' hfrag'
      have hfrag₀ := hfrag'.congr (hother b' hbb').symm
      rw [Function.update_of_ne hbb'] at hrun'
      refine .inr ⟨?_, .frag b' log' k' hfrag₀ hk' hrun'⟩
      intro heq
      exact hbb' (h.frags.frag_inj h.heap hfrag₀ hfrag hk' hk (congrArg Prod.fst heq)).1

/-- With its last fragment in use, the block is one again, as an object. -/
theorem Sound.uncut (hfrag : Fragmented p.table b log) (hk : k < L.count log)
    (hnot : k ∉ run b) (hfull : (p.table b).nfree = L.count log - 1) :
    ∃ q blocks' run', q = { p with
        mem := unlink p.mem (p.firstFrag b) (walk p.mem (L.count log - 1) (p.firstFrag b))
        table := (p.table.setType b 0).setSize b 1
        chunks_used := add32 (sub32 p.chunks_used 1) 1
        bytes_used := add32 (sub32 p.bytes_used (2 ^ log)) p.blksz
        chunks_free := sub32 (add32 p.chunks_free 1) (L.count log)
        bytes_free := sub32 (add32 p.bytes_free (2 ^ log)) p.blksz } ∧
      q.table.IsObject b 1 ∧
      Sound q L S E blocks' run'
        (insert (L.addr b, L.blksz) (R.erase (L.frag b log k, 2 ^ log))) ∧
      (∀ r ∈ R.erase (L.frag b log k, 2 ^ log), r.1 ≠ L.addr b) ∧
      SameBytes (R.erase (L.frag b log k, 2 ^ log)) p.mem q.mem := by
  obtain ⟨hb, hbE⟩ := hfrag.pos h.heap
  have hlog := h.frags.type b log hfrag
  have hnfree := h.frags.nfree b log hfrag
  have hsize := h.heap.core.le_infoSize
  have hcount : 2 ≤ L.count log := by
    unfold Layout.count
    exact Nat.pow_le_pow_right (show 0 < 2 by decide) (show 1 ≤ L.log - log by omega)
  have hlength : (run b).length + 1 = L.count log := by omega
  obtain ⟨k₀, ks, hrun⟩ : ∃ k₀ ks, run b = k₀ :: ks := by
    apply List.exists_cons_of_ne_nil
    intro hnil
    rw [hnil, List.length_nil] at hlength
    omega
  obtain ⟨q, hq⟩ : ∃ q : Pool, q = { p with
      mem := unlink p.mem (p.firstFrag b) (walk p.mem (L.count log - 1) (p.firstFrag b))
      table := (p.table.setType b 0).setSize b 1
      chunks_used := add32 (sub32 p.chunks_used 1) 1
      bytes_used := add32 (sub32 p.bytes_used (2 ^ log)) p.blksz
      chunks_free := sub32 (add32 p.chunks_free 1) (L.count log)
      bytes_free := sub32 (add32 p.bytes_free (2 ^ log)) p.blksz } := ⟨_, rfl⟩
  have htable : q.table = (p.table.setType b 0).setSize b 1 := by rw [hq]
  have hmemq : q.mem = unlink p.mem (L.frag b log k₀)
      (walk p.mem (L.count log - 1) (L.frag b log k₀)) := by
    rw [hq]
    dsimp only
    rw [h.frags.firstFrag_eq h.heap hfrag hrun]
  have hother : ∀ x, x ≠ b → q.table x = p.table x := by
    intro x hx
    simp [htable, Table.setW1, Table.setW2, hx]
  obtain ⟨⟨bs, hfrags⟩, hisrun, hframe⟩ := h.frags.uncut h.heap hfrag hrun
    (by rw [hrun, List.length_cons] at hlength; omega) hmemq htable
  have hobj : q.table.IsObject b 1 := { hisrun with back := fun i hi hlt => by omega }
  have hcore : q.Core L E := by
    rw [hq]
    exact h.heap.core.update _ _ _ _ _ _ _ _
  have hone : (q.table b).status = 1 := hobj.status b (Nat.le_refl b) (by omega)
  have hheap : Heap q L S E := h.heap.edit hcore (by rw [hq]) hb hfrag.1 hone hother
  have hmem : (L.frag b log k, 2 ^ log) ∈ R := (h.regions _ _).mpr (.frag b log k hfrag hk hnot)
  have hnofrag : ∀ l, ¬ Fragmented q.table b l := fun l hl => by
    have := hl.outside hisrun
    omega
  have hregions := h.regions_uncut hheap hfrag hk hnot hlength hobj hother
  have hfresh : ∀ r ∈ R.erase (L.frag b log k, 2 ^ log), r.1 ≠ L.addr b := by
    rintro ⟨a, c⟩ hr (rfl : a = L.addr b)
    obtain ⟨hne, hr⟩ := Finset.mem_erase.mp hr
    exact h.addr_ne_of_full hfrag hk hnot hlength hr hne rfl
  have hnot' : (L.addr b, L.blksz) ∉ R.erase (L.frag b log k, 2 ^ log) := fun hr => hfresh _ hr rfl
  have hmul : (L.count log : WordRing) * (2 ^ log : ℕ) = L.blksz := by
    rw [← Nat.cast_mul, L.count_mul (by omega)]
  have hcast : ((p.table b).nfree : WordRing) = L.count log - 1 := by
    rw [hfull, Nat.cast_sub (by omega), Nat.cast_one]
  refine ⟨q, _, _, hq, hobj, ⟨hheap, ?_, hfrags, ?_, hregions, ?_, ?_⟩, hfresh, ?_⟩
  · unfold Limit
    rw [hq]
    exact h.limit
  · intro x hx hbusy htype
    by_cases hxb : x = b
    · exact ⟨b, 1, hb, hobj, by omega, by omega⟩
    · rw [hother x hxb] at hbusy htype
      obtain ⟨c, m, hc, hobj', hcx, hxc⟩ := h.cover x hx hbusy htype
      have hout := hfrag.outside hobj'.toIsRun
      exact ⟨c, m, hc, hobj'.congr fun i hi hlt => hother i (by omega), hcx, hxc⟩
  · apply h.counted.edit (x := 1 - L.count log) (y := (2 ^ log : ℕ) - L.blksz) (by omega)
      (h.heap.notMem_of_busy hfrag.1) hother
    · rw [hq]
    · rw [hfrag.spare_eq.1, (spare_of_not hnofrag).1, hcast]
      push_cast
      ring
    · rw [hfrag.spare_eq.2, (spare_of_not hnofrag).2, ← hmul]
      push_cast
      rw [hcast]
      ring
    · rw [hq, cast_sub32, cast_add32, Nat.cast_one]
      ring
    · rw [hq, cast_sub32, cast_add32, h.heap.core.blksz]
      ring
    · rw [hq, (sum_insert_region hnot').1, (sum_erase_region hmem).1, cast_add32, cast_sub32,
        Nat.cast_one]
      ring
    · rw [hq, (sum_insert_region hnot').2, (sum_erase_region hmem).2, cast_add32, cast_sub32,
        h.heap.core.blksz]
      ring
    · rw [hq]
      exact ⟨add32_lt _ _, add32_lt _ _, sub32_lt _ _, sub32_lt _ _⟩
  · intro i hi
    rw [hother i (by omega)]
    exact h.beyond i hi
  · intro r hr
    exact hframe r.1 r.2 (h.holds (Finset.mem_of_mem_erase hr))

/-- A fragment in use that completes its block is freed with the block. -/
theorem Sound.freeFull (hfrag : Fragmented p.table b log) (hk : k < L.count log)
    (hnot : k ∉ run b) (hfull : (p.table b).nfree = L.count log - 1)
    (free : Pool → Nat → Option Pool) :
    ∃ p', p.freeFrag (Pool.freeWith free) (L.frag b log k) = some p' ∧
      Owns p' L (R.erase (L.frag b log k, 2 ^ log)) ∧
      SameBytes (R.erase (L.frag b log k, 2 ^ log)) p.mem p'.mem := by
  obtain ⟨hb, hbE⟩ := hfrag.pos h.heap
  have hlog := h.frags.type b log hfrag
  have hcore := h.heap.core
  have haddr := hcore.addr_lt (b := b) (by omega) hbE
  have hblock := hcore.BLOCK_frag (by omega) hbE (by omega) hk
  have hlength := h.frags.length_run_le hfrag
  have hblksz := L.blksz_le
  have hcount : 0 < L.count log := L.count_pos
  obtain ⟨q, blocks', run', hq, hobj, hsound, hfresh, hsame⟩ := h.uncut hfrag hk hnot hfull
  rw [freeFrag_eq hblock hfrag.2.1, hcore.fragCount_eq (by omega), sub32_of_le (by omega) (by omega),
    if_pos hfull, ← hq, hcore.ADDRESS_eq (by omega) haddr]
  -- the assertions of the inner call
  have hmem : (L.addr b, L.blksz) ∈ insert (L.addr b, L.blksz)
      (R.erase (L.frag b log k, 2 ^ log)) := Finset.mem_insert_self _ _
  have hcheck := hsound.heap.checkFree_of_run hobj.toIsRun hb
  have hblockq := hsound.heap.core.BLOCK_addr (b := b) (by omega) haddr
  have htype := hobj.type b (Nat.le_refl b) (by omega)
  obtain ⟨p', S', E', hresult, hheap, hlimit, hgives, hcharged⟩ :=
    hsound.heap.freeBlocks hobj.toIsRun hb hsound.limit
  have hgiven := hsound.gives hobj hb hgives hheap (.inl hlimit) hcharged
  rw [Nat.one_mul, Finset.erase_insert fun hr => hfresh _ hr rfl] at hgiven
  unfold Pool.freeWith
  rw [if_pos hcheck, hblockq, if_pos htype]
  refine ⟨p', hresult, hgiven.owns, ?_⟩
  rw [hgives.mem]
  exact hsame

/-! ### All pointers -/

/-- `__free` of a large object. -/
theorem Sound.freeObject (hobj : p.table.IsObject b n) (hb : L.infoBlocks < b) :
    ∃ p', p.free (L.addr b) = some p' ∧ Owns p' L (R.erase (L.addr b, n * L.blksz)) ∧
      p'.mem = p.mem := by
  have hpos := hobj.pos
  have hle := h.heap.run_le hobj.toIsRun
  have haddr := h.heap.core.addr_lt (b := b) (by omega) (by omega)
  obtain ⟨p', S', E', hresult, hheap, hlimit, hgives, hcharged⟩ :=
    h.heap.freeBlocks hobj.toIsRun hb h.limit
  unfold Pool.free Pool.freeWith
  rw [if_pos (h.heap.checkFree_of_run hobj.toIsRun hb), h.heap.core.BLOCK_addr (by omega) haddr,
    if_pos (hobj.type b (Nat.le_refl b) (by omega))]
  exact ⟨p', hresult, (h.gives hobj hb hgives hheap (.inl hlimit) hcharged).owns, hgives.mem⟩

/-- `__free` of a pointer that the assertions let through. -/
theorem Sound.free (hr : (a, c) ∈ R) (hcheck : p.checkFree a = true) :
    ∃ p', p.free a = some p' ∧ Owns p' L (R.erase (a, c)) ∧
      SameBytes (R.erase (a, c)) p.mem p'.mem := by
  have hcore := h.heap.core
  cases h.holds hr with
  | object b n hb hobj =>
    obtain ⟨p', hresult, howns, hmem⟩ := h.freeObject hobj hb
    exact ⟨p', hresult, howns, fun r _ x _ _ => by rw [hmem]⟩
  | frag b log k hfrag hk hnot =>
    obtain ⟨hb, hbE⟩ := hfrag.pos h.heap
    have hlog := h.frags.type b log hfrag
    unfold Pool.free Pool.freeWith
    rw [if_pos hcheck, hcore.BLOCK_frag (by omega) hbE (by omega) hk, hfrag.2.1,
      if_neg hfrag.2.2]
    by_cases hfull : (p.table b).nfree = L.count log - 1
    · exact h.freeFull hfrag hk hnot hfull _
    · obtain ⟨p', blocks', run', hresult, hsound, hsame⟩ := h.freeFrag hfrag hk hnot hfull _
      exact ⟨p', hresult, hsound.owns, hsame⟩

omit h

theorem free_of_not (hcheck : ¬ p.checkFree a = true) : p.free a = none := by
  unfold Pool.free Pool.freeWith
  rw [if_neg hcheck]

/-- What becomes of a pointer. It is rejected before anything is written, or the region that starts
    there is released, and the pointer is then one to reject. -/
inductive Freed (p : Pool) (L : Layout) (R : Finset (Nat × Nat)) (a : Nat) : Option Pool → Prop
  | rejected (check : p.checkFree a = false) (reject : ∀ c, (a, c) ∈ R → p.MayReject a) :
    Freed p L R a none
  | released {p' : Pool} {c : Nat} (region : (a, c) ∈ R) (owns : Owns p' L (R.erase (a, c)))
      (same : SameBytes (R.erase (a, c)) p.mem p'.mem) (gone : p'.checkFree a = false) :
    Freed p L R a (some p')

/-- `__free`. -/
theorem Owns.free (h : Owns p L R) (ha : a < 2 ^ 32) : Freed p L R a (p.free a) := by
  obtain ⟨S, E, blocks, run, h⟩ := h
  by_cases hcheck : p.checkFree a = true
  · obtain ⟨c, hr⟩ := h.live_of_checkFree ha hcheck
    obtain ⟨p', hresult, howns, hsame⟩ := h.free hr hcheck
    rw [hresult]
    refine .released hr howns hsame ?_
    obtain ⟨S', E', blocks', run', h'⟩ := howns
    by_contra hgone
    obtain ⟨c', hr'⟩ := h'.live_of_checkFree ha (Bool.eq_true_of_not_eq_false hgone)
    obtain ⟨hne, hr'⟩ := Finset.mem_erase.mp hr'
    exact hne (by rw [h.size_eq hr' hr])
  · rw [free_of_not hcheck]
    refine .rejected (Bool.eq_false_of_not_eq_true hcheck) fun c hr => ?_
    by_contra hreject
    exact hcheck (h.checkFree_of_region hr hreject)

end

end Hcrtos.Native.Alloc
