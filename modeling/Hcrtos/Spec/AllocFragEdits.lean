import Hcrtos.Spec.AllocFrags

/-!
# Edits of the fragment lists

Each operation on fragments changes the run of one block and the list of one size. The other
lists have other nodes, and no region that a program owns contains a node.

## Key results

- `Frags.edit`: what an edit of one run has to keep
- `Frags.pop`, `Frags.insertFirst`, `Frags.insertBehind`: single fragments
- `Frags.cut`, `Frags.uncut`: a block is cut into fragments, and becomes a block again
-/

namespace Hcrtos.Native.Alloc

open Word Memory IntrusiveList

section

variable {p p' : Pool} {L : Layout} {S : Finset Nat} {E b b' log log' k k' n a c u : Nat}
  {blocks run : Nat → List Nat}

/-! ### The lists -/

theorem mem_freeFrags : u ∈ freeFrags L blocks run log ↔
    ∃ b ∈ blocks log, ∃ k ∈ run b, L.frag b log k = u := by
  simp [freeFrags]

/-- A node of a list is a free fragment of a block. -/
theorem Frags.of_mem (h : Frags p L blocks run) (hu : u ∈ freeFrags L blocks run log) :
    ∃ b k, Fragmented p.table b log ∧ k < L.count log ∧ k ∈ run b ∧ u = L.frag b log k := by
  obtain ⟨b, hb, k, hk, rfl⟩ := mem_freeFrags.mp hu
  obtain ⟨hfrag, -⟩ := (h.mem_blocks log b).mp hb
  exact ⟨b, k, hfrag, h.run_lt b log hfrag k hk, hk, rfl⟩

theorem Frags.mem_of_run (h : Frags p L blocks run) (hfrag : Fragmented p.table b log)
    (hk : k ∈ run b) : L.frag b log k ∈ freeFrags L blocks run log := by
  have hne : run b ≠ [] := List.ne_nil_of_mem hk
  exact mem_freeFrags.mpr ⟨b, (h.mem_blocks log b).mpr ⟨hfrag, hne⟩, k, hk, rfl⟩

/-- The lists of other sizes do not see the run. -/
theorem freeFrags_update_of_ne {bs ks : List Nat} (hne : log' ≠ log) (hb : b ∉ blocks log') :
    freeFrags L (Function.update blocks log bs) (Function.update run b ks) log' =
      freeFrags L blocks run log' := by
  unfold freeFrags
  rw [Function.update_of_ne hne]
  apply List.flatMap_congr
  intro x hx
  have hxb : x ≠ b := by
    rintro rfl
    exact hb hx
  rw [Function.update_of_ne hxb]

theorem flatMap_update {bs ks : List Nat} (hb : b ∉ bs) :
    (bs.flatMap fun x => (Function.update run b ks x).map (L.frag x log)) =
      bs.flatMap fun x => (run x).map (L.frag x log) := by
  apply List.flatMap_congr
  intro x hx
  have hxb : x ≠ b := by
    rintro rfl
    exact hb hx
  rw [Function.update_of_ne hxb]

/-- The list of a size is that of the blocks before one of them, its run, and that of the blocks
    behind it. -/
theorem freeFrags_split {bs bs' : List Nat} (h : blocks log = bs ++ b :: bs') :
    freeFrags L blocks run log = (bs.flatMap fun x => (run x).map (L.frag x log)) ++
      ((run b).map (L.frag b log) ++ bs'.flatMap fun x => (run x).map (L.frag x log)) := by
  unfold freeFrags
  rw [h, List.flatMap_append, List.flatMap_cons]

/-- The head of a list is in no list but its own. -/
theorem Frags.head_notMem (h : Frags p L blocks run) (hlog : log < L.log) :
    L.head log ∉ freeFrags L blocks run log' := by
  intro hmem
  obtain ⟨b, k, hfrag, hk, -, heq⟩ := h.of_mem hmem
  have := L.head_add_le hlog
  have := L.base_le_addr (b := b)
  have : L.addr b ≤ L.frag b log' k := L.addr_le_frag
  omega

theorem Frags.mem_nodes (h : Frags p L blocks run) (hlog : log < L.log) :
    ∀ u ∈ L.head log :: freeFrags L blocks run log, u ∈ Nodes p L := by
  intro u hu
  obtain rfl | hu := List.mem_cons.mp hu
  · exact .inl ⟨log, hlog, rfl⟩
  · obtain ⟨b, k, hfrag, hk, -, heq⟩ := h.of_mem hu
    exact .inr ⟨b, log, k, hfrag, hk, heq⟩

/-- The entry of a fragmented block when its counters change. -/
theorem fragmented_counters {t t' : Table} {v w : Nat}
    (htable : t' = (t.setNfree b v).setFirst b w) :
    (∀ x l, Fragmented t' x l ↔ Fragmented t x l) ∧ (∀ x, x ≠ b → t' x = t x) ∧
      (t' b).nfree = v ∧ (t' b).first = w := by
  subst htable
  refine ⟨fun x l => Iff.rfl, ?_, ?_, ?_⟩
  · intro x hx
    simp [Table.setW2, Table.setW3, hx]
  · simp
  · simp

variable (hheap : Heap p L S E) (h : Frags p L blocks run)
include hheap h

/-- The block and the number of a fragment are read off its address. -/
theorem Frags.frag_inj (hfrag : Fragmented p.table b log) (hfrag' : Fragmented p.table b' log')
    (hk : k < L.count log) (hk' : k' < L.count log') (heq : L.frag b log k = L.frag b' log' k') :
    b = b' ∧ log = log' ∧ k = k' := by
  obtain ⟨hb, hbE⟩ := hfrag.pos hheap
  obtain ⟨hb', hbE'⟩ := hfrag'.pos hheap
  have hlog := (h.type b log hfrag).2
  have hlog' := (h.type b' log' hfrag').2
  have hblock := hheap.core.BLOCK_frag (by omega) hbE (by omega) hk
  rw [heq, hheap.core.BLOCK_frag (by omega) hbE' (by omega) hk'] at hblock
  subst hblock
  obtain rfl := hfrag.log_eq hfrag'
  have hmod := L.frag_mod (b := b') (by omega) hk
  rw [heq, L.frag_mod (by omega) hk'] at hmod
  exact ⟨rfl, rfl, hmod.symm⟩

/-- A fragment is in no list of another size. -/
theorem Frags.notMem_of_ne (hfrag : Fragmented p.table b log) (hk : k < L.count log)
    (hne : log' ≠ log) (hlog' : log' < L.log) :
    L.frag b log k ∉ L.head log' :: freeFrags L blocks run log' := by
  intro hmem
  obtain heq | hmem := List.mem_cons.mp hmem
  · have := L.head_add_le hlog'
    have := L.base_le_addr (b := b)
    have : L.addr b ≤ L.frag b log k := L.addr_le_frag
    omega
  · obtain ⟨b', k', hfrag', hk', -, heq⟩ := h.of_mem hmem
    exact hne (h.frag_inj hheap hfrag hfrag' hk hk' heq).2.1.symm

/-- The list of a size has its nodes once each. -/
theorem Frags.nodup (hlog : log < L.log) :
    (L.head log :: freeFrags L blocks run log).Nodup := by
  refine List.nodup_cons.mpr ⟨h.head_notMem hlog, ?_⟩
  have hfrag : ∀ b ∈ blocks log, Fragmented p.table b log := fun b hb =>
    ((h.mem_blocks log b).mp hb).1
  unfold freeFrags
  rw [List.nodup_flatMap]
  constructor
  · intro b hb
    have hinj : ∀ x ∈ run b, ∀ y ∈ run b, L.frag b log x = L.frag b log y → x = y := by
      intro x hx y hy heq
      have hlt := h.run_lt b log (hfrag b hb)
      exact (h.frag_inj hheap (hfrag b hb) (hfrag b hb) (hlt x hx) (hlt y hy) heq).2.2
    exact (h.run_nodup b log (hfrag b hb)).map_on hinj
  · apply (h.blocks_nodup log).imp_of_mem
    intro x y hx hy hxy
    rw [Function.onFun, List.disjoint_iff_ne]
    intro u hu v hv huv
    obtain ⟨k, hk, rfl⟩ := List.mem_map.mp hu
    obtain ⟨k', hk', rfl⟩ := List.mem_map.mp hv
    have hk := h.run_lt x log (hfrag x hx) k hk
    have hk' := h.run_lt y log (hfrag y hy) k' hk'
    exact hxy (h.frag_inj hheap (hfrag x hx) (hfrag y hy) hk hk' huv).1

/-- The lists of different sizes have no node in common. -/
theorem Frags.list_disjoint (hlog : log < L.log) (hlog' : log' < L.log) (hne : log' ≠ log)
    (hu : u ∈ L.head log :: freeFrags L blocks run log) :
    u ∉ L.head log' :: freeFrags L blocks run log' := by
  obtain rfl | hu := List.mem_cons.mp hu
  · intro hmem
    obtain heq | hmem := List.mem_cons.mp hmem
    · unfold Layout.head at heq
      omega
    · exact h.head_notMem hlog hmem
  · obtain ⟨b, k, hfrag, hk, -, rfl⟩ := h.of_mem hu
    exact h.notMem_of_ne hheap hfrag hk hne hlog'

/-! ### Regions and nodes -/

/-- A region does not start at a free fragment. -/
theorem Frags.ne_free (hold : Holds p L run a c) (hfrag : Fragmented p.table b log)
    (hk : k ∈ run b) : a ≠ L.frag b log k := by
  have hlt := h.run_lt b log hfrag k hk
  obtain ⟨hb, hbE⟩ := hfrag.pos hheap
  cases hold with
  | object b' n hb' hobj =>
    intro heq
    have hle := hheap.run_le hobj.toIsRun
    have hpos := hobj.pos
    have haddr := hheap.core.addr_lt (b := b') (by omega) (by omega)
    have hblock := hheap.core.BLOCK_addr (by omega) haddr
    rw [heq, hheap.core.BLOCK_frag (by omega) hbE (by have := (h.type b log hfrag).2; omega) hlt]
      at hblock
    have := hfrag.outside hobj.toIsRun
    omega
  | frag b' log' k' hfrag' hk' hrun' =>
    intro heq
    obtain ⟨rfl, -, rfl⟩ := h.frag_inj hheap hfrag' hfrag hk' hlt heq
    exact hrun' hk

/-- A fragment overlaps no region that starts elsewhere. -/
theorem Frags.frag_outside (hold : Holds p L run a c) (hfrag : Fragmented p.table b log)
    (hk : k < L.count log) (hne : a ≠ L.frag b log k) :
    L.frag b log k + 8 ≤ a ∨ a + c ≤ L.frag b log k := by
  -- regions are apart whatever the runs are
  have hall : Holds p L (fun _ => []) a c := by
    cases hold with
    | object b n hb hobj => exact .object b n hb hobj
    | frag b log k hfrag hk _ => exact .frag b log k hfrag hk List.not_mem_nil
  have hfree : Holds p L (fun _ => []) (L.frag b log k) (2 ^ log) :=
    .frag b log k hfrag hk List.not_mem_nil
  have h8 := (frag_bounds hheap h.type hfrag hk).2.2.1
  have := hall.apart hheap h.type hfree hne
  omega

/-- The nodes of the lists are outside of the regions. -/
theorem Frags.node_outside (hold : Holds p L run a c) (hlog : log < L.log)
    (hu : u ∈ L.head log :: freeFrags L blocks run log) : u + 8 ≤ a ∨ a + c ≤ u := by
  obtain rfl | hu := List.mem_cons.mp hu
  · have := L.head_add_le hlog
    have := hold.inside hheap h.type
    have := L.base_le_addr (b := L.infoBlocks + 1)
    omega
  · obtain ⟨b, k, hfrag, hk, hrun, rfl⟩ := h.of_mem hu
    exact h.frag_outside hheap hold hfrag hk (h.ne_free hheap hold hfrag hrun)

/-- Linking a node into the list of one size leaves the others alone. -/
theorem Frags.insertAfter_other {A : Set Nat} (hA : Cells A) {m : Mem} {x y : Nat}
    (hsub : ∀ l < L.log, ∀ u ∈ L.head l :: freeFrags L blocks run l, u ∈ A)
    (hx : x ∈ A) (hlog : log < L.log) (hy : y ∈ L.head log :: freeFrags L blocks run log)
    (hn : next m y ≠ 0 → next m y ∈ freeFrags L blocks run log) (hxy : x ≠ y)
    (hlog' : log' < L.log) (hne : log' ≠ log)
    (hxz : x ∉ L.head log' :: freeFrags L blocks run log')
    (hl : DList m (L.head log') (freeFrags L blocks run log')) :
    DList (insertAfter m y x) (L.head log') (freeFrags L blocks run log') := by
  have hnA : next m y ≠ 0 → next m y ∈ A := fun h0 =>
    hsub log hlog _ (List.mem_cons_of_mem _ (hn h0))
  apply hl.insertAfter_other hA (hsub log' hlog') hx (hsub log hlog y hy) hnA hxy hxz
  · exact h.list_disjoint hheap hlog hlog' hne hy
  · intro hmem
    have h0 := hA.pos _ (hsub log' hlog' _ (List.mem_cons_of_mem _ hmem))
    exact h.list_disjoint hheap hlog hlog' hne (List.mem_cons_of_mem _ (hn h0))
      (List.mem_cons_of_mem _ hmem)

/-- Cutting nodes out of the list of one size leaves the others alone. -/
theorem Frags.unlink_other {m : Mem} {x after : Nat} (hlog : log < L.log)
    (hx : x ∈ freeFrags L blocks run log)
    (hp : prev m x ∈ L.head log :: freeFrags L blocks run log)
    (ha : after ≠ 0 → after ∈ freeFrags L blocks run log) (hlog' : log' < L.log)
    (hne : log' ≠ log) (hl : DList m (L.head log') (freeFrags L blocks run log')) :
    DList (unlink m x after) (L.head log') (freeFrags L blocks run log') := by
  have hA := nodes_cells hheap h.type
  have hnodes := h.mem_nodes hlog
  have hnodes' := h.mem_nodes hlog'
  apply hl.unlink_other hA hnodes' (hnodes x (List.mem_cons_of_mem _ hx)) (hnodes _ hp)
  · exact fun h0 => hnodes after (List.mem_cons_of_mem _ (ha h0))
  · exact h.list_disjoint hheap hlog hlog' hne hp
  · intro hmem
    have h0 := hA.pos _ (hnodes' _ (List.mem_cons_of_mem _ hmem))
    exact h.list_disjoint hheap hlog hlog' hne (List.mem_cons_of_mem _ (ha h0))
      (List.mem_cons_of_mem _ hmem)

omit hheap in
/-- The run of the block `b` becomes `ks`, and the blocks of its size become `bs`. -/
theorem Frags.edit {bs ks : List Nat} (hlog : 3 ≤ log ∧ log < L.log)
    (hother : ∀ x, x ≠ b → p'.table x = p.table x)
    (hb : ∀ l, Fragmented p.table b l → l = log) (hb' : ∀ l, Fragmented p'.table b l → l = log)
    (hlists : ∀ l, 3 ≤ l → l < L.log → l ≠ log →
      DList p'.mem (L.head l) (freeFrags L blocks run l))
    (hlist : DList p'.mem (L.head log)
      (freeFrags L (Function.update blocks log bs) (Function.update run b ks) log))
    (hbs : bs.Nodup)
    (hmem : ∀ x, x ∈ bs ↔
      if x = b then Fragmented p'.table b log ∧ ks ≠ [] else x ∈ blocks log)
    (hks : Fragmented p'.table b log → ks.Nodup ∧ (∀ k ∈ ks, k < L.count log) ∧
      (p'.table b).nfree = ks.length ∧ ∀ k ∈ ks.head?, (p'.table b).first = k) :
    Frags p' L (Function.update blocks log bs) (Function.update run b ks) := by
  have hfrag : ∀ x l, x ≠ b → Fragmented p'.table x l → Fragmented p.table x l :=
    fun x l hx hf => hf.congr (hother x hx).symm
  have hrun : ∀ x, x ≠ b → Function.update run b ks x = run x := fun x hx =>
    Function.update_of_ne hx _ _
  have hself : Function.update run b ks b = ks := Function.update_self _ _ _
  constructor
  · intro x l hf
    by_cases hx : x = b
    · subst hx
      rw [hb' l hf]
      exact hlog
    · exact h.type x l (hfrag x l hx hf)
  · intro l h3 hlt
    by_cases hl : l = log
    · rw [hl]
      exact hlist
    · have hnot : b ∉ blocks l := fun hmem => hl (hb l ((h.mem_blocks l b).mp hmem).1)
      rw [freeFrags_update_of_ne hl hnot]
      exact hlists l h3 hlt hl
  · intro l
    by_cases hl : l = log
    · rw [hl, Function.update_self]
      exact hbs
    · rw [Function.update_of_ne hl]
      exact h.blocks_nodup l
  · intro l x
    by_cases hl : l = log
    · subst hl
      rw [Function.update_self, hmem]
      by_cases hx : x = b
      · rw [if_pos hx, hx, hself]
      · rw [if_neg hx, h.mem_blocks, hrun x hx]
        exact and_congr_left' ⟨fun hf => hf.congr (hother x hx), hfrag x l hx⟩
    · rw [Function.update_of_ne hl, h.mem_blocks]
      by_cases hx : x = b
      · subst hx
        constructor
        · intro hf
          exact absurd (hb l hf.1) hl
        · intro hf
          exact absurd (hb' l hf.1) hl
      · rw [hrun x hx]
        exact and_congr_left' ⟨fun hf => hf.congr (hother x hx), hfrag x l hx⟩
  · intro x l hf
    by_cases hx : x = b
    · subst hx
      rw [hself]
      exact (hks (hb' l hf ▸ hf)).1
    · rw [hrun x hx]
      exact h.run_nodup x l (hfrag x l hx hf)
  · intro x l hf
    by_cases hx : x = b
    · subst hx
      rw [hself, hb' l hf]
      exact (hks (hb' l hf ▸ hf)).2.1
    · rw [hrun x hx]
      exact h.run_lt x l (hfrag x l hx hf)
  · intro x l hf
    by_cases hx : x = b
    · subst hx
      rw [hself]
      exact (hks (hb' l hf ▸ hf)).2.2.1
    · rw [hrun x hx, hother x hx]
      exact h.nfree x l (hfrag x l hx hf)
  · intro x l hf
    by_cases hx : x = b
    · subst hx
      rw [hself]
      exact (hks (hb' l hf ▸ hf)).2.2.2
    · rw [hrun x hx, hother x hx]
      exact h.first x l (hfrag x l hx hf)

/-! ### Single fragments -/

omit hheap in
theorem Frags.length_run_le (hfrag : Fragmented p.table b log) :
    (run b).length ≤ L.count log ∧ L.count log ≤ L.blksz := by
  constructor
  · have hsub : run b ⊆ List.range (L.count log) := fun k hk =>
      List.mem_range.mpr (h.run_lt b log hfrag k hk)
    have hle := ((h.run_nodup b log hfrag).subperm hsub).length_le
    rwa [List.length_range] at hle
  · have hmul := L.count_mul (Nat.le_of_lt (h.type b log hfrag).2)
    have := Nat.mul_le_mul_left (L.count log) (Nat.two_pow_pos log)
    omega

theorem Frags.notMem_of_not_run (hfrag : Fragmented p.table b log) (hk : k < L.count log)
    (hnot : k ∉ run b) : L.frag b log k ∉ L.head log :: freeFrags L blocks run log := by
  intro hmem
  obtain heq | hmem := List.mem_cons.mp hmem
  · have := L.head_add_le (h.type b log hfrag).2
    have := L.base_le_addr (b := b)
    have : L.addr b ≤ L.frag b log k := L.addr_le_frag
    omega
  · obtain ⟨b', k', hfrag', hk', hrun, heq⟩ := h.of_mem hmem
    obtain ⟨rfl, -, rfl⟩ := h.frag_inj hheap hfrag hfrag' hk hk' heq
    exact hnot hrun

omit hheap in
/-- The first node of a list is the first free fragment of the first block. -/
theorem Frags.cons_of_next (hlog : 3 ≤ log ∧ log < L.log) (hne : next p.mem (L.head log) ≠ 0) :
    ∃ b bs k ks, blocks log = b :: bs ∧ run b = k :: ks ∧ Fragmented p.table b log ∧
      next p.mem (L.head log) = L.frag b log k := by
  have hl := h.list log hlog.1 hlog.2
  cases hblocks : blocks log with
  | nil =>
    have hnil : freeFrags L blocks run log = [] := by simp [freeFrags, hblocks]
    rw [hnil] at hl
    exact absurd hl hne
  | cons b bs =>
    obtain ⟨hfrag, hrun⟩ := (h.mem_blocks log b).mp (hblocks ▸ List.mem_cons_self)
    obtain ⟨k, ks, hks⟩ := List.exists_cons_of_ne_nil hrun
    refine ⟨b, bs, k, ks, rfl, hks, hfrag, ?_⟩
    rw [hl.next_eq]
    simp [freeFrags, hblocks, hks]

/-! ### The memory under an edit -/

/-- Nodes are cut out of the list of one size. -/
theorem Frags.cutOut {x : Nat} {xs zs ys : List Nat} (hlog : 3 ≤ log ∧ log < L.log)
    (hfree : freeFrags L blocks run log = xs ++ (x :: zs ++ ys)) :
    DList (unlink p.mem x (ys.headD 0)) (L.head log) (xs ++ ys) ∧
      (∀ l, 3 ≤ l → l < L.log → l ≠ log →
        DList (unlink p.mem x (ys.headD 0)) (L.head l) (freeFrags L blocks run l)) ∧
      ∀ a c, Holds p L run a c → ∀ z, a ≤ z → z < a + c →
        unlink p.mem x (ys.headD 0) z = p.mem z := by
  have hl := h.list log hlog.1 hlog.2
  have hnodup := h.nodup hheap hlog.2
  have hnodes := h.mem_nodes hlog.2
  have hA := nodes_cells hheap h.type
  have hx : x ∈ freeFrags L blocks run log := by
    rw [hfree]
    simp
  have hp : prev p.mem x ∈ L.head log :: freeFrags L blocks run log := by
    rw [hfree] at hl ⊢
    rw [hl.prev_eq]
    obtain heq | hmem := List.mem_cons.mp (lastOf_mem (L.head log) xs)
    · rw [heq]
      exact List.mem_cons_self
    · exact List.mem_cons_of_mem _ (List.mem_append_left _ hmem)
  have ha : ys.headD 0 ≠ 0 → ys.headD 0 ∈ freeFrags L blocks run log := by
    intro h0
    rw [hfree]
    cases ys with
    | nil => contradiction
    | cons y ys => simp
  refine ⟨?_, ?_, ?_⟩
  · rw [hfree] at hl hnodup hnodes
    exact dlist_unlink hA hl hnodes hnodup
  · intro l h3 hlt hne
    exact h.unlink_other hheap hlog.2 hx hp ha hlt hne (h.list l h3 hlt)
  · intro a c hold z hz hlt
    apply unlink_apply
    intro u hu
    have hmem : u ∈ L.head log :: freeFrags L blocks run log := by
      rcases hu with rfl | ⟨rfl, h0⟩
      · exact hp
      · exact List.mem_cons_of_mem _ (ha h0)
    have := h.node_outside hheap hold hlog.2 hmem
    omega

/-- A fragment is linked into the list of its size. -/
theorem Frags.linkIn {xs ys : List Nat} (hfrag : Fragmented p.table b log)
    (hk : k < L.count log) (hnot : k ∉ run b) (hfree : freeFrags L blocks run log = xs ++ ys) :
    DList (insertAfter p.mem (lastOf (L.head log) xs) (L.frag b log k)) (L.head log)
        (xs ++ L.frag b log k :: ys) ∧
      (∀ l, 3 ≤ l → l < L.log → l ≠ log →
        DList (insertAfter p.mem (lastOf (L.head log) xs) (L.frag b log k)) (L.head l)
          (freeFrags L blocks run l)) ∧
      ∀ a c, Holds p L run a c → a ≠ L.frag b log k → ∀ z, a ≤ z → z < a + c →
        insertAfter p.mem (lastOf (L.head log) xs) (L.frag b log k) z = p.mem z := by
  have hlog := h.type b log hfrag
  have hl := h.list log hlog.1 hlog.2
  have hnodup := h.nodup hheap hlog.2
  have hnodes := h.mem_nodes hlog.2
  have hA := nodes_cells hheap h.type
  have hxA : L.frag b log k ∈ Nodes p L := .inr ⟨b, log, k, hfrag, hk, rfl⟩
  have hfresh := h.notMem_of_not_run hheap hfrag hk hnot
  generalize hxdef : L.frag b log k = x at *
  have hy : lastOf (L.head log) xs ∈ L.head log :: freeFrags L blocks run log := by
    rw [hfree]
    obtain heq | hmem := List.mem_cons.mp (lastOf_mem (L.head log) xs)
    · rw [heq]
      exact List.mem_cons_self
    · exact List.mem_cons_of_mem _ (List.mem_append_left _ hmem)
  have hn : next p.mem (lastOf (L.head log) xs) ≠ 0 →
      next p.mem (lastOf (L.head log) xs) ∈ freeFrags L blocks run log := by
    rw [hfree] at hl ⊢
    rw [hl.drop.next_eq]
    cases ys with
    | nil => simp
    | cons y ys => simp
  have hxy : x ≠ lastOf (L.head log) xs := fun heq => hfresh (heq ▸ hy)
  refine ⟨?_, ?_, ?_⟩
  · rw [hfree] at hl hnodup hnodes hfresh
    apply dlist_insertAfter hA hl
    · intro u hu
      obtain rfl | hu := List.mem_cons.mp hu
      · exact hxA
      · exact hnodes u hu
    · exact List.nodup_cons.mpr ⟨hfresh, hnodup⟩
  · intro l h3 hlt hne
    have hother := h.notMem_of_ne hheap hfrag hk hne hlt
    rw [hxdef] at hother
    exact h.insertAfter_other hheap hA (fun l hl => h.mem_nodes hl) hxA hlog.2 hy hn hxy hlt hne
      hother (h.list l h3 hlt)
  · intro a c hold hne z hz hlt
    apply hA.insertAfter_apply hxA (hnodes _ hy) (fun h0 => hnodes _ (List.mem_cons_of_mem _ (hn h0)))
      hxy
    intro u hu
    rcases hu with rfl | hu
    · have := h.frag_outside hheap hold hfrag hk (hxdef ▸ hne)
      omega
    · have hmem : u ∈ L.head log :: freeFrags L blocks run log := by
        rcases hu with rfl | ⟨rfl, h0⟩
        · exact hy
        · exact List.mem_cons_of_mem _ (hn h0)
      have := h.node_outside hheap hold hlog.2 hmem
      omega

/-! ### Edits of one run -/

/-- The first free fragment of a size is taken off its list. -/
theorem Frags.pop {bs ks : List Nat} (hfrag : Fragmented p.table b log)
    (hblocks : blocks log = b :: bs) (hrun : run b = k :: ks)
    (hmem : p'.mem = unlink p.mem (L.frag b log k) (next p.mem (L.frag b log k)))
    (htable : p'.table = (p.table.setNfree b ks.length).setFirst b
      (if ks.length ≠ 0 then next p'.mem (L.frag b log k) % L.blksz / 2 ^ log else UINT_MAX)) :
    Frags p' L (Function.update blocks log (if ks = [] then bs else b :: bs))
        (Function.update run b ks) ∧
      ∀ a c, Holds p L run a c → ∀ x, a ≤ x → x < a + c → p'.mem x = p.mem x := by
  have hlog := h.type b log hfrag
  have hbs : b ∉ bs ∧ bs.Nodup := List.nodup_cons.mp (hblocks ▸ h.blocks_nodup log)
  have hks := h.run_nodup b log hfrag
  have hlt := h.run_lt b log hfrag
  rw [hrun] at hks hlt
  -- the list starts with the fragment
  have hfree : freeFrags L blocks run log =
      (run b).map (L.frag b log) ++ bs.flatMap fun x => (run x).map (L.frag x log) := by
    unfold freeFrags
    rw [hblocks, List.flatMap_cons]
  rw [hrun, List.map_cons, List.cons_append] at hfree
  generalize hrest : ks.map (L.frag b log) ++
    bs.flatMap (fun x => (run x).map (L.frag x log)) = rest at hfree
  have hl := h.list log hlog.1 hlog.2
  rw [hfree] at hl
  have hnext : next p.mem (L.frag b log k) = rest.headD 0 := hl.2.2.next_eq
  obtain ⟨hlist, hlists, hframe⟩ :=
    h.cutOut hheap hlog (show _ = [] ++ (L.frag b log k :: [] ++ rest) from hfree)
  rw [← hnext, ← hmem] at hlist hlists hframe
  obtain ⟨hiff, hother, hnfree, hfirst⟩ := fragmented_counters htable
  refine ⟨?_, hframe⟩
  have hupdate : freeFrags L (Function.update blocks log (if ks = [] then bs else b :: bs))
      (Function.update run b ks) log = rest := by
    unfold freeFrags
    rw [Function.update_self, ← hrest]
    split
    · rename_i hnil
      rw [flatMap_update hbs.1, hnil]
      rfl
    · rw [List.flatMap_cons, flatMap_update hbs.1, Function.update_self]
  apply h.edit hlog hother (fun l hf => hf.log_eq hfrag) (fun l hf => ((hiff b l).mp hf).log_eq hfrag)
    hlists
  · rw [hupdate]
    exact hlist
  · split
    · exact hbs.2
    · exact List.nodup_cons.mpr hbs
  · intro x
    rw [hblocks, List.mem_cons]
    split
    · rename_i hnil
      by_cases hx : x = b
      · simp [hx, hnil, hbs.1]
      · simp [hx]
    · rename_i hcons
      by_cases hx : x = b
      · simp [hx, hcons, (hiff b log).mpr hfrag]
      · simp [hx]
  · intro _
    refine ⟨hks.of_cons, fun j hj => hlt j (List.mem_cons_of_mem _ hj), hnfree, ?_⟩
    intro j hj
    -- behind the fragment that was taken comes the next one of the same block
    obtain ⟨ks', rfl⟩ : ∃ ks', ks = j :: ks' := by
      cases ks with
      | nil => contradiction
      | cons i ks' =>
        obtain rfl := Option.some.inj hj
        exact ⟨ks', rfl⟩
    have hA := nodes_cells hheap h.type
    have hnodes := h.mem_nodes hlog.2
    have hk : L.frag b log k ∈ freeFrags L blocks run log := hfree ▸ List.mem_cons_self
    have hhead : L.frag b log k ≠ L.head log := fun heq => h.head_notMem hlog.2 (heq ▸ hk)
    have hkeep : next p'.mem (L.frag b log k) = L.frag b log j := by
      have hj' : next p.mem (L.frag b log k) = L.frag b log j := by
        rw [hnext, ← hrest]
        rfl
      have hjmem : L.frag b log j ∈ freeFrags L blocks run log := by
        rw [hfree, ← hrest]
        simp
      rw [hmem, hj', hA.next_unlink (by rw [hl.2.1]; exact hnodes _ List.mem_cons_self)
        (fun _ => hnodes _ (List.mem_cons_of_mem _ hjmem)) (hnodes _ (List.mem_cons_of_mem _ hk)),
        hl.2.1, if_neg hhead, hj']
    rw [hfirst, if_pos (by simp), hkeep]
    exact L.frag_mod (Nat.le_of_lt hlog.2) (hlt j (by simp))

/-- A freed fragment is the first free one of its block. -/
theorem Frags.insertFirst (hfrag : Fragmented p.table b log) (hk : k < L.count log)
    (hrun : run b = [])
    (hmem : p'.mem = insertAfter p.mem (L.head log) (L.frag b log k))
    (htable : p'.table = (p.table.setNfree b 1).setFirst b k) :
    Frags p' L (Function.update blocks log (b :: blocks log)) (Function.update run b [k]) ∧
      ∀ a c, Holds p L run a c → a ≠ L.frag b log k → ∀ x, a ≤ x → x < a + c →
        p'.mem x = p.mem x := by
  have hlog := h.type b log hfrag
  have hnot : k ∉ run b := by
    rw [hrun]
    exact List.not_mem_nil
  have hb : b ∉ blocks log := fun hb => ((h.mem_blocks log b).mp hb).2 hrun
  obtain ⟨hlist, hlists, hframe⟩ := h.linkIn hheap hfrag hk hnot
    (show _ = [] ++ freeFrags L blocks run log from rfl)
  rw [lastOf_nil, ← hmem] at hlist hlists hframe
  obtain ⟨hiff, hother, hnfree, hfirst⟩ := fragmented_counters htable
  have hupdate : freeFrags L (Function.update blocks log (b :: blocks log))
      (Function.update run b [k]) log = L.frag b log k :: freeFrags L blocks run log := by
    unfold freeFrags
    rw [Function.update_self, List.flatMap_cons, flatMap_update hb, Function.update_self]
    rfl
  refine ⟨?_, hframe⟩
  apply h.edit hlog hother (fun l hf => hf.log_eq hfrag) (fun l hf => ((hiff b l).mp hf).log_eq hfrag)
    hlists
  · rw [hupdate]
    exact hlist
  · exact List.nodup_cons.mpr ⟨hb, h.blocks_nodup log⟩
  · intro x
    rw [List.mem_cons]
    by_cases hx : x = b
    · simp [hx, (hiff b log).mpr hfrag]
    · simp [hx]
  · intro _
    refine ⟨List.nodup_singleton k, ?_, hnfree, ?_⟩
    · intro j hj
      rw [List.mem_singleton.mp hj]
      exact hk
    · intro j hj
      rw [hfirst]
      exact Option.some.inj hj

/-- A freed fragment comes behind the first free one of its block. -/
theorem Frags.insertBehind {j : Nat} {ks : List Nat} (hfrag : Fragmented p.table b log)
    (hj : j < L.count log) (hnot : j ∉ run b) (hrun : run b = k :: ks)
    (hmem : p'.mem = insertAfter p.mem (L.frag b log k) (L.frag b log j))
    (htable : p'.table = p.table.setNfree b (ks.length + 2)) :
    Frags p' L blocks (Function.update run b (k :: j :: ks)) ∧
      ∀ a c, Holds p L run a c → a ≠ L.frag b log j → ∀ x, a ≤ x → x < a + c →
        p'.mem x = p.mem x := by
  have hlog := h.type b log hfrag
  have hb : b ∈ blocks log := (h.mem_blocks log b).mpr ⟨hfrag, by simp [hrun]⟩
  have hks := h.run_nodup b log hfrag
  have hlt := h.run_lt b log hfrag
  have hold := h.first b log hfrag
  rw [hrun] at hks hlt hold hnot
  obtain ⟨bs, bs', hblocks⟩ := List.append_of_mem hb
  have hbs := hblocks ▸ h.blocks_nodup log
  have hbs₁ : b ∉ bs := by
    intro hmem
    exact (List.nodup_append.mp hbs).2.2 b hmem b List.mem_cons_self rfl
  have hbs₂ : b ∉ bs' := (List.nodup_cons.mp (List.nodup_append.mp hbs).2.1).1
  -- the list around the first free fragment of the block
  have hfree := @freeFrags_split L b log blocks run bs bs' hblocks
  rw [hrun, List.map_cons, List.cons_append, ← List.singleton_append, ← List.append_assoc] at hfree
  obtain ⟨hlist, hlists, hframe⟩ := h.linkIn hheap hfrag hj (by rw [hrun]; exact hnot) hfree
  have hlast : lastOf (L.head log)
      (bs.flatMap (fun x => (run x).map (L.frag x log)) ++ [L.frag b log k]) =
        L.frag b log k := by
    simp [lastOf]
  rw [hlast, ← hmem] at hlist hlists hframe
  have htable' : p'.table = (p.table.setNfree b (ks.length + 2)).setFirst b (p.table b).first := by
    rw [htable]
    funext x
    by_cases hx : x = b
    · simp [Table.setW3, Table.setW2, hx]
    · simp [Table.setW3, Table.setW2, hx]
  obtain ⟨hiff, hother, hnfree, hfirst⟩ := fragmented_counters htable'
  have hupdate : freeFrags L (Function.update blocks log (blocks log))
      (Function.update run b (k :: j :: ks)) log =
        bs.flatMap (fun x => (run x).map (L.frag x log)) ++ [L.frag b log k] ++
          L.frag b log j :: (ks.map (L.frag b log) ++
            bs'.flatMap fun x => (run x).map (L.frag x log)) := by
    rw [Function.update_eq_self, freeFrags_split hblocks, flatMap_update hbs₁,
      flatMap_update hbs₂, Function.update_self]
    simp
  refine ⟨?_, hframe⟩
  rw [← Function.update_eq_self log blocks]
  apply h.edit hlog hother (fun l hf => hf.log_eq hfrag) (fun l hf => ((hiff b l).mp hf).log_eq hfrag)
    hlists
  · rw [hupdate]
    exact hlist
  · exact h.blocks_nodup log
  · intro x
    by_cases hx : x = b
    · simp [hx, hb, (hiff b log).mpr hfrag]
    · simp [hx]
  · intro _
    have hks' := List.nodup_cons.mp hks
    refine ⟨?_, ?_, hnfree, ?_⟩
    · grind
    · grind
    · intro i hi
      rw [hfirst]
      exact hold i hi

/-! ### Whole blocks -/

/-- With its last fragment, the block is one again. -/
theorem Frags.uncut {ks : List Nat} (hfrag : Fragmented p.table b log)
    (hrun : run b = k :: ks) (hcount : ks.length + 2 = L.count log)
    (hmem : p'.mem =
      unlink p.mem (L.frag b log k) (walk p.mem (L.count log - 1) (L.frag b log k)))
    (htable : p'.table = (p.table.setType b 0).setSize b 1) :
    (∃ bs, Frags p' L (Function.update blocks log bs) (Function.update run b [])) ∧
      p'.table.IsRun b 1 ∧
      ∀ a c, Holds p L run a c → ∀ x, a ≤ x → x < a + c → p'.mem x = p.mem x := by
  have hlog := h.type b log hfrag
  have hb : b ∈ blocks log := (h.mem_blocks log b).mpr ⟨hfrag, by simp [hrun]⟩
  obtain ⟨bs, bs', hblocks⟩ := List.append_of_mem hb
  have hbs := hblocks ▸ h.blocks_nodup log
  have hnot : b ∉ bs ++ bs' := (List.nodup_middle.mp hbs).notMem
  have hnodup : (bs ++ bs').Nodup := (List.nodup_middle.mp hbs).of_cons
  -- the list around the run of the block
  have hfree := @freeFrags_split L b log blocks run bs bs' hblocks
  rw [hrun, List.map_cons] at hfree
  have hl := h.list log hlog.1 hlog.2
  rw [hfree, List.cons_append] at hl
  have hwalk := dlist_walk hl.drop.2.2
  rw [List.length_map, show ks.length + 1 = L.count log - 1 by omega] at hwalk
  obtain ⟨hlist, hlists, hframe⟩ := h.cutOut hheap hlog hfree
  rw [← hwalk, ← hmem] at hlist hlists hframe
  have hother : ∀ x, x ≠ b → p'.table x = p.table x := by
    intro x hx
    simp [htable, Table.setW1, Table.setW2, hx]
  have hself : (p'.table b).type = 0 := by simp [htable]
  have hnofrag : ∀ l, ¬ Fragmented p'.table b l := fun l hf => hf.2.2 (hf.2.1.symm.trans hself)
  refine ⟨⟨bs ++ bs', ?_⟩, ?_, hframe⟩
  · apply h.edit hlog hother (fun l hf => hf.log_eq hfrag) (fun l hf => absurd hf (hnofrag l))
      hlists
    · unfold freeFrags
      rw [Function.update_self, flatMap_update hnot, List.flatMap_append]
      exact hlist
    · exact hnodup
    · intro x
      by_cases hx : x = b
      · simp only [hx, hnot, hnofrag log, false_and, if_true]
      · rw [hblocks, if_neg hx]
        simp [hx]
    · exact fun hf => absurd hf (hnofrag log)
  · constructor
    · decide
    · intro i hi hlt
      obtain rfl : i = b := by omega
      rw [htable]
      exact hfrag.1
    · intro i hi hlt
      obtain rfl : i = b := by omega
      exact hself
    · simp [htable]

/-- No list has a node in a block that is not fragmented. -/
theorem Frags.notMem_of_block (hb : 0 < b) (hnot : ∀ l, ¬ Fragmented p.table b l)
    (hu : L.addr b ≤ u) (hlt : u < L.addr b + L.blksz) (hlog' : log' < L.log) :
    u ∉ L.head log' :: freeFrags L blocks run log' := by
  intro hmem
  obtain rfl | hmem := List.mem_cons.mp hmem
  · have := L.head_add_le hlog'
    have := L.base_le_addr (b := b)
    omega
  · obtain ⟨b', k, hfrag, hk, -, rfl⟩ := h.of_mem hmem
    obtain ⟨hle, hge, -, -⟩ := frag_bounds hheap h.type hfrag hk
    have hpow := Nat.two_pow_pos log'
    rcases Nat.lt_trichotomy b b' with hlt' | rfl | hgt
    · have := L.addr_le (b := b + 1) (by omega) hlt'
      rw [L.addr_succ hb] at this
      omega
    · exact hnot log' hfrag
    · have := L.addr_le (b := b' + 1) (by omega) hgt
      omega

/-- The fragments 1 to `n` of a block are pushed to an empty list. -/
theorem Frags.push (hheap' : Heap p' L S E)
    (htype' : ∀ b log, Fragmented p'.table b log → 3 ≤ log ∧ log < L.log)
    (hnodes : ∀ u ∈ Nodes p L, u ∈ Nodes p' L) (hnot : ∀ l, ¬ Fragmented p.table b l)
    (hfrag : Fragmented p'.table b log) (hempty : blocks log = []) (hn : n < L.count log) :
    DList (Pool.pushFrags p.mem (L.head log) (L.addr b) log n) (L.head log)
        ((List.range' 1 n).reverse.map (L.frag b log)) ∧
      (∀ l, 3 ≤ l → l < L.log → l ≠ log →
        DList (Pool.pushFrags p.mem (L.head log) (L.addr b) log n) (L.head l)
          (freeFrags L blocks run l)) ∧
      ∀ x, (x < L.head log ∨ L.head log + 8 ≤ x) → (x < L.addr b ∨ L.addr (b + 1) ≤ x) →
        Pool.pushFrags p.mem (L.head log) (L.addr b) log n x = p.mem x := by
  have hlog := htype' b log hfrag
  have hA := nodes_cells hheap' htype'
  obtain ⟨hb, hbE⟩ := hfrag.pos hheap'
  have hbase := L.base_le_addr (b := b)
  have hheadle := L.head_add_le hlog.2
  have hsucc := L.addr_succ (b := b) (by omega)
  have hend := hheap'.core.end_le_word
  have hhead : L.head log ∈ Nodes p' L := .inl ⟨log, hlog.2, rfl⟩
  induction n with
  | zero =>
    refine ⟨?_, fun l h3 hlt _ => h.list l h3 hlt, fun _ _ _ => rfl⟩
    have hl := h.list log hlog.1 hlog.2
    unfold freeFrags at hl
    rw [hempty] at hl
    exact hl
  | succ n ih =>
    obtain ⟨hlist, hlists, hframe⟩ := ih (by omega)
    have hbounds := frag_bounds hheap' htype' hfrag hn
    have haddr : add32 (L.addr b) ((n + 1) * 2 ^ log) = L.frag b log (n + 1) := by
      unfold Layout.frag at hbounds ⊢
      exact add32_of_lt (by omega)
    have hx : L.frag b log (n + 1) ∈ Nodes p' L := .inr ⟨b, log, n + 1, hfrag, hn, rfl⟩
    have hxhead : L.frag b log (n + 1) ≠ L.head log := by omega
    rw [Pool.pushFrags, haddr]
    generalize Pool.pushFrags p.mem (L.head log) (L.addr b) log n = m at *
    -- the fragments that are listed already
    have hys : ∀ u ∈ (List.range' 1 n).reverse.map (L.frag b log),
        ∃ k < n + 1, u = L.frag b log k := by
      intro u hu
      obtain ⟨k, hk, rfl⟩ := List.mem_map.mp hu
      have hk := List.mem_range'_1.mp (List.mem_reverse.mp hk)
      exact ⟨k, by omega, rfl⟩
    have hlast : ∀ u ∈ (List.range' 1 n).reverse.map (L.frag b log), L.addr b ≤ u ∧
        u < L.frag b log (n + 1) ∧ u ∈ Nodes p' L := by
      intro u hu
      obtain ⟨k, hk, rfl⟩ := hys u hu
      have : L.frag b log k + 2 ^ log ≤ L.frag b log (n + 1) := L.frag_add_le_frag hk
      exact ⟨L.addr_le_frag, by omega, .inr ⟨b, log, k, hfrag, by omega, rfl⟩⟩
    have hynodup : ((List.range' 1 n).reverse.map (L.frag b log)).Nodup := by
      apply (List.nodup_reverse.mpr List.nodup_range').map
      intro i j hij
      have hpow := Nat.two_pow_pos log
      unfold Layout.frag at hij
      exact Nat.eq_of_mul_eq_mul_right hpow (by omega)
    have hstep : (List.range' 1 (n + 1)).reverse.map (L.frag b log) =
        L.frag b log (n + 1) :: (List.range' 1 n).reverse.map (L.frag b log) := by
      rw [List.range'_1_concat, List.reverse_append, Nat.add_comm 1 n]
      rfl
    rw [hstep]
    generalize (List.range' 1 n).reverse.map (L.frag b log) = ys at *
    have hnext : next m (L.head log) ≠ 0 → next m (L.head log) ∈ ys := by
      rw [hlist.next_eq]
      cases ys with
      | nil => simp
      | cons y ys => simp
    have hnextA : next m (L.head log) ≠ 0 → next m (L.head log) ∈ Nodes p' L :=
      fun h0 => (hlast _ (hnext h0)).2.2
    refine ⟨?_, ?_, ?_⟩
    · apply dlist_insertAfter hA (show DList _ _ ([] ++ _) from hlist)
      · intro u hu
        obtain rfl | hu := List.mem_cons.mp hu
        · exact hx
        · obtain rfl | hu := List.mem_cons.mp hu
          · exact hhead
          · exact (hlast u hu).2.2
      · refine List.nodup_cons.mpr ⟨?_, List.nodup_cons.mpr ⟨?_, hynodup⟩⟩
        · intro hmem
          obtain heq | hmem := List.mem_cons.mp hmem
          · exact hxhead heq
          · have := hlast _ hmem
            omega
        · intro hmem
          have := hlast _ hmem
          omega
    · intro l h3 hlt hne
      have hin : ∀ u, L.addr b ≤ u → u < L.addr b + L.blksz →
          u ∉ L.head l :: freeFrags L blocks run l := fun u hu hu' =>
        h.notMem_of_block hheap (by omega) hnot hu hu' hlt
      apply (hlists l h3 hlt hne).insertAfter_other hA (fun u hu => hnodes u (h.mem_nodes hlt u hu))
        hx hhead hnextA hxhead
      · exact hin _ hbounds.1 (by omega)
      · exact h.list_disjoint hheap hlog.2 hlt hne List.mem_cons_self
      · intro hmem
        have h0 := hA.pos _ (hnodes _ (h.mem_nodes hlt _ (List.mem_cons_of_mem _ hmem)))
        have hy := hlast _ (hnext h0)
        exact hin _ hy.1 (by omega) (List.mem_cons_of_mem _ hmem)
    · intro x hxh hxb
      rw [← hframe x hxh hxb]
      apply hA.insertAfter_apply hx hhead hnextA hxhead
      intro u hu
      rcases hu with rfl | rfl | ⟨rfl, h0⟩
      · omega
      · omega
      · have hy := hlast _ (hnext h0)
        omega

/-- A block is cut into fragments, the first of which is not free. -/
theorem Frags.cut (hheap' : Heap p' L S E) (hlog : 3 ≤ log ∧ log < L.log)
    (hobj : p.table.IsObject b 1) (hempty : blocks log = [])
    (hmem : p'.mem = Pool.pushFrags p.mem (L.head log) (L.addr b) log (L.count log - 1))
    (htable : p'.table = ((p.table.setType b log).setNfree b (L.count log - 1)).setFirst b
      (L.count log - 1)) :
    Frags p' L (Function.update blocks log [b])
        (Function.update run b (List.range' 1 (L.count log - 1)).reverse) ∧
      Fragmented p'.table b log ∧
      ∀ a c, Holds p L run a c → a ≠ L.addr b → ∀ x, a ≤ x → x < a + c →
        p'.mem x = p.mem x := by
  have hstatus := hobj.status b (Nat.le_refl b) (by omega)
  have hfrag : Fragmented p'.table b log := by
    rw [htable]
    exact ⟨hstatus, if_pos rfl, by omega⟩
  have hnot : ∀ l, ¬ Fragmented p.table b l := fun l hf => by
    have := hf.outside hobj.toIsRun
    omega
  have hother : ∀ x, x ≠ b → p'.table x = p.table x := by
    intro x hx
    simp [htable, Table.setW1, Table.setW2, Table.setW3, hx]
  have hb' : ∀ l, Fragmented p'.table b l → l = log := fun l hf => hf.log_eq hfrag
  have htype' : ∀ x l, Fragmented p'.table x l → 3 ≤ l ∧ l < L.log := by
    intro x l hf
    by_cases hx : x = b
    · subst hx
      rw [hb' l hf]
      exact hlog
    · exact h.type x l (hf.congr (hother x hx).symm)
  have hnodes : ∀ u ∈ Nodes p L, u ∈ Nodes p' L := by
    intro u hu
    rcases hu with hu | ⟨x, l, k, hf, hk, heq⟩
    · exact .inl hu
    · have hx : x ≠ b := by
        rintro rfl
        exact hnot l hf
      exact .inr ⟨x, l, k, hf.congr (hother x hx), hk, heq⟩
  have hcount : 0 < L.count log := L.count_pos
  obtain ⟨hlist, hlists, hframe⟩ := h.push hheap hheap' htype' hnodes hnot hfrag hempty
    (n := L.count log - 1) (by omega)
  rw [← hmem] at hlist hlists hframe
  refine ⟨?_, hfrag, ?_⟩
  · apply h.edit hlog hother (fun l hf => absurd hf (hnot l)) hb' hlists
    · unfold freeFrags
      rw [Function.update_self, List.flatMap_cons, List.flatMap_nil, List.append_nil,
        Function.update_self]
      exact hlist
    · exact List.nodup_singleton b
    · intro x
      have htwo : 2 ≤ L.count log := by
        unfold Layout.count
        exact Nat.pow_le_pow_right (show 0 < 2 by decide) (show 1 ≤ L.log - log by omega)
      by_cases hx : x = b
      · simp [hx, hfrag]
        omega
      · simp [hx, hempty]
    · intro _
      refine ⟨List.nodup_reverse.mpr List.nodup_range', ?_, ?_, ?_⟩
      · intro k hk
        have := List.mem_range'_1.mp (List.mem_reverse.mp hk)
        omega
      · simp [htable]
      · intro k hk
        obtain ⟨m, hm⟩ : ∃ m, L.count log - 1 = m + 1 := by
          have hne : L.count log - 1 ≠ 0 := by
            intro h0
            rw [h0] at hk
            contradiction
          exact ⟨L.count log - 1 - 1, by omega⟩
        rw [hm, List.range'_1_concat, List.reverse_append] at hk
        have hk' : 1 + m = k := Option.some.inj hk
        rw [htable]
        simp
        omega
  · intro a c hold hne x hx hlt
    have hin := hold.inside hheap h.type
    have hheadle := L.head_add_le hlog.2
    have hbase := L.base_le_addr (b := L.infoBlocks + 1)
    have hb := (hfrag.pos hheap').1
    have hblock := hold.apart hheap h.type (.object b 1 hb hobj) hne
    apply hframe x
    · omega
    · rw [L.addr_succ (by omega)]
      omega

end

end Hcrtos.Native.Alloc
