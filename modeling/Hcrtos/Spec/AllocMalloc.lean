import Hcrtos.Spec.AllocSound

/-!
# Allocating

`__malloc` keeps a pool sound. It returns a region that was not owned before, of at least the
size that was asked for, or it fails and leaves the pool as it is.

## Key results

- `Sound.pop`, `Sound.cut`: the fragments
- `Owns.malloc`: all of `__malloc`
-/

namespace Hcrtos.Native.Alloc

open Word Memory IntrusiveList Table

/-- The bytes of the regions are unchanged. -/
def SameBytes (R : Finset (Nat × Nat)) (m m' : Mem) : Prop :=
  ∀ r ∈ R, ∀ x, r.1 ≤ x → x < r.1 + r.2 → m' x = m x

section

variable {p p' : Pool} {L : Layout} {S S' : Finset Nat} {E b c n a log k : Nat}
  {blocks run : Nat → List Nat} {R : Finset (Nat × Nat)}

variable (h : Sound p L S E blocks run R)
include h

/-! ### A free fragment -/

/-- The first free fragment of a size is taken off its list. -/
theorem Sound.pop (hlog : 3 ≤ log ∧ log < L.log) (hne : next p.mem (L.head log) ≠ 0)
    (malloc : Pool → Nat → Option (Pool × Option Nat)) :
    ∃ p' a blocks' run', p.mallocFrag malloc log = some (p', some a) ∧
      Sound p' L S E blocks' run' (insert (a, 2 ^ log) R) ∧ (∀ r ∈ R, r.1 ≠ a) ∧
      SameBytes R p.mem p'.mem ∧ p'.ptr = p.ptr := by
  obtain ⟨b, bs, k, ks, hblocks, hrun, hfrag, hnext⟩ := h.frags.cons_of_next hlog hne
  obtain ⟨hb, hbE⟩ := hfrag.pos h.heap
  have hkrun : k ∈ run b := by simp [hrun]
  have hk := h.frags.run_lt b log hfrag k hkrun
  have hblock := h.heap.core.BLOCK_frag (by omega) hbE (by omega) hk
  have hlength := h.frags.length_run_le hfrag
  have hblksz := L.blksz_lt
  have hnfree := h.frags.nfree b log hfrag
  rw [hrun, List.length_cons] at hlength hnfree
  have hsub : sub32 (p.table b).nfree 1 = ks.length := by
    rw [hnfree, sub32_of_le (by omega) (by omega)]
    rfl
  have hfresh : ∀ r ∈ R, r.1 ≠ L.frag b log k := fun r hr =>
    h.frags.ne_free h.heap (h.holds hr) hfrag hkrun
  unfold Pool.mallocFrag
  rw [h.heap.core.frag_eq, if_pos hne, hnext, hblock]
  dsimp only
  rw [hsub]
  obtain ⟨q, hq⟩ : ∃ q : Pool, q = { p with
      mem := unlink p.mem (L.frag b log k) (next p.mem (L.frag b log k))
      table := (p.table.setNfree b ks.length).setFirst b (if ks.length ≠ 0 then
          next (unlink p.mem (L.frag b log k) (next p.mem (L.frag b log k))) (L.frag b log k) %
            p.blksz / 2 ^ log else UINT_MAX)
      chunks_used := add32 p.chunks_used 1
      bytes_used := add32 p.bytes_used (2 ^ log)
      chunks_free := sub32 p.chunks_free 1
      bytes_free := sub32 p.bytes_free (2 ^ log) } := ⟨_, rfl⟩
  rw [← hq]
  have htable : q.table = (p.table.setNfree b ks.length).setFirst b
      (if ks.length ≠ 0 then next q.mem (L.frag b log k) % L.blksz / 2 ^ log else UINT_MAX) := by
    rw [hq]
    dsimp only
    rw [h.heap.core.blksz]
  obtain ⟨hfrags, hsame⟩ := h.frags.pop h.heap hfrag hblocks hrun (by rw [hq]) htable
  obtain ⟨hiff, hother, hnfree', -⟩ := fragmented_counters htable
  have hfrag' : Fragmented q.table b log := (hiff b log).mpr hfrag
  have hrnodup := h.frags.run_nodup b log hfrag
  have hsize := h.heap.core.le_infoSize
  obtain ⟨hcard, hsum⟩ := sum_insert_region (show (L.frag b log k, 2 ^ log) ∉ R from
    fun hr => hfresh _ hr rfl)
  refine ⟨q, _, _, _, rfl, h.edit hfrag hfrag' hother ?_ ?_ ?_ hfrags ?_ ?_, hfresh, ?_,
    by rw [hq]⟩
  · rw [hq]
    exact h.heap.core.update _ _ _ _ _ _ _ _
  · rw [hq]
  · rw [hq]
  · apply h.regions_insert hfrag hfrag' hother hk
    intro j
    rw [hrun, List.mem_cons, not_or]
    have hknot : k ∉ ks := (List.nodup_cons.mp (hrun ▸ hrnodup)).1
    grind
  · apply h.counted.useFrag (by omega) (h.heap.notMem_of_busy hfrag.1) hfrag hfrag' hother
    · rw [hq]
    · rw [hnfree', hnfree]
    · rw [hq]
    · rw [hq]
    · rw [hq]
    · rw [hq]
    · exact hcard
    · exact hsum
  · intro r hr
    exact hsame r.1 r.2 (h.holds hr)

/-! ### A new block of fragments -/

/-- Where a list of fragments is empty, no block of the size has free ones. -/
theorem Sound.blocks_eq_nil (hlog : 3 ≤ log ∧ log < L.log) (hzero : next p.mem (L.head log) = 0) :
    blocks log = [] := by
  cases hblocks : blocks log with
  | nil => rfl
  | cons b bs =>
    have hb : b ∈ blocks log := by simp [hblocks]
    obtain ⟨hfrag, hne⟩ := (h.frags.mem_blocks log b).mp hb
    obtain ⟨k, ks, hrun⟩ := List.exists_cons_of_ne_nil hne
    have hl := h.frags.list log hlog.1 hlog.2
    have hnext := hl.next_eq
    unfold freeFrags at hnext
    rw [hblocks, List.flatMap_cons, hrun, List.map_cons, List.cons_append, List.headD_cons,
      hzero] at hnext
    have hbase := L.base_pos
    have hle := L.base_le_addr (b := b)
    have hfle : L.addr b ≤ L.frag b log k := L.addr_le_frag
    omega

omit h

/-- The regions after a block was cut into fragments, the first of which is in use. -/
theorem Sound.regions_cut (h : Sound p L S E blocks run (insert (L.addr b, L.blksz) R))
    (hfresh : ∀ r ∈ R, r.1 ≠ L.addr b) (hb : L.infoBlocks < b) (hobj : p.table.IsObject b 1)
    (hfrag : Fragmented p'.table b log) (hother : ∀ x, x ≠ b → p'.table x = p.table x)
    {ks : List Nat} (hks : ∀ k < L.count log, k ∉ ks ↔ k = 0) (a c : Nat) :
    (a, c) ∈ insert (L.addr b, 2 ^ log) R ↔ Holds p' L (Function.update run b ks) a c := by
  have hold : ∀ a c, (a, c) = (L.addr b, L.blksz) ∨ (a, c) ∈ R ↔ Holds p L run a c := by
    intro a c
    rw [← h.regions, Finset.mem_insert]
  have hnot : ∀ l, ¬ Fragmented p.table b l := fun l hl => by
    have := hl.outside hobj.toIsRun
    omega
  have hzero : L.frag b log 0 = L.addr b := by simp [Layout.frag]
  rw [Finset.mem_insert]
  constructor
  · rintro (heq | hr)
    · cases heq
      rw [← hzero]
      refine .frag b log 0 hfrag L.count_pos ?_
      rw [Function.update_self]
      exact (hks 0 L.count_pos).mpr rfl
    · have hne := hfresh _ hr
      have hac := (hold a c).mp (.inr hr)
      cases hac with
      | object b' n hb' hobj' =>
        have hbb' : b' ≠ b := by
          rintro rfl
          exact hne rfl
        have hapart := h.heap.object_apart hobj hobj' hbb'
        exact .object b' n hb' (hobj'.congr fun i hi hlt => hother i (by omega))
      | frag b' l k hfrag' hk hrun =>
        have hbb' : b' ≠ b := by
          rintro rfl
          exact hnot l hfrag'
        refine .frag b' l k (hfrag'.congr (hother b' hbb')) hk ?_
        rwa [Function.update_of_ne hbb']
  · intro hac
    cases hac with
    | object b' n hb' hobj' =>
      have hout := hfrag.outside hobj'.toIsRun
      have hpos := hobj'.pos
      have hobj₀ : p.table.IsObject b' n :=
        hobj'.congr fun i hi hlt => (hother i (by omega)).symm
      refine .inr (((hold _ _).mpr (.object b' n hb' hobj₀)).resolve_left ?_)
      intro heq
      have := L.addr_inj (by omega) (by omega) (congrArg Prod.fst heq)
      omega
    | frag b' l k hfrag' hk hrun =>
      by_cases hbb' : b' = b
      · subst hbb'
        obtain rfl := hfrag.log_eq hfrag'
        rw [Function.update_self] at hrun
        rw [(hks k hk).mp hrun, hzero]
        exact .inl rfl
      · rw [Function.update_of_ne hbb'] at hrun
        have hfrag₀ := hfrag'.congr (hother b' hbb').symm
        refine .inr (((hold _ _).mpr (.frag b' l k hfrag₀ hk hrun)).resolve_left ?_)
        intro heq
        exact addr_ne_frag h.heap h.frags.type (by omega) hobj hfrag₀ hk
          (congrArg Prod.fst heq).symm

/-- A block is cut into fragments, the first of which is in use. -/
theorem Sound.cut (h : Sound p L S E blocks run (insert (L.addr b, L.blksz) R))
    (hlog : 3 ≤ log ∧ log < L.log) (hzero : next p.mem (L.head log) = 0)
    (hfresh : ∀ r ∈ R, r.1 ≠ L.addr b) (hb : L.infoBlocks < b) (hobj : p.table.IsObject b 1) :
    ∃ q blocks' run', q = { p with
        mem := Pool.pushFrags p.mem (L.head log) (L.addr b) log (L.count log - 1)
        table := ((p.table.setType b log).setNfree b (L.count log - 1)).setFirst b
          (L.count log - 1)
        chunks_free := add32 p.chunks_free (L.count log - 1)
        bytes_free := add32 p.bytes_free (sub32 L.blksz (2 ^ log))
        bytes_used := sub32 p.bytes_used (sub32 L.blksz (2 ^ log)) } ∧
      Sound q L S E blocks' run' (insert (L.addr b, 2 ^ log) R) ∧ SameBytes R p.mem q.mem := by
  obtain ⟨q, hq⟩ : ∃ q : Pool, q = { p with
      mem := Pool.pushFrags p.mem (L.head log) (L.addr b) log (L.count log - 1)
      table := ((p.table.setType b log).setNfree b (L.count log - 1)).setFirst b
        (L.count log - 1)
      chunks_free := add32 p.chunks_free (L.count log - 1)
      bytes_free := add32 p.bytes_free (sub32 L.blksz (2 ^ log))
      bytes_used := sub32 p.bytes_used (sub32 L.blksz (2 ^ log)) } := ⟨_, rfl⟩
  have htable : q.table = ((p.table.setType b log).setNfree b (L.count log - 1)).setFirst b
      (L.count log - 1) := by rw [hq]
  have hother : ∀ x, x ≠ b → q.table x = p.table x := by
    intro x hx
    simp [htable, Table.setW1, Table.setW2, Table.setW3, hx]
  have hone := hobj.status b (Nat.le_refl b) (by omega)
  have hone' : (q.table b).status = 1 := by
    rw [htable]
    exact hone
  have hcore : q.Core L E := by
    rw [hq]
    exact h.heap.core.update _ _ _ _ _ _ _ _
  have hheap : Heap q L S E := h.heap.edit hcore (by rw [hq]) hb hone hone' hother
  obtain ⟨hfrags, hfrag, hsame⟩ := h.frags.cut h.heap hheap hlog hobj
    (h.blocks_eq_nil hlog hzero) (by rw [hq]) htable
  have hnot : ∀ l, ¬ Fragmented p.table b l := fun l hl => by
    have := hl.outside hobj.toIsRun
    omega
  have hin : (L.addr b, L.blksz) ∉ R := fun hr => hfresh _ hr rfl
  have hin' : (L.addr b, 2 ^ log) ∉ R := fun hr => hfresh _ hr rfl
  have hbE := (hfrag.pos hheap).2
  have hsize := h.heap.core.le_infoSize
  have hmul : (L.count log : WordRing) * (2 ^ log : ℕ) = L.blksz := by
    rw [← Nat.cast_mul, L.count_mul (by omega)]
  have hcount : ((L.count log - 1 : ℕ) : WordRing) = L.count log - 1 := by
    rw [Nat.cast_sub L.count_pos, Nat.cast_one]
  have hnfree : (q.table b).nfree = L.count log - 1 := by simp [htable]
  refine ⟨q, _, _, hq, ⟨hheap, ?_, hfrags, ?_, ?_, ?_, ?_⟩, ?_⟩
  · unfold Limit
    rw [hq]
    exact h.limit
  · intro x hx hbusy htype
    have hne : x ≠ b := by
      rintro rfl
      exact hfrag.2.2 (hfrag.2.1.symm.trans htype)
    rw [hother x hne] at hbusy htype
    obtain ⟨c, m, hc, hobj', hcx, hxc⟩ := h.cover x hx hbusy htype
    have hcb : c ≠ b := by
      rintro rfl
      have := hobj.size_eq hobj'
      omega
    have hapart := h.heap.object_apart hobj hobj' hcb
    exact ⟨c, m, hc, hobj'.congr fun i hi hlt => hother i (by omega), hcx, hxc⟩
  · apply h.regions_cut hfresh hb hobj hfrag hother
    intro k hk
    rw [List.mem_reverse, List.mem_range'_1]
    omega
  · apply h.counted.edit (x := L.count log - 1) (y := (L.count log - 1) * (2 ^ log : ℕ))
      (by omega) (h.heap.notMem_of_busy hone) hother
    · rw [hq]
    · rw [hfrag.spare_eq.1, (spare_of_not hnot).1, hnfree, hcount]
      push_cast
      ring
    · rw [hfrag.spare_eq.2, (spare_of_not hnot).2, hnfree]
      push_cast
      rw [hcount]
      ring
    · rw [hq, cast_add32, hcount]
    · rw [hq, cast_add32, cast_sub32, ← hmul]
      ring
    · rw [hq, (sum_insert_region hin).1, (sum_insert_region hin').1]
    · rw [hq, (sum_insert_region hin).2, (sum_insert_region hin').2, cast_sub32, cast_sub32]
      ring
    · rw [hq]
      exact ⟨h.counted.counters.chunks_used, sub32_lt _ _, add32_lt _ _, add32_lt _ _⟩
  · intro i hi
    rw [hother i (by omega)]
    exact h.beyond i hi
  · intro r hr
    exact hsame r.1 r.2 (h.holds (Finset.mem_insert_of_mem hr)) (hfresh r hr)

/-! ### Blocks -/

/-- `__malloc` of one or more blocks. -/
theorem Sound.mallocBlocks (h : Sound p L S E blocks run R) {size : Nat} (hpos : 0 < size)
    (hsize : size + L.blksz - 1 < 2 ^ 32) (hn : p.BLOCKIFY size = n)
    (hwords : p.InWords p.Free n) (hwhole : p.Whole n) :
    (p.mallocBlocks size = some (p, none) ∧ ¬ p.Served p.Free n) ∨
      ∃ p' S' E' b, p.mallocBlocks size = some (p', some (L.addr b)) ∧ L.infoBlocks < b ∧
        p'.table.IsObject b n ∧
        Sound p' L S' E' blocks run (insert (L.addr b, n * L.blksz) R) ∧
        (∀ r ∈ R, r.1 ≠ L.addr b) ∧ p'.mem = p.mem ∧ p.ptr ≤ p'.ptr := by
  subst hn
  obtain ⟨p', r, hresult, houtcome⟩ := h.heap.mallocBlocks h.limit hpos hsize hwords hwhole
  cases houtcome with
  | none hnot => exact .inl ⟨hresult, hnot⟩
  | some heap limit takes charged =>
    rename_i b S' E'
    have hn := takes.object.pos
    have hone := takes.object.status b (Nat.le_refl b) (by omega)
    have hb : 0 < b := by
      by_contra hzero
      obtain rfl : b = 0 := by omega
      rw [heap.clusters.zero.1] at hone
      contradiction
    have hinfo := h.heap.infoBlocks_lt hb (takes.free b (Nat.le_refl b) (by omega))
    obtain ⟨hsound, hfresh⟩ := h.takes takes hinfo hn heap limit charged
    exact .inr ⟨p', S', E', b, hresult, hinfo, takes.object, hsound, hfresh, takes.mem,
      takes.ptr⟩

/-! ### Requests -/

/-- The size of a fragment for a request. -/
theorem le_fragLog {size : Nat} (hsize : 8 ≤ size) :
    size ≤ 2 ^ Pool.fragLog size ∧ 3 ≤ Pool.fragLog size := by
  unfold Pool.fragLog
  have hlt : size - 1 < 2 ^ (Nat.log2 (size - 1) + 1) := Nat.lt_log2_self
  have hge : 2 ≤ Nat.log2 (size - 1) := (Nat.le_log2 (by omega)).mpr (by omega)
  omega

theorem fragLog_lt {size : Nat} (hsize : 8 ≤ size) (hle : size ≤ L.blksz / 2) :
    Pool.fragLog size < L.log := by
  have hlog := L.log_ge
  have hhalf : L.blksz / 2 = 2 ^ (L.log - 1) := by
    obtain ⟨j, hj⟩ : ∃ j, L.log = j + 1 := ⟨L.log - 1, by omega⟩
    unfold Layout.blksz
    rw [hj, Nat.pow_succ, Nat.mul_div_cancel _ (by decide)]
    rfl
  have hlt : Nat.log2 (size - 1) < L.log - 1 := (Nat.log2_lt (by omega)).mpr (by omega)
  unfold Pool.fragLog
  omega

namespace Pool

/-- There is room for a request. -/
def Serves (p : Pool) (F : Nat → Prop) (size : Nat) : Prop :=
  size ≠ UINT_MAX ∧
    if max size 8 ≤ p.blksz / 2 then
      next p.mem (p.frag (fragLog (max size 8))) ≠ 0 ∨ p.Served F 1
    else p.Served F (p.BLOCKIFY (max size 8))

/-- A request for `n` blocks that has to be served from the end of the core is one for words of
    the pool. -/
def BlocksFit (p : Pool) (F : Nat → Prop) (n : Nat) : Prop := p.InWords F n ∧ p.Whole n

/-- Rounding the size up to blocks does not wrap, and the blocks that are then asked for are a
    number that `fit` allows. -/
def FitsBy (p : Pool) (fit : Nat → Prop) (size : Nat) : Prop :=
  size ≠ UINT_MAX →
    if max size 8 ≤ p.blksz / 2 then next p.mem (p.frag (fragLog (max size 8))) = 0 → fit 1
    else size + p.blksz - 1 < 2 ^ 32 ∧ fit (p.BLOCKIFY (max size 8))

/-- Rounding the size up to blocks does not wrap, and neither does the end of what is asked for
    where the request cannot be served. -/
def Fits (p : Pool) (F : Nat → Prop) (size : Nat) : Prop := p.FitsBy (p.BlocksFit F) size

theorem FitsBy.mono {p : Pool} {fit fit' : Nat → Prop} {size : Nat} (h : p.FitsBy fit size)
    (hfit : ∀ n, fit n → fit' n) : p.FitsBy fit' size := by
  intro hmax
  have h := h hmax
  split
  · rename_i hle
    rw [if_pos hle] at h
    exact fun hzero => hfit _ (h hzero)
  · rename_i hgt
    rw [if_neg hgt] at h
    exact ⟨h.1, hfit _ h.2⟩

end Pool

/-- What a request comes to. -/
inductive Allocated (p : Pool) (L : Layout) (R : Finset (Nat × Nat)) (size : Nat) :
    Pool → Option Nat → Prop where
  | none (h : ¬ p.Serves p.Free size) : Allocated p L R size p none
  | some {p' : Pool} {a c : Nat} (owns : Owns p' L (insert (a, c) R)) (fresh : ∀ r ∈ R, r.1 ≠ a)
      (le : size ≤ c) (same : SameBytes R p.mem p'.mem) (ptr : p.ptr ≤ p'.ptr) :
    Allocated p L R size p' (some a)

/-- `__malloc` of a fragment. -/
theorem Sound.mallocFrag (h : Sound p L S E blocks run R) (hlog : 3 ≤ log ∧ log < L.log)
    {malloc : Pool → Nat → Option (Pool × Option Nat)}
    (hinner : malloc p p.blksz = p.mallocBlocks p.blksz)
    (hfits : next p.mem (L.head log) = 0 → p.BlocksFit p.Free 1) :
    (p.mallocFrag malloc log = some (p, none) ∧ next p.mem (L.head log) = 0 ∧
        ¬ p.Served p.Free 1) ∨
      ∃ p' a, p.mallocFrag malloc log = some (p', some a) ∧
        Owns p' L (insert (a, 2 ^ log) R) ∧ (∀ r ∈ R, r.1 ≠ a) ∧
        SameBytes R p.mem p'.mem ∧ p.ptr ≤ p'.ptr := by
  by_cases hzero : next p.mem (L.head log) = 0
  · -- a block is cut
    obtain ⟨hwords, hwhole⟩ := hfits hzero
    have hblksz := h.heap.core.blksz
    have hpow := L.blksz_le
    have hge := L.blksz_ge
    have hone : p.BLOCKIFY p.blksz = 1 := by
      have hmul := h.heap.core.BLOCKIFY_mul (n := 1) (by omega)
      rwa [Nat.one_mul, ← hblksz] at hmul
    unfold Pool.mallocFrag
    rw [h.heap.core.frag_eq, if_neg (by rw [hzero]; simp), hinner]
    obtain ⟨hresult, hnot⟩ | ⟨p', S', E', b, hresult, hb, hobj, hsound, hfresh, hmem, hptr⟩ :=
      h.mallocBlocks (by omega) (by omega) hone hwords hwhole
    · rw [hresult]
      exact .inl ⟨rfl, hzero, hnot⟩
    · right
      rw [Nat.one_mul] at hsound
      rw [← hmem] at hzero
      have hbE := hsound.heap.run_le hobj.toIsRun
      have hlt := hsound.heap.core.addr_lt (b := b) (by omega) (by omega)
      obtain ⟨q, blocks', run', hq, hcut, hsame⟩ := hsound.cut hlog hzero hfresh hb hobj
      have hcore := hsound.heap.core
      refine ⟨q, L.addr b, ?_, hcut.owns, hfresh, ?_, by rwa [hq]⟩
      · rw [hresult]
        dsimp only
        rw [hcore.fragCount_eq (by omega), hcore.frag_eq, hcore.BLOCK_addr (by omega) hlt,
          if_pos (hcore.info.trans h.heap.core.info.symm), hq, hcore.blksz]
      · rw [← hmem]
        exact hsame
  · -- the first free fragment is taken
    obtain ⟨p', a, blocks', run', hresult, hsound, hfresh, hsame, hptr⟩ := h.pop hlog hzero malloc
    exact .inr ⟨p', a, hresult, hsound.owns, hfresh, hsame, Nat.le_of_eq hptr.symm⟩

/-- `__malloc`. -/
theorem Owns.malloc {size : Nat} (h : Owns p L R) (hfits : p.Fits p.Free size) :
    ∃ p' r, p.malloc size = some (p', r) ∧ Allocated p L R size p' r := by
  obtain ⟨S, E, blocks, run, h⟩ := h
  have hblksz := h.heap.core.blksz
  have hge := L.blksz_ge
  have hpow := L.blksz_le
  unfold Pool.malloc Pool.mallocWith
  by_cases hmax : size = UINT_MAX
  · rw [if_pos hmax]
    exact ⟨p, none, rfl, .none fun hserves => hserves.1 hmax⟩
  rw [if_neg hmax]
  dsimp only
  have hfits := hfits hmax
  split
  · rename_i hle
    rw [if_pos hle, h.heap.core.frag_eq] at hfits
    rw [hblksz] at hle
    obtain ⟨hle2, hlog⟩ := le_fragLog (Nat.le_max_right size 8)
    have hlog' := fragLog_lt (Nat.le_max_right size 8) hle
    -- the inner call asks for a whole block
    have hinner : Pool.mallocWith (fun _ _ => none) p p.blksz = p.mallocBlocks p.blksz := by
      unfold Pool.mallocWith
      rw [if_neg (by rw [hblksz]; unfold UINT_MAX; omega), if_neg (by rw [hblksz]; omega),
        Nat.max_eq_left (by rw [hblksz]; omega)]
    obtain ⟨hresult, hzero, hnot⟩ | ⟨p', a, hresult, howns, hfresh, hsame, hptr⟩ :=
      h.mallocFrag ⟨hlog, hlog'⟩ hinner hfits
    · refine ⟨p, none, hresult, .none fun hserves => ?_⟩
      have hserved := hserves.2
      rw [if_pos (by rw [hblksz]; exact hle), h.heap.core.frag_eq] at hserved
      exact hserved.elim (fun hne => hne hzero) hnot
    · exact ⟨p', some a, hresult, .some howns hfresh
        (Nat.le_trans (Nat.le_max_left size 8) hle2) hsame hptr⟩
  · rename_i hgt
    rw [if_neg hgt] at hfits
    obtain ⟨hsize, hwords, hwhole⟩ := hfits
    rw [hblksz] at hgt hsize
    have hsize' : max size 8 + L.blksz - 1 < 2 ^ 32 := by omega
    obtain ⟨hresult, hnot⟩ | ⟨p', S', E', b, hresult, hb, hobj, hsound, hfresh, hmem, hptr⟩ :=
      h.mallocBlocks (by omega) hsize' rfl hwords hwhole
    · refine ⟨p, none, hresult, .none fun hserves => ?_⟩
      have hserved := hserves.2
      rw [if_neg (by rw [hblksz]; exact hgt)] at hserved
      exact hnot hserved
    · refine ⟨p', _, hresult,
        .some hsound.owns hfresh ?_ (fun r hr x _ _ => by rw [hmem]) hptr⟩
      have := (h.heap.core.le_BLOCKIFY hsize').1
      omega

end

end Hcrtos.Native.Alloc
