import Hcrtos.ForStd.Bits
import Hcrtos.Native.Alloc
import Hcrtos.Spec.AllocCalls

/-!
# Sizes and alignments

The functions of the C library are one `__malloc` on the pool of their id. In every state of a
run whose requests fit they fail and change nothing, or they return an allocation of at least the
size that was asked for, which `calloc` clears. What `memalign` asks for is large enough to be a
fragment of its alignment or a block.

## Key results

- `Pools.mmz_calloc_eq`, `Pools.mmz_memalign_eq`: the functions on the pool of an id
- `sizes_exact`: `__malloc`, `calloc` and `mmz_calloc`
- `memalign_aligned`: `memalign` and `mmz_memalign`
-/

namespace Hcrtos.Native.Alloc

open Word Memory IntrusiveList Lts

/-! ### The pool of an id -/

namespace Pools

/-- The index of the pool that the `mmz_` functions use for an id, if they accept it. -/
def poolId (g : Pools) (id : Int) : Option Nat :=
  if id < 0 ∨ id ≥ g.NR_POOL_MMZ then none
  else if (g.gMM id.toNat).isNone then some g.ID_SYSMEM
  else some id.toNat

/-- `calloc` on the pool `gMM[i]`. -/
def callocAt (g : Pools) (i nelem elsize : Nat) : Option (Pools × Option Nat) :=
  (g.onPool i fun p => p.malloc (mul32 nelem elsize)).map (zeroed i (mul32 nelem elsize))

/-- The size that `memalign` asks for. -/
def alignedSize (alignment size : Nat) : Nat :=
  if alignment ≤ 8 then size else ALIGN (max 8 size) alignment

/-- `memalign` on the pool `gMM[i]`. -/
def memalignAt (g : Pools) (i alignment size : Nat) : Option (Pools × Option Nat) :=
  let result := g.onPool i fun p => p.malloc (alignedSize alignment size)
  if alignment ≤ 8 then result
  else if alignment &&& sub32 alignment 1 ≠ 0 ∨ alignment > 4096 then none
  else result.bind (assertAligned (sub32 alignment 1))

variable {g : Pools} {i n size alignment : Nat} {id : Int} {p : Pool}

theorem calloc_eq : g.calloc n size = g.callocAt g.ID_SYSMEM n size := rfl

theorem memalign_eq : g.memalign alignment size = g.memalignAt g.ID_SYSMEM alignment size := by
  unfold memalign memalignAt malloc alignedSize
  dsimp only
  split <;> rfl

/-- An id is one of a pool, or the pool of the system heap takes its place. -/
theorem poolId_cases (h : g.poolId id = some i) : ¬ (id < 0 ∨ id ≥ g.NR_POOL_MMZ) ∧
    (((g.gMM id.toNat).isNone = true ∧ i = g.ID_SYSMEM) ∨
      ((g.gMM id.toNat).isNone = false ∧ i = id.toNat)) := by
  unfold poolId at h
  split at h
  · contradiction
  · rename_i hid
    refine ⟨hid, ?_⟩
    split at h
    · rename_i hnone
      exact .inl ⟨hnone, (Option.some.inj h).symm⟩
    · rename_i hsome
      exact .inr ⟨Bool.eq_false_of_not_eq_true hsome, (Option.some.inj h).symm⟩

theorem mmz_malloc_eq (h : g.poolId id = some i) :
    g.mmz_malloc id size = g.onPool i fun p => p.malloc size := by
  obtain ⟨hid, ⟨hnone, rfl⟩ | ⟨hsome, rfl⟩⟩ := poolId_cases h
  · unfold mmz_malloc
    rw [if_neg hid, if_pos hnone]
    rfl
  · unfold mmz_malloc
    rw [if_neg hid, if_neg (by rw [hsome]; simp)]

theorem mmz_calloc_eq (h : g.poolId id = some i) : g.mmz_calloc id n size = g.callocAt i n size := by
  have hmalloc : g.mmz_malloc id (mul32 n size) = g.onPool i fun p => p.malloc (mul32 n size) :=
    mmz_malloc_eq h
  obtain ⟨hid, ⟨hnone, rfl⟩ | ⟨hsome, rfl⟩⟩ := poolId_cases h
  · unfold mmz_calloc
    rw [if_neg hid, if_pos hnone]
    rfl
  · unfold mmz_calloc
    rw [if_neg hid, if_neg (by rw [hsome]; simp), hmalloc]
    rfl

theorem mmz_memalign_eq (h : g.poolId id = some i) :
    g.mmz_memalign id alignment size = g.memalignAt i alignment size := by
  have hmalloc : ∀ n, g.mmz_malloc id n = g.onPool i fun p => p.malloc n :=
    fun n => mmz_malloc_eq h
  obtain ⟨hid, hcase⟩ := poolId_cases h
  unfold mmz_memalign
  dsimp only
  rw [if_neg hid]
  by_cases hsmall : alignment ≤ 8
  · unfold memalignAt alignedSize
    dsimp only
    rw [if_pos hsmall, if_pos hsmall, if_pos hsmall, hmalloc]
    obtain ⟨hnone, rfl⟩ | ⟨hsome, rfl⟩ := hcase
    · rw [if_pos hnone]
      rfl
    · rw [if_neg (by rw [hsome]; simp)]
  · by_cases hbad : alignment &&& sub32 alignment 1 ≠ 0 ∨ alignment > 4096
    · unfold memalignAt
      dsimp only
      rw [if_neg hsmall, if_neg hsmall, if_pos hbad, if_pos (by omega)]
    · rw [if_neg hsmall, if_neg (by omega)]
      obtain ⟨hnone, rfl⟩ | ⟨hsome, rfl⟩ := hcase
      · rw [if_pos hnone, memalign_eq]
      · unfold memalignAt alignedSize
        dsimp only
        rw [if_neg (by rw [hsome]; simp), if_neg hsmall, if_neg hsmall, if_neg hbad, hmalloc]

theorem onPool_eq (h : g.gMM i = some p) (f : Pool → Option (Pool × Option Nat)) :
    g.onPool i f = (f p).map fun r => (g.put i r.1, r.2) := by
  unfold onPool
  rw [h, Option.bind_some]

theorem put_self (h : g.gMM i = some p) : g.put i p = g := by
  unfold put
  rw [← h, Function.update_eq_self]

/-- A pool that was put twice. -/
theorem zeroed_put (q : Nat) : zeroed i n (g.put i p, some q) =
    (g.put i { p with mem := clear p.mem q n }, some q) := by
  unfold zeroed put
  simp

end Pools

/-! ### Sizes -/

/-- What a call that returns `q` comes to. -/
structure Granted (s : State) (p' : Pool) (q size : Nat) : Prop where
  safe : Safe ⟨p', (q, size) :: s.live⟩
  formed : ∃ S, WellFormed p' S
  kept : ∀ a ∈ s.live, Kept s.pool p' a.1

/-- What a call for `size` cleared bytes on the pool `gMM[i]` comes to. -/
def Cleared (g : Pools) (i : Nat) (s : State) (size : Nat)
    (result : Option (Pools × Option Nat)) : Prop :=
  result = some (g, none) ∨ ∃ p' q, result = some (g.put i p', some q) ∧
    Granted s p' q size ∧ ∀ x, q ≤ x → x < q + size → p'.mem x = 0

/-- The free list is well formed, `__malloc` of a size that fits fails and changes nothing or
    returns an allocation that is long enough, and so do `calloc` and `mmz_calloc` for a product
    that is a word. -/
structure SizesExact (s : State) : Prop where
  formed : ∃ S, WellFormed s.pool S
  malloc : ∀ size, s.pool.Fits s.pool.Free size → s.pool.malloc size = some (s.pool, none) ∨
    ∃ p' q, s.pool.malloc size = some (p', some q) ∧ Granted s p' q size
  calloc : ∀ (g : Pools) n size, g.gMM g.ID_SYSMEM = some s.pool → n * size < 2 ^ 32 →
    s.pool.Fits s.pool.Free (n * size) → Cleared g g.ID_SYSMEM s (n * size) (g.calloc n size)
  mmz_calloc : ∀ (g : Pools) id i n size, g.poolId id = some i → g.gMM i = some s.pool →
    n * size < 2 ^ 32 → s.pool.Fits s.pool.Free (n * size) →
    Cleared g i s (n * size) (g.mmz_calloc id n size)

section

variable {s : State} {p p' : Pool} {L : Layout} {R : Finset (Nat × Nat)}
  {a c i k n q size start len blklog : Nat} {g : Pools} {m : Mem} {tr : List Action}

/-- A new region of a sound pool. -/
theorem Held.granted (h : Held s L R) (howns : Owns p' L (insert (q, c) R))
    (hfresh : ∀ r ∈ R, r.1 ≠ q) (hle : size ≤ c) (hsame : SameBytes R s.pool.mem p'.mem) :
    Granted s p' q size where
  safe := Held.safe (⟨howns, h.tracks.push hfresh hle⟩ :
    Held ⟨p', (q, size) :: s.live⟩ L (insert (q, c) R))
  formed := by
    obtain ⟨S, E, blocks, run, hsound⟩ := howns
    exact ⟨S, hsound.wellFormed⟩
  kept a ha := by
    have hr := h.tracks.region h.owns ha
    exact h.owns.kept howns hr (Finset.mem_insert_of_mem hr) (hsame _ hr)

theorem clear_apply {m : Mem} {a n x : Nat} (hle : a ≤ x) (hlt : x < a + n) :
    clear m a n x = 0 := by
  unfold clear Memory.memcpy
  rw [List.length_replicate, if_pos ⟨hle, hlt⟩]
  simp [show x - a < n by omega]

/-- `calloc` on a sound pool. -/
theorem Held.cleared (h : Held s L R) (hg : g.gMM i = some s.pool) (hmul : n * size < 2 ^ 32)
    (hfits : s.pool.Fits s.pool.Free (n * size)) :
    Cleared g i s (n * size) (g.callocAt i n size) := by
  unfold Pools.callocAt
  rw [mul32_of_lt hmul, Pools.onPool_eq hg]
  obtain ⟨p', r, hmalloc, halloc⟩ := h.owns.malloc hfits
  rw [hmalloc]
  cases halloc with
  | none hnot =>
    left
    show some (g.put i s.pool, none) = _
    rw [Pools.put_self hg]
  | @some _ q c howns hfresh hle hsame hptr =>
    obtain ⟨howns', hsame'⟩ := howns.memcpy hfresh
      (show (List.replicate (n * size) (0 : UInt8)).length ≤ c by rwa [List.length_replicate])
    refine .inr ⟨_, q, congrArg some (Pools.zeroed_put q), h.granted howns' hfresh hle ?_, ?_⟩
    · intro r hr x hx hlt
      exact (hsame' r hr x hx hlt).trans (hsame r hr x hx hlt)
    · intro x hx hlt
      exact clear_apply hx hlt

theorem Held.sizesExact (h : Held s L R) : SizesExact s where
  formed := by
    obtain ⟨S, E, blocks, run, hsound⟩ := h.owns
    exact ⟨S, hsound.wellFormed⟩
  malloc size hfits := by
    obtain ⟨p', r, hmalloc, halloc⟩ := h.owns.malloc hfits
    cases halloc with
    | none hnot => exact .inl hmalloc
    | @some _ q c howns hfresh hle hsame hptr =>
      exact .inr ⟨p', q, hmalloc, h.granted howns hfresh hle hsame⟩
  calloc g n size hg hmul hfits := h.cleared hg hmul hfits
  mmz_calloc g id i n size hid hg hmul hfits := by
    rw [Pools.mmz_calloc_eq hid]
    exact h.cleared hg hmul hfits

/-- All sizes and products that fit, in every run whose requests fit. -/
theorem sizes_exact (h : Placed start len blklog)
    (hinit : Pool.init m start len blklog = some p)
    (hmeets : Meets step (fun s act => act.FitsBy Pool.BlocksFit s) ⟨p, []⟩ tr) :
    Always step SizesExact ⟨p, []⟩ tr :=
  h.always (fun _ _ hheld => hheld.sizesExact) hinit hmeets

/-- A block of fragments in use, and one that is free again. -/
theorem sizes_exact_small : ∃ p, smallPool = some p ∧ Always step SizesExact ⟨p, []⟩
    [.malloc 16, .malloc 32, .free 0x80000280] := by
  obtain ⟨p, hinit, hmeets⟩ := smallPool_meets
    (show smallPool.all (fun p => Meets step (fun s act => act.Small s) ⟨p, []⟩
      [.malloc 16, .malloc 32, .free 0x80000280]) = true by decide +kernel)
  exact ⟨p, hinit, sizes_exact smallPool_aligned.placed.1 hinit hmeets⟩

/-- A size that wraps to no blocks, for which the result is below the pool, and a product that
    wraps to 16 bytes. -/
theorem not_sizes_of_wrap : Placed 0x80000000 1024 5 ∧ ∃ p, smallPool = some p ∧
    (¬ ∃ p' q, p.malloc 4294967294 = some (p', some q) ∧ Granted ⟨p, []⟩ p' q 4294967294) ∧
    (∃ p' q, p.malloc 4294967294 = some (p', some q)) ∧
    ¬ Cleared ⟨0, fun _ => some p⟩ 0 ⟨p, []⟩ (0x80000008 * 2)
      (Pools.calloc ⟨0, fun _ => some p⟩ 0x80000008 2) := by
  obtain ⟨p, hinit, hmalloc, hcalloc⟩ := smallPool_of_all
    (show smallPool.all (fun p =>
      (p.malloc 4294967294).any (fun r => r.2.any fun q => q < r.1.base) ∧
        (Pools.calloc ⟨0, fun _ => some p⟩ 0x80000008 2).any fun r => r.2.any fun q =>
          (r.1.gMM 0).any fun p' => p'.extent q < 0x80000008 * 2) = true by decide +kernel)
  refine ⟨smallPool_aligned.placed.1, p, hinit, ?_⟩
  obtain ⟨⟨p₁, r₁⟩, hmalloc, hbelow⟩ := (Option.any_eq_true _ _).mp hmalloc
  obtain ⟨q₁, rfl, hbelow⟩ := (Option.any_eq_true _ _).mp hbelow
  refine ⟨?_, ⟨p₁, q₁, hmalloc⟩, ?_⟩
  · rintro ⟨p', q, hresult, hgranted⟩
    rw [hmalloc] at hresult
    cases hresult
    have hinside := hgranted.safe.inside _ (List.mem_cons_self ..)
    have hlt := of_decide_eq_true hbelow
    dsimp only at hinside hlt
    omega
  · obtain ⟨⟨g', r₂⟩, hcalloc, hshort⟩ := (Option.any_eq_true _ _).mp hcalloc
    obtain ⟨q₂, rfl, hshort⟩ := (Option.any_eq_true _ _).mp hshort
    rw [hcalloc]
    rintro (hnone | ⟨p', q, hresult, hgranted, -⟩)
    · cases hnone
    · cases hresult
      have hlong := hgranted.safe.long _ (List.mem_cons_self ..)
      have hextent := of_decide_eq_true hshort
      dsimp only at hlong hextent
      omega

/-! ### Alignments -/

/-- The call returns, and what it returns is NULL or a multiple of the alignment. -/
def AlignedBy (alignment : Nat) (result : Option (Pools × Option Nat)) : Prop :=
  ∃ g r, result = some (g, r) ∧ ∀ q ∈ r, alignment ∣ q

/-- `memalign` and `mmz_memalign` for an alignment up to 4096 that is no more than the size of a
    block, where the size that they ask for fits. -/
structure MemalignAligned (s : State) : Prop where
  memalign : ∀ (g : Pools) k size, g.gMM g.ID_SYSMEM = some s.pool → k ≤ 12 →
    2 ^ k ≤ s.pool.blksz → max 8 size + 2 ^ k ≤ 2 ^ 32 →
    s.pool.Fits s.pool.Free (Pools.alignedSize (2 ^ k) size) →
    AlignedBy (2 ^ k) (g.memalign (2 ^ k) size)
  mmz_memalign : ∀ (g : Pools) id i k size, g.poolId id = some i → g.gMM i = some s.pool → k ≤ 12 →
    2 ^ k ≤ s.pool.blksz → max 8 size + 2 ^ k ≤ 2 ^ 32 →
    s.pool.Fits s.pool.Free (Pools.alignedSize (2 ^ k) size) →
    AlignedBy (2 ^ k) (g.mmz_memalign id (2 ^ k) size)
  none : ∀ (g : Pools) id alignment size, g.poolId id = none →
    g.mmz_memalign id alignment size = some (g, none)

theorem ALIGN_eq {x : Nat} (hk : k ≤ 12) (hx : x + 2 ^ k ≤ 2 ^ 32) :
    ALIGN x (2 ^ k) = (x + 2 ^ k - 1) / 2 ^ k * 2 ^ k := by
  have hpos := Nat.two_pow_pos k
  have hle : 2 ^ k ≤ 2 ^ 12 := Nat.pow_le_pow_right (by decide) hk
  unfold ALIGN UINT_MAX
  rw [sub32_of_le hpos (by omega), add32_of_lt (by omega),
    Bits.and_not_mask_eq (by omega) (by omega), ← Nat.add_sub_assoc hpos]

/-- What is asked for is no less than the alignment. -/
theorem le_alignedSize {x : Nat} (hk : k ≤ 12) (hx : max 8 x + 2 ^ k ≤ 2 ^ 32) :
    2 ^ k ≤ max (Pools.alignedSize (2 ^ k) x) 8 := by
  unfold Pools.alignedSize
  split
  · omega
  · rw [ALIGN_eq hk hx]
    have hpos := Nat.two_pow_pos k
    have hdiv : 1 ≤ (max 8 x + 2 ^ k - 1) / 2 ^ k := (Nat.le_div_iff_mul_le hpos).mpr (by omega)
    have := Nat.mul_le_mul_right (2 ^ k) hdiv
    omega

/-- A region has at least eight bytes, and is aligned to its length or to a block. -/
theorem Owns.dvd (h : Owns p L R) (hr : (a, c) ∈ R) (hc : 2 ^ k ≤ max c 8)
    (hblk : 2 ^ k ≤ L.blksz) : 2 ^ k ∣ a := by
  obtain ⟨S, E, blocks, run, h⟩ := h
  cases h.holds hr with
  | object b n hb hobj =>
    have hdvd : 2 ^ k ∣ L.blksz :=
      Nat.pow_dvd_pow 2 ((Nat.pow_le_pow_iff_right (by decide)).mp hblk)
    exact Nat.dvd_trans hdvd L.addr_dvd
  | frag b log j hfrag hj hnot =>
    obtain ⟨hlog, hlog'⟩ := h.frags.type b log hfrag
    have hge : 2 ^ 3 ≤ 2 ^ log := Nat.pow_le_pow_right (by decide) hlog
    have hle : 2 ^ k ≤ 2 ^ log := by omega
    have hdvd : 2 ^ k ∣ 2 ^ log :=
      Nat.pow_dvd_pow 2 ((Nat.pow_le_pow_iff_right (by decide)).mp hle)
    exact Nat.dvd_trans hdvd (L.frag_dvd (by omega))

/-- `memalign` on a sound pool. -/
theorem Held.alignedBy (h : Held s L R) (hg : g.gMM i = some s.pool) (hk : k ≤ 12)
    (hblk : 2 ^ k ≤ s.pool.blksz) (hsize : max 8 size + 2 ^ k ≤ 2 ^ 32)
    (hfits : s.pool.Fits s.pool.Free (Pools.alignedSize (2 ^ k) size)) :
    AlignedBy (2 ^ k) (g.memalignAt i (2 ^ k) size) := by
  have hpos := Nat.two_pow_pos k
  have hle : 2 ^ k ≤ 2 ^ 12 := Nat.pow_le_pow_right (by decide) hk
  obtain ⟨p', r, hmalloc, halloc⟩ := h.owns.malloc hfits
  have hdvd : ∀ q ∈ r, 2 ^ k ∣ q := by
    cases halloc with
    | none hnot => simp
    | @some _ q c howns hfresh hlen hsame hptr =>
      have hblksz : s.pool.blksz = L.blksz := by
        obtain ⟨S, E, blocks, run, hsound⟩ := h.owns
        exact hsound.heap.core.blksz
      have hmax := le_alignedSize hk hsize
      rintro x ⟨rfl⟩
      exact howns.dvd (Finset.mem_insert_self _ _) (by omega) (by rwa [← hblksz])
  have hresult : (g.onPool i fun p => p.malloc (Pools.alignedSize (2 ^ k) size)) =
      some (g.put i p', r) := by
    rw [Pools.onPool_eq hg, hmalloc]
    rfl
  have hmask : 2 ^ k &&& sub32 (2 ^ k) 1 = 0 := by
    rw [sub32_of_le hpos (by omega), Nat.and_two_pow_sub_one_eq_mod, Nat.mod_self]
  refine ⟨g.put i p', r, ?_, hdvd⟩
  unfold Pools.memalignAt
  dsimp only
  rw [hresult]
  split
  · rfl
  · rw [if_neg (by omega), Option.bind_some]
    unfold assertAligned
    rw [if_pos]
    rw [sub32_of_le hpos (by omega), Nat.and_two_pow_sub_one_eq_mod]
    cases r with
    | none => exact Nat.zero_mod _
    | some q => exact Nat.mod_eq_zero_of_dvd (hdvd q rfl)

theorem Held.memalignAligned (h : Held s L R) : MemalignAligned s where
  memalign g k size hg hk hblk hsize hfits := by
    rw [Pools.memalign_eq]
    exact h.alignedBy hg hk hblk hsize hfits
  mmz_memalign g id i k size hid hg hk hblk hsize hfits := by
    rw [Pools.mmz_memalign_eq hid]
    exact h.alignedBy hg hk hblk hsize hfits
  none g id alignment size hid := by
    unfold Pools.poolId at hid
    split at hid
    · rename_i hbad
      exact if_pos hbad
    · split at hid <;> contradiction

/-- All alignments up to the size of a block, in every run whose requests fit. -/
theorem memalign_aligned (h : Placed start len blklog)
    (hinit : Pool.init m start len blklog = some p)
    (hmeets : Meets step (fun s act => act.FitsBy Pool.BlocksFit s) ⟨p, []⟩ tr) :
    Always step MemalignAligned ⟨p, []⟩ tr :=
  h.always (fun _ _ hheld => hheld.memalignAligned) hinit hmeets

/-- A block of fragments in use, and one that is free again. -/
theorem memalign_aligned_small : ∃ p, smallPool = some p ∧ Always step MemalignAligned ⟨p, []⟩
    [.malloc 16, .malloc 32, .free 0x80000280] := by
  obtain ⟨p, hinit, hmeets⟩ := smallPool_meets
    (show smallPool.all (fun p => Meets step (fun s act => act.Small s) ⟨p, []⟩
      [.malloc 16, .malloc 32, .free 0x80000280]) = true by decide +kernel)
  exact ⟨p, hinit, memalign_aligned smallPool_aligned.placed.1 hinit hmeets⟩

/-- In a pool of blocks of 32 bytes, the second block is no multiple of 64, and the assertion of
    `memalign` fails. -/
theorem not_aligned_of_block : Placed 0x80000000 1024 5 ∧ ∃ p s, smallPool = some p ∧
    run step ⟨p, []⟩ [.malloc 32] = some s ∧
    ¬ AlignedBy 64 (Pools.memalign ⟨0, fun _ => some s.pool⟩ 64 8) := by
  obtain ⟨p, s, hinit, hrun, hnone⟩ := smallPool_run
    (show smallPool.any (fun p => (run step ⟨p, []⟩ [.malloc 32]).any fun s =>
      (Pools.memalign ⟨0, fun _ => some s.pool⟩ 64 8).isNone = true) = true by decide +kernel)
  refine ⟨smallPool_aligned.placed.1, p, s, hinit, hrun, ?_⟩
  rintro ⟨g, r, hresult, -⟩
  rw [hresult] at hnone
  contradiction

end

end Hcrtos.Native.Alloc
