import Hcrtos.Spec.AllocSafety

/-!
# Growing the core

`__align` asks `__sbrk` for the blocks and then for what is missing to the next block boundary,
and keeps the region where the second request fails. The region is then good exactly if the core
ended at a boundary or the grown core ends below the top, and the first sum was a word.

## Key results

- `Core.extension_iff`: which regions of `__align` and `morecore` are good
- `core_stays_inside`: all runs
-/

namespace Hcrtos.Native.Alloc

open Word Memory IntrusiveList Lts

namespace Pool

/-- A region of `n` blocks for which the pool became `p'`: it is aligned, in the pool, and below
    the new end of the core. -/
structure Extends (p p' : Pool) (result n : Nat) : Prop where
  aligned : p.blksz ∣ result
  inside : p.base ≤ result ∧ result + n * p.blksz ≤ p.top
  below : result + n * p.blksz ≤ p'.ptr

/-- What `__align` and `morecore` return for `n` blocks is a good region. -/
structure GoodRegions (p : Pool) (n : Nat) : Prop where
  align : ∀ p' result, p.align (n * p.blksz) = (p', some result) → p.Extends p' result n
  morecore : ∀ p' result, p.morecore (n * p.blksz) = some (p', some result) →
    p.Extends p' result n

/-- The end that `__sbrk` is asked for is a word, and where there is room for it, `__align` has no
    second request, or one that succeeds. -/
def SecondFits (p : Pool) (n : Nat) : Prop :=
  p.ptr + n * p.blksz < 2 ^ 32 ∧ (p.ptr + n * p.blksz < p.top →
    p.blksz ∣ p.ptr ∨ p.endOfCore + n * p.blksz < p.top)

section

variable {p : Pool} {L : Layout} {E n size : Nat}

/-- The end of the core is aligned exactly where it is that of a block. -/
theorem Core.dvd_ptr_iff (h : p.Core L E) : L.blksz ∣ p.ptr ↔ p.ptr = L.addr E := by
  have hmod := h.ptr_mod
  have hle := h.ptr_le
  have hlt := h.lt_ptr
  rw [Nat.dvd_iff_mod_eq_zero, hmod]
  split
  · rename_i heq
    exact ⟨fun _ => heq, fun _ => rfl⟩
  · rename_i hne
    omega

/-- `__align` where `__sbrk` has room. The region starts at the end of the core, and the second
    request is for what is missing to it. -/
theorem Core.align_of_sbrk (h : p.Core L E) (hmax : size ≠ UINT_MAX)
    (hsbrk : add32 p.ptr size < p.top) : p.align size =
      (if p.ptr = L.addr E then { p with ptr := add32 p.ptr size }
        else (({ p with ptr := add32 p.ptr size } : Pool).sbrk (L.addr E - p.ptr)).1,
        some (L.addr E % 2 ^ 32)) := by
  have hle := h.ptr_le
  have hlt := h.lt_ptr
  have htop := L.top_lt
  have hptr := h.ptr_lt
  have hfirst : p.sbrk size = ({ p with ptr := add32 p.ptr size }, some p.ptr) := if_pos hsbrk
  unfold align
  rw [if_neg hmax, hfirst]
  dsimp only
  rw [h.blksz, h.ptr_mod]
  by_cases heq : p.ptr = L.addr E
  · rw [if_pos heq, if_neg (by decide), if_pos heq, ← heq, Nat.mod_eq_of_lt (by omega)]
  · have hadj : L.blksz - (L.blksz - (L.addr E - p.ptr)) = L.addr E - p.ptr := by omega
    rw [if_neg heq, if_pos (by omega), hadj, if_neg heq]
    unfold add32
    rw [Nat.add_sub_cancel' hle]

/-- `__align` where the condition holds and there is room. -/
theorem Core.align_of_second (h : p.Core L E) (hsecond : p.SecondFits n)
    (hlt : p.ptr + n * p.blksz < p.top) :
    p.align (n * L.blksz) = ({ p with ptr := L.addr E + n * L.blksz }, some (L.addr E)) ∧
      L.addr E + n * L.blksz < L.top := by
  have hfits := hsecond.2 hlt
  rw [h.blksz, h.top] at hfits
  rw [h.dvd_ptr_iff, h.endOfCore_eq] at hfits
  rw [h.blksz, h.top] at hlt
  have htop := L.top_lt
  have hge := L.blksz_ge
  have hle := h.ptr_le
  have hend : L.addr E + n * L.blksz < L.top := by
    rcases hfits with heq | hend
    · rwa [← heq]
    · exact hend
  refine ⟨?_, hend⟩
  rw [h.align_of_sbrk (by unfold UINT_MAX; omega) (by rw [add32_of_lt (by omega), h.top]; exact hlt),
    add32_of_lt (by omega), Nat.mod_eq_of_lt (by omega)]
  split
  · rename_i heq
    rw [heq]
  · have hroom : ({ p with ptr := p.ptr + n * L.blksz } : Pool).ptr + (L.addr E - p.ptr) <
        ({ p with ptr := p.ptr + n * L.blksz } : Pool).top := by
      rw [h.top]
      dsimp only
      omega
    rw [sbrk_of_lt hroom (by rw [h.top]; exact htop)]
    dsimp only
    rw [show p.ptr + n * L.blksz + (L.addr E - p.ptr) = L.addr E + n * L.blksz by omega]

/-- Where the condition holds, the regions are good. -/
theorem Core.goodRegions (h : p.Core L E) (hsecond : p.SecondFits n) : p.GoodRegions n := by
  by_cases hlt : p.ptr + n * p.blksz < p.top
  · obtain ⟨halign, hend⟩ := h.align_of_second hsecond hlt
    have hgrown : Core { p with ptr := L.addr E + n * L.blksz, info_limit := E + n } L (E + n) :=
      h.grow hend (Nat.le_refl _) (by have := L.blksz_ge; omega) (by omega) (E + n)
    have hmore := h.morecore_of_align halign hgrown (by omega)
    have hgood : ∀ limit, p.Extends { p with ptr := L.addr E + n * L.blksz, info_limit := limit }
        (L.addr E) n := by
      intro limit
      refine ⟨?_, ⟨?_, ?_⟩, ?_⟩
      · rw [h.blksz]
        exact L.addr_dvd
      · rw [h.base]
        exact L.base_le_addr
      · rw [h.blksz, h.top]
        omega
      · rw [h.blksz]
    constructor
    · intro p' result heq
      rw [h.blksz, halign] at heq
      cases heq
      exact hgood p.info_limit
    · intro p' result heq
      rw [h.blksz, hmore] at heq
      cases heq
      exact hgood (E + n)
  · have hnone : p.sbrk (n * p.blksz) = (p, none) := sbrk_of_le (by omega) hsecond.1
    constructor
    · intro p' result heq
      unfold align at heq
      rw [hnone] at heq
      split at heq <;> cases heq
    · intro p' result heq
      rw [h.blksz, h.morecore_none (by rw [← h.top, ← h.blksz]; omega)
        (by rw [← h.blksz]; exact hsecond.1)] at heq
      cases heq

/-- The regions for a number of blocks are good exactly where the condition holds. -/
theorem Core.extension_iff (h : p.Core L E) (hword : n * p.blksz < 2 ^ 32) :
    p.GoodRegions n ↔ p.SecondFits n := by
  refine ⟨fun hgood => ?_, h.goodRegions⟩
  have hptr := h.ptr_lt
  have htop := L.top_lt
  have hle := h.ptr_le
  have hge := L.blksz_ge
  have hbase := L.base_pos
  have hend := h.end_le_word
  rw [h.blksz] at hword
  by_cases hsbrk : add32 p.ptr (n * L.blksz) < p.top
  · have hmax : n * L.blksz ≠ UINT_MAX := by
      obtain ⟨j, hj⟩ : 2 ∣ L.blksz := Nat.dvd_trans (by decide)
        (Nat.pow_dvd_pow 2 L.log_ge)
      rw [hj, Nat.mul_left_comm]
      unfold UINT_MAX
      omega
    have halign := h.align_of_sbrk hmax hsbrk
    rw [← h.blksz] at halign
    obtain ⟨-, ⟨hlow, hhigh⟩, hbelow⟩ := hgood.align _ _ halign
    rw [h.base] at hlow
    rw [h.top] at hhigh
    have hmul : n * p.blksz = n * L.blksz := by rw [h.blksz]
    -- the end of the core is no word only where the region would start at NULL
    have hlt : L.addr E < 2 ^ 32 := by
      by_contra hge'
      rw [show L.addr E = 2 ^ 32 by omega, Nat.mod_self] at hlow
      omega
    rw [Nat.mod_eq_of_lt hlt] at hhigh hbelow
    unfold SecondFits
    rw [h.blksz, h.top, h.dvd_ptr_iff, h.endOfCore_eq]
    refine ⟨by omega, fun hroom => ?_⟩
    by_contra hnot
    rw [not_or] at hnot
    -- the second request fails, and the region ends behind the core
    rw [if_neg hnot.1, add32_of_lt (by omega)] at hbelow
    have hfail : ({ p with ptr := p.ptr + n * p.blksz } : Pool).sbrk (L.addr E - p.ptr) =
        ({ p with ptr := p.ptr + n * p.blksz }, none) := by
      apply sbrk_of_le
      · rw [h.top]
        dsimp only
        omega
      · dsimp only
        omega
    rw [hfail] at hbelow
    dsimp only at hbelow
    omega
  · unfold SecondFits
    rw [h.blksz]
    unfold add32 at hsbrk
    rw [h.top] at hsbrk ⊢
    have hmod : p.ptr + n * L.blksz < 2 ^ 32 := by
      by_contra hwrap
      omega
    rw [Nat.mod_eq_of_lt hmod] at hsbrk
    exact ⟨hmod, fun hroom => absurd hroom hsbrk⟩

end

end Pool

/-! ### Runs -/

/-- The regions by which the core may grow are good exactly where the condition holds, and the
    allocator keeps to the entries of the info table. -/
structure StaysInside (s : State) : Prop where
  extension : ∀ n, n * s.pool.blksz < 2 ^ 32 → (s.pool.GoodRegions n ↔ s.pool.SecondFits n)
  limit : s.pool.info_limit ≤ s.pool.info_size
  live : ∀ a ∈ s.live, 0 < s.pool.BLOCK a.1 ∧ s.pool.BLOCK a.1 < s.pool.info_size
  unwritten : ∀ i, s.pool.info_size ≤ i → s.pool.table i = ⟨0, 0, 0, 0⟩

/-- The info table is a region of `__align`, too. -/
structure TableInside (p : Pool) : Prop where
  aligned : p.blksz ∣ p.info
  inside : p.self ≤ p.info ∧ p.info_end ≤ p.top
  below : p.info_end ≤ p.ptr

section

variable {s : State} {p : Pool} {L : Layout} {R : Finset (Nat × Nat)} {a c start len blklog : Nat}
  {m : Mem} {tr : List Action}

/-- The block of an owned region. -/
theorem Owns.block_bounds (h : Owns p L R) (hr : (a, c) ∈ R) :
    0 < p.BLOCK a ∧ p.BLOCK a < L.infoSize := by
  obtain ⟨S, E, blocks, run, h⟩ := h
  have hcore := h.heap.core
  have hsize := hcore.le_infoSize
  cases h.holds hr with
  | object b n hb hobj =>
    have hpos := hobj.pos
    have hle := h.heap.run_le hobj.toIsRun
    rw [hcore.BLOCK_addr (by omega) (hcore.addr_lt (by omega) (by omega))]
    omega
  | frag b log k hfrag hk hnot =>
    obtain ⟨hb, hbE⟩ := hfrag.pos h.heap
    have hlog := h.frags.type b log hfrag
    rw [hcore.BLOCK_frag (by omega) hbE (by omega) hk]
    omega

/-- The core of a sound pool. -/
theorem Held.staysInside (h : Held s L R) : StaysInside s := by
  obtain ⟨S, E, blocks, run, hsound⟩ := h.owns
  have hcore := hsound.heap.core
  constructor
  · exact fun n hword => hcore.extension_iff hword
  · have hle := Heap.limit_le hsound.limit
    have := hcore.le_infoSize
    rw [hcore.info_size]
    omega
  · intro x hx
    rw [hcore.info_size]
    exact h.owns.block_bounds (h.tracks.region h.owns hx)
  · intro i hi
    rw [hcore.info_size] at hi
    exact hsound.beyond i hi

/-- The table of a new pool, where it ends below the top. -/
theorem Placed.tableInside (h : Placed start len blklog)
    (hlt : tableAt start blklog + 16 * entries len blklog < topAt start len blklog)
    (hinit : Pool.init m start len blklog = some p) : TableInside p := by
  have howns := (h.held hinit).owns
  obtain ⟨S, E, blocks, run, hsound⟩ := howns
  have hcore := hsound.heap.core
  have hhead := h.layout.head_le
  constructor
  · rw [hcore.blksz, hcore.info]
    exact h.layout.base_dvd
  · rw [hcore.self, hcore.info, hcore.info_end, hcore.top]
    exact ⟨by omega, h.layout.info_top⟩
  · obtain ⟨ptr, halign, -, hptr⟩ := h.align_eq m
    rw [h.init_eq, halign] at hinit
    cases hinit
    rw [hcore.info_end]
    exact Nat.le_of_eq (hptr.resolve_right fun hend => absurd hend.1 (Nat.ne_of_lt hlt)).symm

/-- Every run from the new pool whose requests fit. -/
theorem core_stays_inside (h : Placed start len blklog)
    (hlt : tableAt start blklog + 16 * entries len blklog < topAt start len blklog)
    (hinit : Pool.init m start len blklog = some p)
    (hmeets : Meets step (fun s act => act.FitsBy Pool.BlocksFit s) ⟨p, []⟩ tr) :
    TableInside p ∧ Always step StaysInside ⟨p, []⟩ tr :=
  ⟨h.tableInside hlt hinit, h.always (fun _ _ hheld => hheld.staysInside) hinit hmeets⟩

end

/-- Blocks from the end of the core, and from the middle of it. -/
theorem core_stays_inside_small : ∃ p, smallPool = some p ∧ TableInside p ∧
    Always step StaysInside ⟨p, []⟩ [.malloc 64, .malloc 32, .free 0x80000280, .malloc 8] := by
  obtain ⟨p, hinit, hmeets⟩ := smallPool_meets
    (show smallPool.all (fun p => Meets step (fun s act => act.Small s) ⟨p, []⟩
      [.malloc 64, .malloc 32, .free 0x80000280, .malloc 8]) = true by decide +kernel)
  exact ⟨p, hinit, core_stays_inside smallPool_aligned.placed.1 (by decide) hinit hmeets⟩

/-- In a range that starts and ends within a block, the last region ends behind the top. -/
theorem not_inside_of_second : Placed 0x80000018 1056 5 ∧
    ∃ p, Pool.init (fun _ => 0) 0x80000018 1056 5 = some p ∧ ¬ p.GoodRegions 13 := by
  have hplaced : Placed 0x80000018 1056 5 := ⟨by decide, by decide, by decide, by decide,
    by decide, .inl (by decide)⟩
  obtain ⟨p, hinit, -⟩ := hplaced.init fun _ => 0
  have hregion : (Pool.init (fun _ => 0) 0x80000018 1056 5).any (fun p =>
      (p.align (13 * p.blksz)).2.any fun result => p.top < result + 13 * p.blksz) = true := by
    decide +kernel
  rw [hinit, Option.any_some] at hregion
  obtain ⟨result, hresult, hout⟩ := (Option.any_eq_true _ _).mp hregion
  refine ⟨hplaced, p, hinit, fun hgood => ?_⟩
  have hinside := (hgood.align _ result (Prod.ext rfl hresult)).inside
  have hout := of_decide_eq_true hout
  omega

end Hcrtos.Native.Alloc
