import Hcrtos.ForStd.Lts
import Hcrtos.Spec.AllocInit
import Hcrtos.Spec.AllocRealloc

/-!
# Runs of programs on a pool

The live allocations of a program are the owned regions of a sound pool, in every run whose
requests fit.

## Key results

- `Held.step`: one action
- `Placed.always`: whole runs from `pool_init`
-/

namespace Hcrtos.Native.Alloc

open Word Memory IntrusiveList Lts

/-- The live allocations are the regions `R`, each of at least the size that was asked for. -/
structure Tracks (live : List (Nat × Nat)) (R : Finset (Nat × Nat)) : Prop where
  nodup : (live.map Prod.fst).Nodup
  mem : ∀ a, a ∈ live.map Prod.fst ↔ ∃ c, (a, c) ∈ R
  le : ∀ a ∈ live, ∀ c, (a.1, c) ∈ R → a.2 ≤ c

/-- The live allocations are the owned regions of a sound pool. -/
structure Held (s : State) (L : Layout) (R : Finset (Nat × Nat)) : Prop where
  owns : Owns s.pool L R
  tracks : Tracks s.live R

/-- The blocks that an action asks for are a number that `fit` allows. -/
def Action.FitsBy (fit : Pool → (Nat → Prop) → Nat → Prop) (s : State) : Action → Prop
  | .malloc size => s.pool.FitsBy (fit s.pool s.pool.Free) size
  | .free _ => True
  | .realloc ptr size => s.pool.ReallocFitsBy (fit s.pool) ptr size
  | .write _ _ _ => True

/-- The end of what the action may ask of `__sbrk` is a word, and no large object is resized to
    zero bytes. -/
def Action.Small (s : State) : Action → Prop
  | .malloc size => s.pool.ptr + max size 8 + s.pool.blksz < 2 ^ 32
  | .free _ => True
  | .realloc _ size => 0 < size ∧ s.pool.ptr + max size 8 + s.pool.blksz < 2 ^ 32
  | .write _ _ _ => True

instance (s : State) : (act : Action) → Decidable (act.Small s)
  | .malloc size => inferInstanceAs (Decidable (s.pool.ptr + max size 8 + s.pool.blksz < 2 ^ 32))
  | .free _ => inferInstanceAs (Decidable True)
  | .realloc _ size => inferInstanceAs (Decidable (0 < size ∧ _))
  | .write _ _ _ => inferInstanceAs (Decidable True)

section

variable {s s' : State} {L : Layout} {R : Finset (Nat × Nat)} {a c size : Nat} {p : Pool}

theorem mem_drop {x : Nat × Nat} : x ∈ s.drop a ↔ x ∈ s.live ∧ x.1 ≠ a := by
  unfold State.drop
  rw [List.mem_filter, decide_eq_true_eq]

theorem mem_map_drop {x : Nat} :
    x ∈ (s.drop a).map Prod.fst ↔ x ∈ s.live.map Prod.fst ∧ x ≠ a := by
  simp only [List.mem_map, mem_drop]
  constructor
  · rintro ⟨y, ⟨hy, hne⟩, rfl⟩
    exact ⟨⟨y, hy, rfl⟩, hne⟩
  · rintro ⟨⟨y, hy, rfl⟩, hne⟩
    exact ⟨y, ⟨hy, hne⟩, rfl⟩

/-- An address has one owned region. -/
theorem Owns.size_eq {c' : Nat} (h : Owns p L R) (hr : (a, c) ∈ R) (hr' : (a, c') ∈ R) :
    c = c' := by
  obtain ⟨S, E, blocks, run, h⟩ := h
  exact h.size_eq hr hr'

/-- The regions other than the one at an address. -/
theorem Owns.mem_erase {x y : Nat} (h : Owns p L R) (hr : (a, c) ∈ R) :
    (x, y) ∈ R.erase (a, c) ↔ (x, y) ∈ R ∧ x ≠ a := by
  rw [Finset.mem_erase]
  constructor
  · intro ⟨hne, hxy⟩
    refine ⟨hxy, ?_⟩
    rintro rfl
    exact hne (by rw [h.size_eq hxy hr])
  · intro ⟨hxy, hne⟩
    exact ⟨fun heq => hne (congrArg Prod.fst heq), hxy⟩

/-- Owned regions start at words. -/
theorem Owns.lt_word (h : Owns p L R) (hr : (a, c) ∈ R) : a < 2 ^ 32 := by
  obtain ⟨S, E, blocks, run, h⟩ := h
  have hbounds := h.bounds hr
  have := h.heap.core.end_le_word
  omega

variable {live : List (Nat × Nat)}

/-- A new allocation. -/
theorem Tracks.push (h : Tracks live R) (hfresh : ∀ r ∈ R, r.1 ≠ a) (hle : size ≤ c) :
    Tracks ((a, size) :: live) (insert (a, c) R) where
  nodup := by
    rw [List.map_cons, List.nodup_cons, h.mem]
    exact ⟨fun ⟨c', hr⟩ => hfresh _ hr rfl, h.nodup⟩
  mem x := by
    rw [List.map_cons, List.mem_cons, h.mem]
    constructor
    · rintro (rfl | ⟨c', hr⟩)
      · exact ⟨c, Finset.mem_insert_self _ _⟩
      · exact ⟨c', Finset.mem_insert_of_mem hr⟩
    · rintro ⟨c', hr⟩
      obtain heq | hr := Finset.mem_insert.mp hr
      · exact .inl (congrArg Prod.fst heq)
      · exact .inr ⟨c', hr⟩
  le x hx c' hr := by
    obtain heq | hr := Finset.mem_insert.mp hr
    · obtain rfl | hx := List.mem_cons.mp hx
      · have := congrArg Prod.snd heq
        dsimp only at this
        omega
      · obtain ⟨c₀, hr₀⟩ := (h.mem x.1).mp (List.mem_map_of_mem hx)
        exact absurd (congrArg Prod.fst heq) (hfresh (x.1, c₀) hr₀)
    · obtain rfl | hx := List.mem_cons.mp hx
      · exact absurd rfl (hfresh _ hr)
      · exact h.le x hx c' hr

/-- An allocation less. -/
theorem Held.drop (h : Held s L R) (hr : (a, c) ∈ R) : Tracks (s.drop a) (R.erase (a, c)) where
  nodup := List.Nodup.sublist (List.filter_sublist.map _) h.tracks.nodup
  mem x := by
    rw [mem_map_drop, h.tracks.mem]
    constructor
    · intro ⟨⟨c', hx⟩, hne⟩
      exact ⟨c', (h.owns.mem_erase hr).mpr ⟨hx, hne⟩⟩
    · intro ⟨c', hx⟩
      obtain ⟨hx, hne⟩ := (h.owns.mem_erase hr).mp hx
      exact ⟨⟨c', hx⟩, hne⟩
  le x hx c' hr' := h.tracks.le x (mem_drop.mp hx).1 c' (Finset.mem_of_mem_erase hr')

variable (h : Held s L R)
include h

/-- One action of the program. -/
theorem Held.step {act : Action} (hfits : act.FitsBy Pool.BlocksFit s) (hstep : step s act = some s') :
    ∃ R', Held s' L R' := by
  cases act with
  | malloc size =>
    simp only [Alloc.step] at hstep
    split at hstep
    · obtain ⟨p, r, hmalloc, halloc⟩ := h.owns.malloc hfits
      rw [hmalloc, Option.map_some] at hstep
      cases halloc with
      | none hnot =>
        cases hstep
        exact ⟨R, h⟩
      | some owns fresh le same =>
        cases hstep
        exact ⟨_, ⟨owns, h.tracks.push fresh le⟩⟩
    · contradiction
  | free ptr =>
    simp only [Alloc.step] at hstep
    split at hstep
    · rename_i hlive
      obtain ⟨c, hr⟩ := (h.tracks.mem ptr).mp hlive
      have hfreed := h.owns.free (h.owns.lt_word hr)
      generalize s.pool.free ptr = result at hfreed hstep
      cases hfreed with
      | rejected check reject => contradiction
      | released hd howns _ _ =>
        cases hstep
        exact ⟨_, ⟨howns, h.drop hd⟩⟩
    · contradiction
  | realloc ptr size =>
    simp only [Alloc.step] at hstep
    split at hstep
    · rename_i hlive
      obtain ⟨c, hr⟩ := (h.tracks.mem ptr).mp hlive.1
      rcases h.owns.realloc hr hfits with ⟨hnone, -⟩ | ⟨p, r, hrealloc, hresult⟩
      · rw [hnone] at hstep
        contradiction
      · rw [hrealloc, Option.map_some] at hstep
        cases hresult with
        | none owns same =>
          cases hstep
          exact ⟨R, ⟨owns, h.tracks⟩⟩
        | some owns fresh le same copied =>
          cases hstep
          exact ⟨_, ⟨owns, (h.drop hr).push fresh le⟩⟩
    · contradiction
  | write ptr off bytes =>
    simp only [Alloc.step] at hstep
    split at hstep
    · rename_i hlive
      obtain ⟨⟨x, n⟩, hx, rfl, hle⟩ := hlive
      obtain ⟨c, hr⟩ := (h.tracks.mem x).mp (List.mem_map_of_mem hx)
      have hsize := h.tracks.le _ hx c hr
      cases hstep
      obtain ⟨S, E, blocks, run, hsound⟩ := h.owns
      exact ⟨R, ⟨(hsound.write hr fun y hy =>
        memcpy_apply_of_outside (by dsimp only at hsize; omega)).owns, h.tracks⟩⟩
    · contradiction

end

/-! ### Small requests -/

section

variable {s : State} {p : Pool} {size : Nat}

theorem Pool.BLOCKIFY_mul_le (p : Pool) {n : Nat} (hn : 0 < n) :
    p.BLOCKIFY n * p.blksz < n + p.blksz := by
  have hdiv : p.BLOCKIFY n * p.blksz ≤ sub32 (add32 n p.blksz) 1 := Nat.div_mul_le_self _ _
  have hle : sub32 (add32 n p.blksz) 1 ≤ n + p.blksz - 1 := by
    unfold sub32 add32
    omega
  omega

/-- A small request fits, whatever is free. -/
theorem Pool.inWords_of_small {F : Nat → Prop} {n : Nat} (hn : 0 < n)
    (h : p.ptr + n + p.blksz < 2 ^ 32) : p.InWords F (p.BLOCKIFY n) := by
  have := p.BLOCKIFY_mul_le hn
  exact .inr (by omega)

theorem Pool.fitsBy_of_small {F : Nat → Prop} (h : p.ptr + max size 8 + p.blksz < 2 ^ 32) :
    p.FitsBy (p.InWords F) size := by
  intro _
  split
  · intro _
    exact .inr (by omega)
  · exact ⟨by omega, Pool.inWords_of_small (by omega) h⟩

/-- A sufficient condition that does not depend on the free blocks. -/
theorem Action.fitsBy_of_small {act : Action} (h : act.Small s) :
    act.FitsBy Pool.InWords s := by
  cases act with
  | malloc size => exact Pool.fitsBy_of_small h
  | free ptr => trivial
  | realloc ptr size =>
    obtain ⟨hpos, hsmall⟩ := h
    unfold Action.FitsBy Pool.ReallocFitsBy
    dsimp only
    split
    · split
      · exact ⟨Pool.fitsBy_of_small hsmall, fun hzero => absurd hzero (by omega)⟩
      · exact ⟨by omega, fun _ => Pool.inWords_of_small hpos (by omega)⟩
    · exact .inr (Pool.fitsBy_of_small hsmall)
  | write ptr off bytes => trivial

/-! ### Runs -/

theorem Action.FitsBy.mono {fit fit' : Pool → (Nat → Prop) → Nat → Prop} {act : Action}
    (h : act.FitsBy fit s) (hfit : ∀ F n, fit s.pool F n → fit' s.pool F n) :
    act.FitsBy fit' s := by
  cases act with
  | malloc size => exact Pool.FitsBy.mono h (hfit _)
  | free ptr => trivial
  | realloc ptr size => exact Pool.ReallocFitsBy.mono h hfit
  | write ptr off bytes => trivial

end

section

variable {start len blklog : Nat} (h : Placed start len blklog) {p : Pool} {m : Mem}
  {tr : List Action}
include h

theorem Placed.held (hinit : Pool.init m start len blklog = some p) :
    Held ⟨p, []⟩ h.layout ∅ := by
  obtain ⟨p', hinit', howns⟩ := h.init m
  obtain rfl : p' = p := Option.some.inj (hinit'.symm.trans hinit)
  exact ⟨howns, List.nodup_nil, by simp, by simp⟩

/-- What holds of every sound pool holds all along the runs whose requests fit. -/
theorem Placed.always {P : State → Prop} (hP : ∀ s R, Held s h.layout R → P s)
    (hinit : Pool.init m start len blklog = some p)
    (hmeets : Meets step (fun s act => act.FitsBy Pool.BlocksFit s) ⟨p, []⟩ tr) :
    Always step P ⟨p, []⟩ tr := by
  apply always_of_meets step (I := fun s => ∃ R, Held s h.layout R) ?_ ?_ ⟨∅, h.held hinit⟩ hmeets
  · rintro s ⟨R, hheld⟩
    exact hP s R hheld
  · rintro s act s' ⟨R, hheld⟩ hfits hstep
    exact hheld.step hfits hstep

/-- In a pool that ends with a block, the core never grows beyond the top. -/
theorem Placed.meets (htop : 2 ^ blklog ∣ topAt start len blklog)
    (hinit : Pool.init m start len blklog = some p)
    (hmeets : Meets step (fun s act => act.FitsBy Pool.InWords s) ⟨p, []⟩ tr) :
    Meets step (fun s act => act.FitsBy Pool.BlocksFit s) ⟨p, []⟩ tr := by
  apply Meets.of_invariant step (I := fun s => ∃ R, Held s h.layout R) ?_ ?_ ⟨∅, h.held hinit⟩ hmeets
  · rintro s act ⟨R, hheld⟩ hfits
    obtain ⟨S, E, blocks, run, hsound⟩ := hheld.owns
    exact hfits.mono fun F n hwords => ⟨hwords, hsound.heap.core.whole_of_dvd htop⟩
  · rintro s act s' ⟨R, hheld⟩ hfits hstep
    exact hheld.step hfits hstep

end

/-! ### Ranges of whole blocks -/

/-- The range starts and ends with a block, and holds the header and the table. -/
structure BlockAligned (start size blklog : Nat) : Prop where
  start_dvd : 2 ^ blklog ∣ start
  size_dvd : 2 ^ blklog ∣ size
  end_lt : start + size < 2 ^ 32
  table_le : tableAt start blklog + 16 * entries size blklog ≤ start + size

theorem BlockAligned.placed {start len blklog : Nat} (h : BlockAligned start len blklog) :
    Placed start len blklog ∧ 2 ^ blklog ∣ topAt start len blklog := by
  have hend := h.end_lt
  have htable := h.table_le
  obtain ⟨hle, -, hdvd⟩ := tableAt_spec start blklog
  have hlen : entries len blklog * 2 ^ blklog = len := Nat.div_mul_cancel h.size_dvd
  have hheader : start ≤ headerAt start := by
    unfold headerAt
    omega
  unfold headerEnd at hle
  have hblklog : 2 ≤ blklog := by
    by_contra hsmall
    have hpow : 2 ^ blklog ≤ 2 ^ 1 := Nat.pow_le_pow_right (by decide) (by omega)
    have := Nat.mul_le_mul_left (entries len blklog) hpow
    omega
  have hstart : start % 4 = 0 :=
    Nat.mod_eq_zero_of_dvd (Nat.dvd_trans (Nat.pow_dvd_pow 2 hblklog) h.start_dvd)
  have hself : headerAt start = start := by
    unfold headerAt
    omega
  have htop : topAt start len blklog = start + len := by
    unfold topAt
    rw [hself, hstart, Nat.sub_zero]
    exact congrArg _ hlen
  have hdvdtop : 2 ^ blklog ∣ topAt start len blklog := by
    rw [htop]
    exact Nat.dvd_add h.start_dvd h.size_dvd
  refine ⟨⟨by omega, by omega, by omega, ?_, by omega, .inr hdvdtop⟩, hdvdtop⟩
  -- the table is at least a block behind the start
  have hgap : 2 ^ blklog ≤ tableAt start blklog - start :=
    Nat.le_of_dvd (by omega) (Nat.dvd_sub hdvd h.start_dvd)
  by_contra hfew
  have hmul := Nat.mul_le_mul_right (2 ^ blklog) (show entries len blklog ≤ 1 by omega)
  rcases Nat.eq_zero_or_pos (entries len blklog) with hzero | hpos
  · rw [hzero] at hlen
    omega
  · omega


/-! ### A pool of 32 blocks -/

/-- The pool of the examples. -/
def smallPool : Option Pool := Pool.init (fun _ => 0) 0x80000000 1024 5

theorem smallPool_aligned : BlockAligned 0x80000000 1024 5 where
  start_dvd := by decide
  size_dvd := by decide
  end_lt := by decide
  table_le := by decide

/-- What is decided about the pool holds of it. -/
theorem smallPool_of_all {P : Pool → Prop} [DecidablePred P]
    (h : smallPool.all (fun p => P p) = true) : ∃ p, smallPool = some p ∧ P p := by
  have hinit := smallPool_aligned.placed.1.init fun _ => 0
  obtain ⟨p, hinit, -⟩ := hinit
  unfold smallPool at h ⊢
  rw [hinit] at h ⊢
  exact ⟨p, rfl, of_decide_eq_true h⟩

/-- What is decided about the last state of a run holds of it. -/
theorem smallPool_run {tr : List Action} {P : State → Prop} [DecidablePred P]
    (h : smallPool.any (fun p => (run step ⟨p, []⟩ tr).any fun s => P s) = true) :
    ∃ p s, smallPool = some p ∧ run step ⟨p, []⟩ tr = some s ∧ P s := by
  obtain ⟨p, hinit, hany⟩ := (Option.any_eq_true _ _).mp h
  obtain ⟨s, hrun, hP⟩ := (Option.any_eq_true _ _).mp hany
  exact ⟨p, s, hinit, hrun, of_decide_eq_true hP⟩

/-- The small requests of a run fit. -/
theorem smallPool_meets {tr : List Action}
    (h : smallPool.all (fun p => Meets step (fun s act => act.Small s) ⟨p, []⟩ tr) = true) :
    ∃ p, smallPool = some p ∧
      Meets step (fun s act => act.FitsBy Pool.BlocksFit s) ⟨p, []⟩ tr := by
  obtain ⟨p, hinit, hmeets⟩ := smallPool_of_all h
  obtain ⟨hplaced, htop⟩ := smallPool_aligned.placed
  exact ⟨p, hinit, hplaced.meets htop hinit (hmeets.mono step fun _ _ => Action.fitsBy_of_small)⟩

end Hcrtos.Native.Alloc
