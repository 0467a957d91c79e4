import Hcrtos.Spec.AllocFree

/-!
# Resizing

`__realloc` of a large object cuts it, leaves it, or frees it and allocates a larger one; when
there is none, it takes the blocks back that it freed. All other requests allocate, copy and
free.

## Key results

- `Sound.shrink`: the end of an object is freed
- `Sound.released`, `Sound.unfree`: an object is freed and taken back
- `Owns.realloc`: all of `__realloc`
-/

namespace Hcrtos.Native.Alloc

open Word Memory IntrusiveList Table

section

variable {p p' : Pool} {L : Layout} {S S' : Finset Nat} {E b c m n a : Nat}
  {blocks run : Nat → List Nat} {R : Finset (Nat × Nat)}

variable (h : Sound p L S E blocks run R)
include h

/-! ### Cutting an object -/

/-- The blocks of an object behind its first `m` ones are freed. -/
theorem Sound.shrinks {E' : Nat} (hobj : p.table.IsObject b n) (hb : L.infoBlocks < b)
    (hmn : m < n) (hobj' : p'.table.IsObject b m) (hmem : p'.mem = p.mem)
    (hstatus : ∀ i, (p'.table i).status =
      if b + m ≤ i ∧ i < b + n then 0 else (p.table i).status)
    (hsame : ∀ i, (p.table i).status = 1 → i < b ∨ b + n ≤ i → p'.table i = p.table i)
    (hbeyond : ∀ i, L.infoSize ≤ i → p'.table i = p.table i) (hheap : Heap p' L S' E')
    (hlimit : Limit p' L E') (hcharged : Charged p p' S S' 0 (-((n - m : ℕ) * L.blksz))) :
    Sound p' L S' E' blocks run (insert (L.addr b, m * L.blksz)
      (R.erase (L.addr b, n * L.blksz))) := by
  have hle := h.heap.run_le hobj.toIsRun
  have hold : Holds p L run (L.addr b) (n * L.blksz) := .object b n hb hobj
  -- busy blocks outside of the object were busy before
  have hback : ∀ i, (p'.table i).status = 1 → i < b ∨ b + m ≤ i →
      (i < b ∨ b + n ≤ i) ∧ p'.table i = p.table i := by
    intro i hi hout
    have hst := hstatus i
    rw [hi] at hst
    split at hst
    · contradiction
    · exact ⟨by omega, hsame i hst.symm (by omega)⟩
  have hfragsame : SameFrags p.table p'.table := by
    constructor
    · intro x log hfrag
      exact hsame x hfrag.1 (hfrag.outside hobj.toIsRun)
    · intro x log hfrag
      exact hfrag.congr (hback x hfrag.1 (hfrag.outside hobj'.toIsRun)).2.symm
  have hfrags : Frags p' L blocks run := by
    refine h.frags.congr hfragsame ?_
    rw [hmem]
    exact h.frags.list
  have hnot : (L.addr b, m * L.blksz) ∉ R.erase (L.addr b, n * L.blksz) := by
    intro hr
    obtain ⟨hne, hr⟩ := Finset.mem_erase.mp hr
    exact hne (by rw [h.size_eq hr ((h.regions _ _).mpr hold)])
  constructor
  · exact hheap
  · exact hlimit
  · exact hfrags
  · intro x hx hone htype
    by_cases hin : b ≤ x ∧ x < b + m
    · exact ⟨b, m, hb, hobj', hin⟩
    · obtain ⟨hout, heq⟩ := hback x hone (by omega)
      rw [heq] at hone htype
      obtain ⟨d, k, hd, hobj₂, hdx, hxd⟩ := h.cover x hx hone htype
      have hne : d ≠ b := by
        rintro rfl
        rw [hobj₂.size_eq hobj] at hxd
        omega
      have hapart := h.heap.object_apart hobj hobj₂ hne
      exact ⟨d, k, hd, hobj₂.congr fun i hi hlt => hsame i (hobj₂.status i hi hlt) (by omega),
        hdx, hxd⟩
  · intro x y
    rw [Finset.mem_insert, Finset.mem_erase, h.regions]
    constructor
    · rintro (heq | ⟨hne, hxy⟩)
      · cases heq
        exact .object b m hb hobj'
      · cases hxy with
        | object d k hd hobj₂ =>
          have hdb : d ≠ b := by
            rintro rfl
            exact hne (by rw [hobj₂.size_eq hobj])
          have hapart := h.heap.object_apart hobj hobj₂ hdb
          exact .object d k hd
            (hobj₂.congr fun i hi hlt => hsame i (hobj₂.status i hi hlt) (by omega))
        | frag d log k hfrag hk hrun =>
          exact .frag d log k (hfrag.congr (hfragsame.same d log hfrag)) hk hrun
    · intro hxy
      cases hxy with
      | object d k hd hobj₂ =>
        by_cases hdb : d = b
        · subst hdb
          rw [hobj₂.size_eq hobj']
          exact .inl rfl
        · have hapart := hheap.object_apart hobj' hobj₂ hdb
          refine .inr ⟨?_, .object d k hd (hobj₂.congr fun i hi hlt =>
            (hback i (hobj₂.status i hi hlt) (by omega)).2.symm)⟩
          intro heq
          exact hdb (L.addr_inj (by omega) (by omega) (congrArg Prod.fst heq))
      | frag d log k hfrag hk hrun =>
        have hfrag₀ := hfragsame.back d log hfrag
        refine .inr ⟨?_, .frag d log k hfrag₀ hk hrun⟩
        intro heq
        exact addr_ne_frag h.heap h.frags.type (by omega) hobj hfrag₀ hk
          (congrArg Prod.fst heq).symm
  · obtain ⟨hcard, hsum⟩ := sum_erase_region ((h.regions _ _).mpr hold)
    obtain ⟨hcard', hsum'⟩ := sum_insert_region hnot
    apply h.counted.charged hcharged hfragsame
    · rw [hcard', hcard]
      ring
    · rw [hsum', hsum, Nat.cast_sub (Nat.le_of_lt hmn)]
      push_cast
      ring
  · intro i hi
    rw [hbeyond i hi]
    exact h.beyond i hi

/-- The tail of an object is freed as one of its own. -/
theorem Sound.shrink (hobj : p.table.IsObject b n) (hb : L.infoBlocks < b) (hm : 0 < m)
    (hmn : m < n) : ∃ p' S' E', Pool.free { p with
        table := ((p.table.setType (b + m) 0).setSize (b + m) (n - m)).setSize b m
        chunks_used := add32 p.chunks_used 1 } (L.addr (b + m)) = some p' ∧
      Sound p' L S' E' blocks run (insert (L.addr b, m * L.blksz)
        (R.erase (L.addr b, n * L.blksz))) ∧ p'.mem = p.mem := by
  have hle := h.heap.run_le hobj.toIsRun
  have hsize := h.heap.core.le_infoSize
  generalize hq : ({ p with
      table := ((p.table.setType (b + m) 0).setSize (b + m) (n - m)).setSize b m
      chunks_used := add32 p.chunks_used 1 } : Pool) = q
  have htable : q.table = ((p.table.setType (b + m) 0).setSize (b + m) (n - m)).setSize b m := by
    rw [← hq]
  have hother : ∀ i, i ≠ b → i ≠ b + m → q.table i = p.table i := by
    intro i hi hi'
    simp [htable, Table.setW1, Table.setW2, hi, hi']
  have hst : ∀ i, (q.table i).status = (p.table i).status := fun i => by simp [htable]
  have htype : ∀ i, b ≤ i → i < b + n → (q.table i).type = 0 := by
    intro i hi hlt
    have := hobj.type i hi hlt
    simp [htable, this]
  have hcore : q.Core L E := by
    rw [← hq]
    exact h.heap.core.update _ _ _ _ _ _ _ _
  have hlisted : ∀ x ∈ insert 0 S, q.table x = p.table x := by
    intro x hx
    have hfree := h.heap.clusters.status_zero hx
    apply hother
    · rintro rfl
      have := hobj.status x (Nat.le_refl x) (by omega)
      omega
    · rintro rfl
      have := hobj.status (b + m) (by omega) (by omega)
      omega
  have hheap : Heap q L S E := by
    refine ⟨hcore, h.heap.clusters.congr hst hlisted, ?_,
      h.heap.info.congr fun i _ hlt => hother i (by omega) (by omega)⟩
    rw [← hq]
    exact h.heap.index
  have hhead : q.table.IsObject b m := by
    refine ⟨⟨hm, fun i hi hlt => by rw [hst]; exact hobj.status i hi (by omega),
      fun i hi hlt => htype i hi (by omega), by simp [htable]⟩, ?_⟩
    intro i hi hlt
    rw [hother i (by omega) (by omega)]
    exact hobj.back i hi (by omega)
  have htail : q.table.IsRun (b + m) (n - m) :=
    ⟨by omega, fun i hi hlt => by rw [hst]; exact hobj.status i (by omega) (by omega),
      fun i hi hlt => htype i (by omega) (by omega), by simp [htable]; omega⟩
  have haddr := hcore.addr_lt (b := b + m) (by omega) (by omega)
  have hlimit : Limit q L E := by
    unfold Limit
    rw [← hq]
    exact h.limit
  obtain ⟨p', S', E', hresult, hheap', hlimit', hgives, hcharged⟩ :=
    hheap.freeBlocks htail (by omega) hlimit
  refine ⟨p', S', E', ?_, h.shrinks hobj hb hmn ?_ ?_ ?_ ?_ ?_ hheap' (.inl hlimit') ?_, ?_⟩
  · unfold Pool.free Pool.freeWith
    rw [if_pos (hheap.checkFree_of_run htail (by omega)), hcore.BLOCK_addr (by omega) haddr,
      if_pos (htype _ (by omega) (by omega))]
    exact hresult
  · exact hgives.object hhead (by omega)
  · rw [hgives.mem, ← hq]
  · intro i
    rw [hgives.status, hst, show b + m + (n - m) = b + n by omega]
  · intro i hi hout
    rw [hgives.same i (by rw [hst]; exact hi) (by omega), hother i (by omega) (by omega)]
  · intro i hi
    rw [hgives.beyond i hi, hother i (by omega) (by omega)]
  · -- the tail counts as a chunk until it is freed
    have hsum : ∑ d ∈ S, (q.table d).freeSize = ∑ d ∈ S, (p.table d).freeSize :=
      Finset.sum_congr rfl fun d hd => by rw [hlisted d (Finset.mem_insert_of_mem hd)]
    have hone : Charged p q S S 1 0 := by
      constructor
      · rw [← hq, cast_add32, Nat.cast_one]
      · rw [← hq, add_zero]
      · rw [← hq]
        rfl
      · unfold Pool.spareBytes
        rw [hsum, ← hq]
      · intro hcount
        rw [← hq]
        exact ⟨add32_lt _ _, hcount.bytes_used, hcount.chunks_free, hcount.bytes_free⟩
    have htotal := hone.trans hcharged
    rwa [add_neg_cancel, zero_add] at htotal
  · rw [hgives.mem, ← hq]

/-! ### Freeing and taking back -/

/-- An object is freed without giving memory back to the system. -/
theorem Sound.released (hobj : p.table.IsObject b n) (hb : L.infoBlocks < b) :
    ∃ q S' c, p.released (L.addr b) = some q ∧
      Sound q L S' E blocks run (R.erase (L.addr b, n * L.blksz)) ∧ Gives p q L b n ∧
      q.info_limit = p.info_limit ∧ q.ptr = p.ptr ∧ q.info_index = c ∧ c ∈ S' ∧ c ≤ b ∧
      b + n ≤ c + (q.table c).freeSize := by
  have hle := h.heap.run_le hobj.toIsRun
  have hpos := hobj.pos
  have haddr := h.heap.core.addr_lt (b := b) (by omega) (by omega)
  generalize hp₀ : ({ p with info_limit := 0 } : Pool) = p₀
  have hcore₀ : p₀.Core L E := by
    rw [← hp₀]
    exact h.heap.core.update _ _ _ _ _ _ _ _
  have hheap₀ : Heap p₀ L S E := by
    refine ⟨hcore₀, ?_, ?_, ?_⟩
    · rw [← hp₀]
      exact h.heap.clusters
    · rw [← hp₀]
      exact h.heap.index
    · rw [← hp₀]
      exact h.heap.info
  have hrun₀ : p₀.table.IsRun b n := by
    rw [← hp₀]
    exact hobj.toIsRun
  obtain ⟨p', S', c, hfree, hjoined⟩ := hheap₀.joined hrun₀ hb
  rw [hjoined.giveBack_zero (by rw [← hp₀])] at hfree
  have hfree' : p₀.free (L.addr b) = some { p' with info_index := c } := by
    unfold Pool.free Pool.freeWith
    rw [if_pos (hheap₀.checkFree_of_run hrun₀ hb), hcore₀.BLOCK_addr (by omega) haddr,
      if_pos (hrun₀.type b (Nat.le_refl b) (by omega))]
    exact hfree
  have hgives : Gives p { p' with info_index := c, info_limit := p.info_limit } L b n := by
    have hg := hjoined.gives
    rw [← hp₀] at hg
    exact ⟨hg.mem, hg.status, hg.same, hg.beyond⟩
  have hcharged : Charged p { p' with info_index := c, info_limit := p.info_limit } S S' (-1)
      (-(n * L.blksz)) := by
    have hch := hjoined.charged
    rw [← hp₀] at hch
    exact ⟨hch.chunks_used, hch.bytes_used, hch.chunks_free, hch.bytes_free,
      fun hcount => { hch.counters { hcount with } with }⟩
  have hheap : Heap { p' with info_index := c, info_limit := p.info_limit } L S' E :=
    ⟨hjoined.core.update _ _ _ _ _ _ _ _, hjoined.clusters, Finset.mem_insert_of_mem hjoined.mem,
      hjoined.info⟩
  refine ⟨{ p' with info_index := c, info_limit := p.info_limit }, S', c, ?_,
    h.gives hobj hb hgives hheap h.limit hcharged, hgives, rfl, ?_, rfl, hjoined.mem, hjoined.le,
    hjoined.ge⟩
  · unfold Pool.released
    rw [hp₀, hfree', Option.map_some]
  · have hptr := hjoined.ptr
    rw [← hp₀] at hptr
    exact hptr

/-- A request for blocks is served by the cluster where the search starts, if it is long
    enough. -/
theorem Sound.takeFirst (hindex : p.info_index = c) (hc : c ∈ S) (hn : 0 < n)
    (hle : n ≤ (p.table c).freeSize) : ∃ p' S', p.malloc (mul32 n p.blksz) =
        some (p', some (L.addr c)) ∧
      Sound p' L S' E blocks run (insert (L.addr c, n * L.blksz) R) ∧
      (∀ r ∈ R, r.1 ≠ L.addr c) ∧ p'.mem = p.mem ∧ p'.blksz = p.blksz ∧
      p'.table.IsObject c n ∧ SameBusy p.table p'.table ∧ L.infoBlocks < c ∧
      (n < (p.table c).freeSize → p'.info_index = c + n ∧ c + n ∈ S' ∧
        (p'.table (c + n)).freeSize = (p.table c).freeSize - n) := by
  have hcore := h.heap.core
  have hbound := h.heap.clusters.bound c hc
  have hpos := h.heap.clusters.lt_of_mem hc
  have hge := L.blksz_ge
  have hbase := L.blksz_le_base
  have hle' := L.base_le_addr (b := c)
  have hend := hcore.end_le_word
  have hadd := L.addr_add_le (b := c) (n := n) (c := E) hpos.1 (by omega)
  have hmul := Nat.mul_le_mul_right L.blksz (show 1 ≤ n from hn)
  have hblksz := hcore.blksz
  have hinfo := h.heap.infoBlocks_lt hpos.1
    (h.heap.clusters.free c hc c (Nat.le_refl c) (by omega))
  obtain ⟨S', hresult, hheap, htakes, hcharged, hrest⟩ := h.heap.takeBlocks hc hn hle
  obtain ⟨hsound, hfresh⟩ := h.takes htakes hinfo hn hheap (h.heap.limit_eq h.limit hc) hcharged
  refine ⟨(p.takeBlocks c n).1, S', ?_, hsound, hfresh, htakes.mem, rfl, htakes.object,
    htakes.same, hinfo, hrest⟩
  rw [hblksz, mul32_of_lt (by omega)]
  unfold Pool.malloc Pool.mallocWith
  rw [if_neg (by unfold UINT_MAX; omega)]
  dsimp only
  rw [Nat.max_eq_left (by omega), hblksz, if_neg (by omega)]
  unfold Pool.mallocBlocks
  rw [hcore.BLOCKIFY_mul (by omega), search_succ, hindex, if_neg (by omega), ← hresult]

omit h in
/-- The object at `b` is taken back. -/
theorem Sound.unfree {R : Finset (Nat × Nat)}
    (h : Sound p L S E blocks run (R.erase (L.addr b, n * L.blksz)))
    (hr : (L.addr b, n * L.blksz) ∈ R) (hn : 0 < n) (hindex : p.info_index = c) (hc : c ∈ S)
    (hcb : c ≤ b) (hge : b + n ≤ c + (p.table c).freeSize) :
    ∃ p', p.unfree b n = some p' ∧ Owns p' L R ∧ p'.mem = p.mem := by
  have hE := h.heap.core.le_limit
  have hbound := h.heap.clusters.bound c hc
  unfold Pool.unfree
  rw [hindex]
  by_cases hcb' : c = b
  · subst hcb'
    obtain ⟨p', S', hmalloc, hsound, -, hmem, -⟩ := h.takeFirst hindex hc hn (by omega)
    rw [Finset.insert_erase hr] at hsound
    rw [if_pos rfl, hmalloc]
    exact ⟨p', rfl, hsound.owns, hmem⟩
  · -- the blocks before the object are taken too, and freed again
    rw [if_neg hcb', sub32_of_le hcb (by omega)]
    obtain ⟨p₁, S₁, hmalloc₁, hsound₁, hfresh₁, hmem₁, hblksz₁, hobj₁, -, hinfo, hrest⟩ :=
      h.takeFirst hindex hc (show 0 < b - c by omega) (by omega)
    obtain ⟨hindex₁, hc₁, hsize₁⟩ := hrest (by omega)
    rw [show c + (b - c) = b by omega] at hindex₁ hc₁ hsize₁
    obtain ⟨p₂, S₂, hmalloc₂, hsound₂, -, hmem₂, -, -, hsame₂, -⟩ :=
      hsound₁.takeFirst hindex₁ hc₁ hn (by omega)
    have hne : (L.addr c, (b - c) * L.blksz) ≠ (L.addr b, n * L.blksz) := by
      have hpos := h.heap.clusters.lt_of_mem hc
      intro heq
      exact hcb' (L.addr_inj hpos.1 (by omega) (congrArg Prod.fst heq))
    have hnot : (L.addr c, (b - c) * L.blksz) ∉ R := by
      intro hmem
      exact hfresh₁ _ (Finset.mem_erase.mpr ⟨hne, hmem⟩) rfl
    rw [Finset.insert_comm, Finset.insert_erase hr] at hsound₂
    obtain ⟨p₃, hfree, howns, hmem₃⟩ := hsound₂.freeObject (hobj₁.sameBusy hsame₂) hinfo
    rw [Finset.erase_insert hnot] at howns
    rw [hmalloc₁]
    dsimp only
    rw [hmalloc₂]
    exact ⟨p₃, hfree, howns, by rw [hmem₃, hmem₂, hmem₁]⟩

/-! ### Copying -/

/-- Owned regions at different addresses are apart. -/
theorem Sound.apart {r r' : Nat × Nat} (hr : r ∈ R) (hr' : r' ∈ R) (hne : r.1 ≠ r'.1) :
    r.1 + r.2 ≤ r'.1 ∨ r'.1 + r'.2 ≤ r.1 :=
  (h.holds hr).apart h.heap h.frags.type (h.holds hr') hne

omit h

/-- A program writes to the start of a region that it owns. -/
theorem Owns.memcpy {bytes : List UInt8} (h : Owns p L (insert (a, c) R))
    (hfresh : ∀ r ∈ R, r.1 ≠ a) (hle : bytes.length ≤ c) :
    Owns { p with mem := memcpy p.mem a bytes } L (insert (a, c) R) ∧
      SameBytes R p.mem (memcpy p.mem a bytes) := by
  obtain ⟨S, E, blocks, run, h⟩ := h
  constructor
  · exact (h.write (Finset.mem_insert_self _ _) fun x hx =>
      memcpy_apply_of_outside (by omega)).owns
  · intro r hr x hx hlt
    have hapart := h.apart (Finset.mem_insert_of_mem hr) (Finset.mem_insert_self _ _) (hfresh r hr)
    exact memcpy_apply_of_outside (by dsimp only at hapart; omega)

/-- What becomes of the region `(a, c)`. -/
inductive Reallocated (p : Pool) (L : Layout) (R : Finset (Nat × Nat)) (a c size : Nat) :
    Pool → Option Nat → Prop
  | none {p' : Pool} (owns : Owns p' L R) (same : SameBytes R p.mem p'.mem) :
    Reallocated p L R a c size p' none
  | some {p' : Pool} {a' c' : Nat} (owns : Owns p' L (insert (a', c') (R.erase (a, c))))
      (fresh : ∀ r ∈ R.erase (a, c), r.1 ≠ a') (le : size ≤ c')
      (same : SameBytes (R.erase (a, c)) p.mem p'.mem)
      (copied : ∀ i < min c size, p'.mem (a' + i) = p.mem (a + i)) :
    Reallocated p L R a c size p' (some a')

/-- The region stays. -/
theorem Sound.reallocated_self {size : Nat} (h : Sound p L S E blocks run R) (hr : (a, c) ∈ R)
    (hle : size ≤ c) : Reallocated p L R a c size p (some a) := by
  have howns : Owns p L (insert (a, c) (R.erase (a, c))) := by
    rw [Finset.insert_erase hr]
    exact h.owns
  refine .some howns ?_ hle (fun _ _ _ _ _ => rfl) fun _ _ => rfl
  rintro ⟨a', c'⟩ hac (rfl : a' = a)
  obtain ⟨hne, hac⟩ := Finset.mem_erase.mp hac
  exact hne (by rw [h.size_eq hac hr])

/-- The bytes of a region go to another one, and the region is freed. -/
theorem Owns.moveTo {a' c' k : Nat} (h : Owns p L (insert (a', c') R))
    (hfresh : ∀ r ∈ R, r.1 ≠ a') (hr : (a, c) ∈ R) (hk : k ≤ c') :
    (p.moveTo a a' k = none ∧ p.MayReject a) ∨ ∃ p', p.moveTo a a' k = some (p', some a') ∧
      Owns p' L (insert (a', c') (R.erase (a, c))) ∧ SameBytes (R.erase (a, c)) p.mem p'.mem ∧
      ∀ i < k, p'.mem (a' + i) = p.mem (a + i) := by
  obtain ⟨howns, hsame⟩ := h.memcpy hfresh (show (bytesAt p.mem a k).length ≤ c' by simpa using hk)
  have hne : (a', c') ≠ (a, c) := fun heq => hfresh _ hr (congrArg Prod.fst heq).symm
  obtain ⟨S, E, blocks, run, hsound⟩ := howns
  have ha : a < 2 ^ 32 := by
    have hbounds := hsound.bounds (Finset.mem_insert_of_mem hr)
    have := hsound.heap.core.end_le_word
    omega
  unfold Pool.moveTo
  dsimp only
  have hfreed := hsound.owns.free ha
  generalize Pool.free _ a = result at hfreed
  cases hfreed with
  | rejected _ reject => exact .inl ⟨rfl, reject c (Finset.mem_insert_of_mem hr)⟩
  | @released p' d hd howns' hsame' =>
    right
    obtain rfl : d = c := hsound.size_eq hd (Finset.mem_insert_of_mem hr)
    rw [Finset.erase_insert_of_ne hne] at howns' hsame'
    refine ⟨p', rfl, howns', ?_, ?_⟩
    · intro r hr' x hx hlt
      rw [hsame' r (Finset.mem_insert_of_mem hr') x hx hlt]
      exact hsame r (Finset.mem_of_mem_erase hr') x hx hlt
    · intro i hi
      rw [hsame' _ (Finset.mem_insert_self _ _) (a' + i) (by dsimp only; omega)
        (by dsimp only; omega)]
      exact memcpy_bytesAt_apply hi

/-! ### Large objects -/

/-- Whether blocks fit depends on the place of the core and on the free blocks only. -/
theorem Pool.BlocksFit.congr {q : Pool} {F F' : Nat → Prop} (h : p.BlocksFit F n)
    (hbase : q.base = p.base) (htop : q.top = p.top) (hptr : q.ptr = p.ptr)
    (hblksz : q.blksz = p.blksz) (hlimit : q.info_limit = p.info_limit)
    (hF : ∀ i, F' i ↔ F i) : q.BlocksFit F' n := by
  obtain rfl : F' = F := funext fun i => propext (hF i)
  unfold Pool.BlocksFit Pool.InWords Pool.Served Pool.HasRun Pool.HasEnd Pool.Whole Pool.endOfCore
    Pool.ADDRESS at h ⊢
  rwa [hbase, htop, hptr, hblksz, hlimit]

namespace Pool

/-- The blocks that are free once those of the object at `block` are. -/
def FreeWith (p : Pool) (block : Nat) (b : Nat) : Prop :=
  p.Free b ∨ (block ≤ b ∧ b < block + (p.table block).size)

/-- The blocks that a resize asks for are a number that `fit` allows, for the blocks that are then
    free. Zero bytes are served by a fragment, or the block of the size zero that is left of a
    large object wraps. -/
def ReallocFitsBy (p : Pool) (fit : (Nat → Prop) → Nat → Prop) (ptr size : Nat) : Prop :=
  let block := p.BLOCK ptr
  let type := (p.table block).type
  if type = 0 then
    if size ≤ p.blksz / 2 then p.FitsBy (fit p.Free) size ∧ (size = 0 → p.Serves p.Free size)
    else size + p.blksz - 1 < 2 ^ 32 ∧
      ((p.table block).size < p.BLOCKIFY size → fit (p.FreeWith block) (p.BLOCKIFY size))
  else (2 ^ (type - 1) < size ∧ size ≤ 2 ^ type) ∨ p.FitsBy (fit p.Free) size

/-- The request of a resize fits. -/
def ReallocFits (p : Pool) (ptr size : Nat) : Prop := p.ReallocFitsBy p.BlocksFit ptr size

theorem ReallocFitsBy.mono {p : Pool} {fit fit' : (Nat → Prop) → Nat → Prop} {ptr size : Nat}
    (h : p.ReallocFitsBy fit ptr size) (hfit : ∀ F n, fit F n → fit' F n) :
    p.ReallocFitsBy fit' ptr size := by
  unfold ReallocFitsBy at h ⊢
  dsimp only at h ⊢
  split
  · rename_i htype
    rw [if_pos htype] at h
    split
    · rename_i hle
      rw [if_pos hle] at h
      exact ⟨h.1.mono (hfit _), h.2⟩
    · rename_i hgt
      rw [if_neg hgt] at h
      exact ⟨h.1, fun hlt => hfit _ _ (h.2 hlt)⟩
  · rename_i htype
    rw [if_neg htype] at h
    exact h.imp_right fun h => h.mono (hfit _)

end Pool

/-- A request for more than half a block is one for blocks. -/
theorem Sound.malloc_blocks {size : Nat} (h : Sound p L S E blocks run R)
    (hhalf : L.blksz / 2 < size) (hsize : size + L.blksz - 1 < 2 ^ 32) :
    p.malloc size = p.mallocBlocks size := by
  have hge := L.blksz_ge
  unfold Pool.malloc Pool.mallocWith
  rw [if_neg (by unfold UINT_MAX; omega)]
  dsimp only
  rw [Nat.max_eq_left (by omega), h.heap.core.blksz, if_neg (by omega)]

/-- An object is freed, and a larger one is allocated and takes its bytes, or it is taken back. -/
theorem Sound.grow {size : Nat} (h : Sound p L S E blocks run R) (hobj : p.table.IsObject b n)
    (hb : L.infoBlocks < b) (hhalf : L.blksz / 2 < size) (hsize : size + L.blksz - 1 < 2 ^ 32)
    (hn : n < p.BLOCKIFY size) (hfit : p.BlocksFit (p.FreeWith b) (p.BLOCKIFY size)) :
    ∃ p' r, p.reallocBlocks (L.addr b) size = some (p', r) ∧
      Reallocated p L R (L.addr b) (n * L.blksz) size p' r := by
  have hcore := h.heap.core
  have hpos := hobj.pos
  have hle := h.heap.run_le hobj.toIsRun
  have haddr := hcore.addr_lt (b := b) (by omega) (by omega)
  have hbase := L.base_pos
  have hadd := L.addr_add_le (b := b) (n := n) (c := E) (by omega) hle
  have hend := hcore.end_le_word
  have hle' := L.base_le_addr (b := b)
  have hr : (L.addr b, n * L.blksz) ∈ R := (h.regions _ _).mpr (.object b n hb hobj)
  obtain ⟨q, S', c, hfree, hsound, hgives, hlimit, hptr, hindex, hc, hcb, hge⟩ :=
    h.released hobj hb
  have hqcore := hsound.heap.core
  have hblksz := hqcore.blksz.trans hcore.blksz.symm
  have hBLOCKIFY : q.BLOCKIFY size = p.BLOCKIFY size := by
    unfold Pool.BLOCKIFY
    rw [hblksz]
  have hfit' : q.BlocksFit q.Free (p.BLOCKIFY size) := Pool.BlocksFit.congr hfit
    (hqcore.base.trans hcore.base.symm) (hqcore.top.trans hcore.top.symm) hptr hblksz hlimit (by
      intro i
      unfold Pool.Free Pool.FreeWith Pool.Free
      rw [hgives.status, hobj.size]
      split
      · simp_all
      · simp_all)
  have hmalloc := hsound.malloc_blocks hhalf hsize
  unfold Pool.reallocBlocks
  rw [hcore.BLOCK_addr (by omega) haddr]
  dsimp only
  rw [hobj.size, if_neg (by omega), if_neg (by omega), hfree]
  dsimp only
  rw [hmalloc]
  rcases hsound.mallocBlocks (by omega) hsize hBLOCKIFY hfit'.1 hfit'.2 with
    ⟨hresult, -⟩ | ⟨p', S₂, E₂, d, hresult, hd, -, hsound₂, hfresh, hmem, -⟩
  · obtain ⟨p', hunfree, howns, hmem⟩ := hsound.unfree hr hpos hindex hc hcb hge
    rw [hresult]
    dsimp only
    rw [hunfree]
    exact ⟨p', none, rfl, .none howns fun r _ x _ _ => by rw [hmem, hgives.mem]⟩
  · -- the memory is the one before, so the old bytes are still there
    rw [hresult]
    dsimp only
    have hmul : mul32 n p'.blksz = n * L.blksz := by
      rw [hsound₂.heap.core.blksz, mul32_of_lt (by omega)]
    have hblocks := hcore.le_BLOCKIFY hsize
    have hle₂ : n * L.blksz ≤ p.BLOCKIFY size * L.blksz :=
      Nat.mul_le_mul_right _ (Nat.le_of_lt hn)
    obtain ⟨howns, hsame⟩ := hsound₂.owns.memcpy hfresh
      (show (bytesAt p'.mem (L.addr b) (n * L.blksz)).length ≤ p.BLOCKIFY size * L.blksz by
        simpa using hle₂)
    rw [hmul]
    refine ⟨_, _, rfl, ?_⟩
    have hsamebytes : SameBytes (R.erase (L.addr b, n * L.blksz)) p.mem p'.mem :=
      fun r _ x _ _ => by rw [hmem, hgives.mem]
    by_cases heq : L.addr b ≠ L.addr d
    · rw [if_pos heq]
      refine .some howns hfresh hblocks.1 ?_ ?_
      · intro r hr x hx hlt
        exact (hsame r hr x hx hlt).trans (hsamebytes r hr x hx hlt)
      · intro i hi
        have hcopy : memcpy p'.mem (L.addr d) (bytesAt p'.mem (L.addr b) (n * L.blksz))
            (L.addr d + i) = p'.mem (L.addr b + i) := memcpy_bytesAt_apply (by omega)
        exact hcopy.trans (by rw [hmem, hgives.mem])
    · rw [if_neg heq]
      refine .some hsound₂.owns hfresh hblocks.1 hsamebytes ?_
      intro i _
      rw [← not_not.mp heq, hmem, hgives.mem]

/-- `__realloc` of a large object to a large one. -/
theorem Sound.reallocBlocks {size : Nat} (h : Sound p L S E blocks run R)
    (hobj : p.table.IsObject b n) (hb : L.infoBlocks < b) (hpos : 0 < size)
    (hsize : size + L.blksz - 1 < 2 ^ 32)
    (hfit : n < p.BLOCKIFY size → p.BlocksFit (p.FreeWith b) (p.BLOCKIFY size)) :
    ∃ p' r, p.reallocBlocks (L.addr b) size = some (p', r) ∧
      Reallocated p L R (L.addr b) (n * L.blksz) size p' r := by
  have hcore := h.heap.core
  have hn := hobj.pos
  have hge := L.blksz_ge
  have hle := h.heap.run_le hobj.toIsRun
  have haddr := hcore.addr_lt (b := b) (by omega) (by omega)
  have hblocks := hcore.le_BLOCKIFY hsize
  have hr : (L.addr b, n * L.blksz) ∈ R := (h.regions _ _).mpr (.object b n hb hobj)
  have hE := hcore.le_limit
  by_cases hlt : n < p.BLOCKIFY size
  · apply h.grow hobj hb ?_ hsize hlt (hfit hlt)
    -- half a block is one block
    by_contra hhalf
    have hmul := Nat.mul_le_mul_right L.blksz (show 2 ≤ p.BLOCKIFY size by omega)
    omega
  · have hm : 0 < p.BLOCKIFY size := by
      by_contra hzero
      rw [Nat.eq_zero_of_not_pos hzero] at hblocks
      omega
    unfold Pool.reallocBlocks
    rw [hcore.BLOCK_addr (by omega) haddr]
    dsimp only
    rw [hobj.size]
    generalize p.BLOCKIFY size = m at *
    by_cases hmn : m < n
    · have haddr' := hcore.addr_lt (b := b + m) (by omega) (by omega)
      have hADDRESS : p.ADDRESS (b + m) = L.addr (b + m) := hcore.ADDRESS_eq (by omega) haddr'
      obtain ⟨p', S', E', hfree, hsound, hmem⟩ := h.shrink hobj hb hm hmn
      rw [if_pos hmn, add32_of_lt (a := b) (by omega), sub32_of_le (b := m) (by omega) (by omega)]
      have hADDRESS' : Pool.ADDRESS { p with
          table := ((p.table.setType (b + m) 0).setSize (b + m) (n - m)).setSize b m
          chunks_used := add32 p.chunks_used 1 } (b + m) = L.addr (b + m) := hADDRESS
      rw [hADDRESS', hfree]
      refine ⟨p', _, rfl, .some hsound.owns ?_ hblocks.1 (fun r _ x _ _ => by rw [hmem])
        fun i _ => by rw [hmem]⟩
      rintro ⟨a, c⟩ hac (rfl : a = L.addr b)
      obtain ⟨hne, hac⟩ := Finset.mem_erase.mp hac
      exact hne (by rw [h.size_eq hac hr])
    · rw [if_neg hmn, if_pos (by omega)]
      have := Nat.mul_le_mul_right L.blksz (show m ≤ n by omega)
      exact ⟨p, _, rfl, h.reallocated_self hr (by omega)⟩

/-! ### All requests -/

/-- `__malloc` of a new region for the bytes of `(a, c)`, which is then freed. -/
theorem Owns.mallocMove {size k : Nat} (h : Owns p L R) (hr : (a, c) ∈ R) {p₁ : Pool} {a' : Nat}
    (halloc : Allocated p L R size p₁ (some a')) (hk : k = min c size) :
    (p₁.moveTo a a' k = none ∧ p.MayReject a) ∨ ∃ p' r, p₁.moveTo a a' k = some (p', r) ∧
      Reallocated p L R a c size p' r := by
  cases halloc with
  | some owns fresh le same ptr =>
    rename_i c'
    refine (owns.moveTo fresh hr (show k ≤ c' by omega)).imp ?_ ?_
    · rintro ⟨hnone, hreject⟩
      refine ⟨hnone, ?_⟩
      unfold Pool.MayReject at hreject ⊢
      rw [owns.place.1] at hreject
      rw [h.place.1]
      omega
    rintro ⟨p', hmove, howns, hsame, hcopied⟩
    refine ⟨p', _, hmove, .some howns ?_ le ?_ ?_⟩
    · exact fun r hr' => fresh r (Finset.mem_of_mem_erase hr')
    · intro r hr' x hx hlt
      rw [hsame r hr' x hx hlt]
      exact same r (Finset.mem_of_mem_erase hr') x hx hlt
    · intro i hi
      rw [hcopied i (by omega)]
      exact same _ hr _ (by dsimp only; omega) (by dsimp only; omega)

/-- `__realloc`. -/
theorem Owns.realloc {size : Nat} (h : Owns p L R) (hr : (a, c) ∈ R)
    (hfits : p.ReallocFits a size) : (p.realloc a size = none ∧ p.MayReject a) ∨
      ∃ p' r, p.realloc a size = some (p', r) ∧ Reallocated p L R a c size p' r := by
  obtain ⟨S, E, blocks, run, h⟩ := h
  have hcore := h.heap.core
  have hge := L.blksz_ge
  have hpow := L.blksz_le
  unfold Pool.ReallocFits Pool.ReallocFitsBy at hfits
  dsimp only at hfits
  unfold Pool.realloc
  dsimp only
  cases h.holds hr with
  | object b n hb hobj =>
    have hpos := hobj.pos
    have hle := h.heap.run_le hobj.toIsRun
    have haddr := hcore.addr_lt (b := b) (by omega) (by omega)
    have htype := hobj.type b (Nat.le_refl b) (by omega)
    rw [hcore.BLOCK_addr (by omega) haddr, if_pos htype, hobj.size, hcore.blksz] at hfits
    rw [hcore.BLOCK_addr (by omega) haddr, if_pos htype, hcore.blksz]
    by_cases hhalf : size ≤ L.blksz / 2
    · rw [if_pos hhalf] at hfits
      rw [if_pos hhalf]
      obtain ⟨p₁, r, hmalloc, halloc⟩ := h.owns.malloc hfits.1
      rw [hmalloc]
      cases r with
      | none =>
        -- no fragment: the object is cut to one block
        cases halloc with
        | none hnot =>
          have hsize : 0 < size := by
            by_contra hzero
            obtain rfl : size = 0 := by omega
            exact hnot (hfits.2 rfl)
          have hblocks := hcore.le_BLOCKIFY (show size + L.blksz - 1 < 2 ^ 32 by omega)
          refine .inr (h.reallocBlocks hobj hb hsize (by omega) fun hlt => ?_)
          have hmul := Nat.mul_le_mul_right L.blksz (show 2 ≤ p.BLOCKIFY size by omega)
          omega
      | some a' =>
        have hmul := Nat.mul_le_mul_right L.blksz hpos
        exact h.owns.mallocMove hr halloc (by omega)
    · rw [if_neg hhalf] at hfits
      rw [if_neg hhalf]
      exact .inr (h.reallocBlocks hobj hb (by omega) hfits.1 hfits.2)
  | frag b log k hfrag hk hnot =>
    obtain ⟨hb, hbE⟩ := hfrag.pos h.heap
    have hlog := h.frags.type b log hfrag
    rw [hcore.BLOCK_frag (by omega) hbE (by omega) hk, hfrag.2.1, if_neg hfrag.2.2] at hfits
    rw [hcore.BLOCK_frag (by omega) hbE (by omega) hk, hfrag.2.1, if_neg hfrag.2.2]
    by_cases hsame : size > 2 ^ (log - 1) ∧ size ≤ 2 ^ log
    · rw [if_pos hsame]
      exact .inr ⟨p, _, rfl, h.reallocated_self hr hsame.2⟩
    · rw [if_neg hsame]
      obtain ⟨p₁, r, hmalloc, halloc⟩ := h.owns.malloc (hfits.resolve_left hsame)
      rw [hmalloc]
      cases r with
      | none =>
        cases halloc with
        | none hnot => exact .inr ⟨p, _, rfl, .none h.owns fun _ _ _ _ _ => rfl⟩
      | some a' => exact h.owns.mallocMove hr halloc (Nat.min_comm _ _)

end

end Hcrtos.Native.Alloc
