import Hcrtos.Spec.AllocMalloc

/-!
# Setting up a pool

`pool_init` puts the header at the start of the range, the info table at the next block boundary,
and marks the blocks that hold the table as one object. Nothing is free and nothing is owned.

## Key results

- `Placed.init`: in a range that holds the header and the table, the new pool is sound
-/

namespace Hcrtos.Native.Alloc

open Word Memory IntrusiveList Table

/-! ### The range -/

/-- Where `pool_init` puts the header. -/
def headerAt (start : Nat) : Nat := (start + 3) / 4 * 4

/-- The top of the pool. -/
def topAt (start size blklog : Nat) : Nat :=
  headerAt start + (size - start % 4) / 2 ^ blklog * 2 ^ blklog

/-- The first address behind the header. -/
def headerEnd (start blklog : Nat) : Nat := headerAt start + 60 + 8 * blklog

/-- Where the info table goes: the next block boundary behind the header. -/
def tableAt (start blklog : Nat) : Nat :=
  (headerEnd start blklog + 2 ^ blklog - 1) / 2 ^ blklog * 2 ^ blklog

/-- The number of entries of the info table. -/
def entries (size blklog : Nat) : Nat := size / 2 ^ blklog

/-- The range is one of the address space, has two blocks, and holds the header and the table.
    Where the table ends with the pool, the pool ends with a block. -/
structure Placed (start size blklog : Nat) : Prop where
  size_lt : size < 2 ^ 32
  offset_le : start % 4 ≤ size
  top_lt : topAt start size blklog < 2 ^ 32
  entries_gt : 1 < entries size blklog
  table_le : tableAt start blklog + 16 * entries size blklog ≤ topAt start size blklog
  table_lt : tableAt start blklog + 16 * entries size blklog < topAt start size blklog ∨
    2 ^ blklog ∣ topAt start size blklog

section

variable {start size blklog : Nat}

theorem tableAt_spec (start blklog : Nat) : headerEnd start blklog ≤ tableAt start blklog ∧
    tableAt start blklog < headerEnd start blklog + 2 ^ blklog ∧
    2 ^ blklog ∣ tableAt start blklog := by
  have hpow := Nat.two_pow_pos blklog
  have hdiv := Nat.div_add_mod (headerEnd start blklog + 2 ^ blklog - 1) (2 ^ blklog)
  have hmod := Nat.mod_lt (headerEnd start blklog + 2 ^ blklog - 1) hpow
  rw [Nat.mul_comm] at hdiv
  unfold tableAt
  refine ⟨by omega, by omega, Nat.dvd_mul_left _ _⟩

theorem topAt_le (start size blklog : Nat) : entries size blklog * 2 ^ blklog ≤ size ∧
    topAt start size blklog ≤ headerAt start + entries size blklog * 2 ^ blklog := by
  refine ⟨Nat.div_mul_le_self _ _, ?_⟩
  have hle : (size - start % 4) / 2 ^ blklog ≤ size / 2 ^ blklog :=
    Nat.div_le_div_right (Nat.sub_le _ _)
  have := Nat.mul_le_mul_right (2 ^ blklog) hle
  unfold topAt entries
  omega

/-- Blocks have at least 32 bytes, since an entry of the table has 16. -/
theorem Placed.blklog_ge (h : Placed start size blklog) : 5 ≤ blklog := by
  have htable := h.table_le
  have htop := (topAt_le start size blklog).2
  have hspec := (tableAt_spec start blklog).1
  unfold headerEnd at hspec
  have hlt : 16 * entries size blklog < entries size blklog * 2 ^ blklog := by omega
  by_contra hsmall
  have hpow : 2 ^ blklog ≤ 2 ^ 4 := Nat.pow_le_pow_right (by decide) (by omega)
  have := Nat.mul_le_mul_left (entries size blklog) hpow
  omega

/-- The number of blocks that the table takes. -/
def tableBlocks (size blklog : Nat) : Nat :=
  (16 * entries size blklog + 2 ^ blklog - 1) / 2 ^ blklog

theorem tableBlocks_spec (size blklog : Nat) :
    16 * entries size blklog ≤ tableBlocks size blklog * 2 ^ blklog ∧
    tableBlocks size blklog * 2 ^ blklog < 16 * entries size blklog + 2 ^ blklog := by
  have hpow := Nat.two_pow_pos blklog
  have hdiv := Nat.div_add_mod (16 * entries size blklog + 2 ^ blklog - 1) (2 ^ blklog)
  have hmod := Nat.mod_lt (16 * entries size blklog + 2 ^ blklog - 1) hpow
  rw [Nat.mul_comm] at hdiv
  unfold tableBlocks
  omega

/-- The place of the new pool. -/
def Placed.layout (h : Placed start size blklog) : Layout where
  self := headerAt start
  base := tableAt start blklog
  top := topAt start size blklog
  log := blklog
  infoBlocks := tableBlocks size blklog
  infoSize := entries size blklog
  log_ge := h.blklog_ge
  head_le := (tableAt_spec start blklog).1
  base_dvd := (tableAt_spec start blklog).2.2
  base_le := by
    have := h.table_le
    omega
  top_lt := h.top_lt
  top_le := by
    have hspec := (tableAt_spec start blklog).1
    have := (topAt_le start size blklog).2
    unfold headerEnd at hspec
    omega
  infoSize_le := by
    have hpow : 2 ^ 5 ≤ 2 ^ blklog := Nat.pow_le_pow_right (by decide) h.blklog_ge
    have hmul := Nat.mul_le_mul_left (entries size blklog) hpow
    have := (topAt_le start size blklog).1
    have := h.size_lt
    omega
  infoBlocks_pos := by
    have hspec := (tableBlocks_spec size blklog).1
    have := h.entries_gt
    by_contra hzero
    rw [Nat.eq_zero_of_not_pos hzero] at hspec
    omega
  infoBlocks_lt := by
    have hspec := (tableBlocks_spec size blklog).2
    have hpow : 2 ^ 5 ≤ 2 ^ blklog := Nat.pow_le_pow_right (by decide) h.blklog_ge
    have hgt := h.entries_gt
    by_contra hge
    have hmul := Nat.mul_le_mul_right (2 ^ blklog) (Nat.le_of_not_lt hge)
    have hmul' := Nat.mul_le_mul_left (entries size blklog - 1) hpow
    obtain ⟨e, he⟩ : ∃ e, entries size blklog = e + 1 := ⟨entries size blklog - 1, by omega⟩
    rw [he, Nat.add_sub_cancel] at hmul'
    rw [he, Nat.succ_mul] at hmul
    omega
  info_le := (tableBlocks_spec size blklog).1
  lt_info := by
    have hspec := (tableBlocks_spec size blklog).2
    have := h.entries_gt
    have := Nat.two_pow_pos blklog
    rw [Nat.sub_mul, Nat.one_mul]
    omega
  info_top := h.table_le

/-! ### The new pool -/

/-- The header that `pool_init` writes, before it allocates the table. -/
def header (m : Mem) (start size blklog : Nat) : Pool :=
  { self := headerAt start, base := 0, top := topAt start size blklog
    ptr := headerEnd start blklog, size := 0, info := 0, info_end := 0
    info_size := entries size blklog, info_index := 0, info_limit := 0, chunks_used := 0
    bytes_used := 0, chunks_free := 0, bytes_free := 0, blklog := blklog, blksz := 2 ^ blklog
    table := fun _ => ⟨0, 0, 0, 0⟩
    mem := memcpy m (headerAt start) (List.replicate (60 + blklog * 8) 0) }

/-- The pool with the table, once it has its memory. -/
def withTable (p : Pool) (info bytes : Nat) : Pool :=
  let p := { p with
    info := info
    info_end := add32 info bytes
    base := info
    size := sub32 p.top info
    bytes_used := bytes
    chunks_used := 1 }
  { p with table := p.table.setObject (p.BLOCK p.info) (p.BLOCKIFY bytes) }

variable (h : Placed start size blklog)
include h

/-- The header comes first, whatever the alignment of the range. -/
theorem Placed.init_eq (m : Mem) : Pool.init m start size blklog =
    match (header m start size blklog).align (mul32 (entries size blklog) 16) with
    | (_, none) => none
    | (p, some info) => some (withTable p info (mul32 (entries size blklog) 16)) := by
  have htop := h.top_lt
  have hoff := h.offset_le
  have hsize := h.size_lt
  have hpow := Nat.two_pow_pos blklog
  have htable := h.table_le
  have hspec := (tableAt_spec start blklog).1
  have hle : headerAt start ≤ topAt start size blklog := Nat.le_add_right _ _
  unfold headerEnd at hspec
  have hstart : add32 start 3 / 4 * 4 = headerAt start := by
    have hle' := hle
    unfold headerAt at hle' ⊢
    rw [add32_of_lt (by omega)]
  have hheader : (headerAt start + (size - start % 4) / 2 ^ blklog * 2 ^ blklog) =
      topAt start size blklog := rfl
  unfold Pool.init
  dsimp only
  rw [hstart, sub32_of_le hoff hsize, add32_of_lt (by rw [hheader]; exact htop),
    add32_of_lt (by omega), hheader]
  have heq : headerAt start + (60 + blklog * 8) = headerEnd start blklog := by
    unfold headerEnd
    omega
  rw [heq]
  rfl

/-- The table starts at the first block boundary behind the header. -/
theorem Placed.align_eq (m : Mem) : ∃ ptr, (header m start size blklog).align
      (mul32 (entries size blklog) 16) =
        ({ header m start size blklog with ptr := ptr }, some (tableAt start blklog)) ∧
    ptr < topAt start size blklog ∧
    (ptr = tableAt start blklog + 16 * entries size blklog ∨
      (tableAt start blklog + 16 * entries size blklog = topAt start size blklog ∧
        topAt start size blklog < ptr + 2 ^ blklog)) := by
  have htop := h.top_lt
  have htable := h.table_le
  obtain ⟨hle, hlt, hdvd⟩ := tableAt_spec start blklog
  have hpow := Nat.two_pow_pos blklog
  have hpow32 : 2 ^ 5 ≤ 2 ^ blklog := Nat.pow_le_pow_right (by decide) h.blklog_ge
  have h16 : entries size blklog * 16 < 2 ^ 32 := by omega
  have hmod := mod_of_next hdvd hle hlt
  -- a header that ends at a block boundary is not at one
  have hfit : headerEnd start blklog + entries size blklog * 16 < topAt start size blklog := by
    rcases h.table_lt with hlt' | hdvd'
    · omega
    · have h8 : 8 ∣ 2 ^ blklog := Nat.pow_dvd_pow 2 (show 3 ≤ blklog by have := h.blklog_ge; omega)
      have hself : 8 ∣ headerAt start := by
        apply Nat.dvd_trans h8
        exact (Nat.dvd_add_left (Nat.dvd_mul_left _ _)).mp hdvd'
      have htable8 : 8 ∣ tableAt start blklog := Nat.dvd_trans h8 hdvd
      unfold headerEnd at hle ⊢
      omega
  have hsbrk : (header m start size blklog).sbrk (entries size blklog * 16) =
      ({ header m start size blklog with
        ptr := headerEnd start blklog + entries size blklog * 16 },
        some (headerEnd start blklog)) :=
    by exact Pool.sbrk_of_lt hfit htop
  unfold Pool.align
  rw [mul32_of_lt h16, if_neg (by unfold UINT_MAX; omega), hsbrk]
  dsimp only [header]
  rw [hmod]
  by_cases heq : headerEnd start blklog = tableAt start blklog
  · rw [if_pos heq, if_neg (by decide), heq]
    exact ⟨_, rfl, by omega, .inl (by omega)⟩
  · have hadj : 2 ^ blklog - (2 ^ blklog - (tableAt start blklog - headerEnd start blklog)) =
        tableAt start blklog - headerEnd start blklog := by omega
    rw [if_neg heq, if_pos (by omega), hadj, add32_of_lt (by omega),
      show headerEnd start blklog + (tableAt start blklog - headerEnd start blklog) =
        tableAt start blklog by omega]
    by_cases hfits : headerEnd start blklog + entries size blklog * 16 +
        (tableAt start blklog - headerEnd start blklog) < topAt start size blklog
    · rw [Pool.sbrk_of_lt hfits htop]
      exact ⟨_, rfl, hfits, .inl (by dsimp only; omega)⟩
    · rw [Pool.sbrk_of_le (Nat.le_of_not_lt hfits) (by dsimp only; omega)]
      exact ⟨_, rfl, hfit, .inr ⟨by omega, by omega⟩⟩

omit h in
/-- The lists of fragments in a new header are empty. -/
theorem next_header (m : Mem) {log : Nat} (hlog : log < blklog) :
    next (header m start size blklog).mem (headerAt start + 60 + 8 * log) = 0 := by
  have hzero : ∀ i < 4, (header m start size blklog).mem (headerAt start + 60 + 8 * log + i) = 0 := by
    intro i hi
    dsimp only [header, memcpy]
    rw [if_pos (by rw [List.length_replicate]; omega), List.getD_eq_getElem?_getD,
      List.getElem?_replicate]
    split <;> rfl
  unfold next load32
  rw [hzero 1 (by decide), hzero 2 (by decide), hzero 3 (by decide),
    show (header m start size blklog).mem (headerAt start + 60 + 8 * log) = 0 from
      hzero 0 (by decide)]
  rfl

/-- The core of the new pool ends with the blocks of the table. -/
theorem Placed.core (m : Mem) {ptr : Nat} (hptr : ptr < topAt start size blklog)
    (hcase : ptr = tableAt start blklog + 16 * entries size blklog ∨
      (tableAt start blklog + 16 * entries size blklog = topAt start size blklog ∧
        topAt start size blklog < ptr + 2 ^ blklog)) :
    Pool.Core (withTable { header m start size blklog with ptr := ptr } (tableAt start blklog)
      (16 * entries size blklog)) h.layout (h.layout.infoBlocks + 1) := by
  have hinfo : 16 * entries size blklog ≤ tableBlocks size blklog * 2 ^ blklog :=
    (tableBlocks_spec size blklog).1
  have hlt : tableBlocks size blklog * 2 ^ blklog < 16 * entries size blklog + 2 ^ blklog :=
    (tableBlocks_spec size blklog).2
  have htable := h.table_le
  have htop := h.top_lt
  have haddr : h.layout.addr (h.layout.infoBlocks + 1) =
      tableAt start blklog + tableBlocks size blklog * 2 ^ blklog := rfl
  constructor
  · rfl
  · rfl
  · rfl
  · rfl
  · exact add32_of_lt (by omega)
  · rfl
  · rfl
  · rfl
  · exact hptr
  · rw [haddr]
    dsimp only [withTable]
    omega
  · rw [haddr]
    show _ < ptr + 2 ^ blklog
    rcases hcase with rfl | ⟨heq, hlt'⟩
    · omega
    · -- the table fills its blocks
      rcases h.table_lt with hne | hdvd
      · omega
      · rw [← heq] at hdvd
        obtain ⟨j, hj⟩ := (Nat.dvd_add_right (tableAt_spec start blklog).2.2).mp hdvd
        rw [hj, ← Nat.mul_succ, Nat.mul_comm (2 ^ blklog)] at hlt
        have hle := Nat.lt_of_mul_lt_mul_right hlt
        have := Nat.mul_le_mul_right (2 ^ blklog) (Nat.le_of_lt_succ hle)
        rw [Nat.mul_comm (2 ^ blklog) j] at hj
        omega
  · intro hgt
    omega
  · omega

/-- The new pool is sound. -/
theorem Placed.init (m : Mem) : ∃ p, Pool.init m start size blklog = some p ∧
    Owns p h.layout ∅ := by
  obtain ⟨ptr, halign, hptr, hcase⟩ := h.align_eq m
  have hcore := h.core m hptr hcase
  have hpos := h.layout.infoBlocks_pos
  have hblocks := h.layout.infoBlocks_lt
  have hsize := h.layout.infoSize_le
  have htop : h.layout.base + 16 * entries size blklog ≤ h.layout.top := h.layout.info_top
  have htop' := h.layout.top_lt
  have hpow := h.layout.blksz_le
  have hbase := h.layout.base_le
  have hbytes : mul32 (entries size blklog) 16 = 16 * entries size blklog := by
    rw [mul32_of_lt (by omega), Nat.mul_comm]
  rw [h.init_eq m, halign, hbytes]
  dsimp only
  generalize hp : withTable { header m start size blklog with ptr := ptr } (tableAt start blklog)
    (16 * entries size blklog) = p at *
  refine ⟨p, rfl, ∅, h.layout.infoBlocks + 1, fun _ => [], fun _ => [], ?_⟩
  -- the table has the object at its start, and nothing else
  have hblock : p.BLOCK (tableAt start blklog) = 1 := by
    have haddr : h.layout.addr 1 = tableAt start blklog := by
      unfold Layout.addr
      rw [Nat.sub_self, Nat.zero_mul]
      rfl
    have htable := h.table_le
    have := h.top_lt
    have hone := hcore.BLOCK_addr (b := 1) (by omega) (by rw [haddr]; omega)
    rwa [haddr] at hone
  have hBLOCKIFY : p.BLOCKIFY (16 * entries size blklog) = h.layout.infoBlocks := by
    have hle := h.layout.blksz_le_base
    exact hcore.BLOCKIFY_eq (by omega)
  have htable : p.table = Table.setObject (fun _ => ⟨0, 0, 0, 0⟩) 1 h.layout.infoBlocks := by
    rw [← hblock, ← hBLOCKIFY, ← hp]
    rfl
  have houtside : ∀ i, i = 0 ∨ h.layout.infoBlocks < i → p.table i = ⟨0, 0, 0, 0⟩ := by
    intro i hi
    rw [htable, setObject_of_outside hpos (by omega) (by omega)]
  have hobj : p.table.IsObject 1 h.layout.infoBlocks := by
    rw [htable]
    exact isObject_setObject hpos (by omega)
  have hnofrag : ∀ b log, ¬ Fragmented p.table b log := by
    intro b log hfrag
    have hout := hfrag.outside hobj.toIsRun
    have hone := hfrag.1
    rw [houtside b (by omega)] at hone
    contradiction
  have hbusy : ∀ b, h.layout.infoBlocks < b → (p.table b).status ≠ 1 := by
    intro b hb
    rw [houtside b (.inr hb)]
    decide
  have hspare : ∀ b, spare (p.table b) = 0 ∧ spareSize (p.table b) = 0 := fun b =>
    spare_of_not fun log => hnofrag b log
  refine ⟨⟨hcore, ?_, ?_, hobj⟩, ?_, ?_, ?_, ?_, ?_, ?_⟩
  · constructor
    · constructor <;> simp [houtside 0 (.inl rfl)]
    · rw [houtside 0 (.inl rfl)]
      exact ⟨rfl, rfl⟩
    · simp
    · simp
    · simp
    · simp
    · intro b hb hlt
      exact .inl (hobj.status b hb (by omega))
    · intro b hb
      rw [houtside b (by omega)]
  · rw [← hp]
    exact Finset.mem_insert_self _ _
  · rw [← hp]
    exact .inr ⟨rfl, rfl⟩
  · constructor
    · exact fun b log hfrag => absurd hfrag (hnofrag b log)
    · intro log _ hlog
      have hnext : next (header m start size blklog).mem (headerAt start + 60 + 8 * log) = 0 :=
        next_header m hlog
      rw [← hp]
      exact hnext
    · exact fun _ => List.nodup_nil
    · simp
    · exact fun b log hfrag => absurd hfrag (hnofrag b log)
    · exact fun b log hfrag => absurd hfrag (hnofrag b log)
    · exact fun b log hfrag => absurd hfrag (hnofrag b log)
    · exact fun b log hfrag => absurd hfrag (hnofrag b log)
  · exact fun b hb hone => absurd hone (hbusy b hb)
  · intro a c
    constructor
    · simp
    · intro hold
      cases hold with
      | object b n hb hobj' => exact absurd (hobj'.status b (Nat.le_refl b)
          (by have := hobj'.pos; omega)) (hbusy b hb)
      | frag b log k hfrag => exact absurd hfrag (hnofrag b log)
  · constructor
    · rw [← hp]
      simp [withTable]
    · rw [← hp]
      simp [withTable, Placed.layout]
    · rw [Finset.sum_eq_zero fun b _ => by rw [(hspare b).1, Nat.cast_zero], ← hp]
      simp [withTable, header, Pool.spareChunks]
    · rw [Finset.sum_eq_zero fun b _ => by rw [(hspare b).2, Nat.cast_zero], ← hp]
      simp [withTable, header, Pool.spareBytes]
    · rw [← hp]
      exact ⟨show 1 < 2 ^ 32 by decide, show 16 * entries size blklog < 2 ^ 32 by omega,
        show 0 < 2 ^ 32 by decide, show 0 < 2 ^ 32 by decide⟩
  · intro i hi
    exact houtside i (by omega)

end

end Hcrtos.Native.Alloc
