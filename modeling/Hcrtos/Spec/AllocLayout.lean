import Mathlib.Tactic.Ring
import Hcrtos.Native.Alloc

/-!
# The core of a pool

Where a pool lies in the memory never changes. The core grows and shrinks by whole blocks: it
reaches up to the block `E`, and `ptr` is less than a block before it, since the pointer is not
aligned until the core has grown once.

## Key results

- `Core.BLOCK_eq`, `Core.ADDRESS_eq`: numbers and addresses of blocks
- `Core.morecore_eq`: the core grows by whole blocks, and the info table never moves
- `Core.sbrk_neg`, `Core.shrink`: the core shrinks by its last blocks
-/

namespace Hcrtos.Native.Alloc

open Word

/-- The place of a pool: the header at `self`, the blocks from `base` on, and the blocks at
    their start that hold the info table. -/
structure Layout where
  self : Nat
  base : Nat
  top : Nat
  log : Nat
  infoBlocks : Nat
  infoSize : Nat
  log_ge : 5 ≤ log
  head_le : self + 60 + 8 * log ≤ base
  base_dvd : 2 ^ log ∣ base
  base_le : base ≤ top
  top_lt : top < 2 ^ 32
  top_le : top < base + infoSize * 2 ^ log
  infoSize_le : infoSize ≤ 2 ^ 27
  infoBlocks_pos : 0 < infoBlocks
  infoBlocks_lt : infoBlocks < infoSize
  info_le : 16 * infoSize ≤ infoBlocks * 2 ^ log
  lt_info : (infoBlocks - 1) * 2 ^ log < 16 * infoSize
  info_top : base + 16 * infoSize ≤ top

namespace Layout

variable (L : Layout) {b c n : Nat}

/-- The size of a block. -/
def blksz : Nat := 2 ^ L.log

/-- The address of a block. -/
def addr (b : Nat) : Nat := L.base + (b - 1) * L.blksz

theorem blksz_ge : 32 ≤ L.blksz :=
  le_trans (by decide : 32 ≤ 2 ^ 5) (Nat.pow_le_pow_right (by decide) L.log_ge)

theorem base_pos : 0 < L.base := by
  have := L.head_le
  omega

theorem blksz_le_base : L.blksz ≤ L.base := Nat.le_of_dvd L.base_pos L.base_dvd

theorem log_lt : L.log < 32 := by
  have := L.blksz_le_base
  have := L.base_le
  have := L.top_lt
  exact (Nat.pow_lt_pow_iff_right (show 1 < 2 by decide)).mp (show L.blksz < 2 ^ 32 by omega)

theorem blksz_le : L.blksz ≤ 2 ^ 31 :=
  Nat.pow_le_pow_right (by decide) (Nat.le_of_lt_succ L.log_lt)

theorem blksz_lt : L.blksz < 2 ^ 32 := by
  have := L.blksz_le
  omega

theorem addr_add (hb : 0 < b) (n : Nat) : L.addr (b + n) = L.addr b + n * L.blksz := by
  unfold addr
  rw [show b + n - 1 = (b - 1) + n by omega, Nat.add_mul]
  omega

theorem addr_succ (hb : 0 < b) : L.addr (b + 1) = L.addr b + L.blksz := by
  rw [L.addr_add hb, Nat.one_mul]

theorem base_le_addr : L.base ≤ L.addr b := Nat.le_add_right _ _

theorem addr_le (hb : 0 < b) (hbc : b ≤ c) : L.addr b ≤ L.addr c := by
  obtain ⟨n, rfl⟩ := Nat.exists_eq_add_of_le hbc
  rw [L.addr_add hb]
  omega

/-- Different blocks are apart. -/
theorem addr_add_le (hb : 0 < b) (hbc : b + n ≤ c) : L.addr b + n * L.blksz ≤ L.addr c := by
  rw [← L.addr_add hb]
  exact L.addr_le (by omega) hbc

/-- Where a block starts is a multiple of the size. -/
theorem addr_dvd : L.blksz ∣ L.addr b :=
  (Nat.dvd_add_right L.base_dvd).mpr (Nat.dvd_mul_left _ _)

/-- The last block of the info table may be the last one of the address space. -/
theorem info_addr_le : L.addr (L.infoBlocks + 1) ≤ 2 ^ 32 := by
  have hlt : (L.infoBlocks - 1) * L.blksz < 16 * L.infoSize := L.lt_info
  have htop := L.info_top
  have htop' := L.top_lt
  have hsucc := L.addr_succ L.infoBlocks_pos
  obtain ⟨k, hk⟩ := L.addr_dvd (b := L.infoBlocks)
  obtain ⟨q, hq⟩ : L.blksz ∣ 2 ^ 32 := Nat.pow_dvd_pow 2 (Nat.le_of_lt L.log_lt)
  have haddr : L.addr L.infoBlocks < 2 ^ 32 := by
    unfold addr
    omega
  -- both are multiples of the size of a block
  rw [hk, hq] at haddr
  have hkq := Nat.lt_of_mul_lt_mul_left haddr
  have hmul := Nat.mul_le_mul_left L.blksz (Nat.succ_le_of_lt hkq)
  rw [Nat.mul_succ] at hmul
  omega

theorem addr_lt_cancel (h : L.addr b < L.addr c) : b < c := by
  by_contra hle
  by_cases hc : 0 < c
  · have := L.addr_le hc (Nat.le_of_not_lt hle)
    omega
  · obtain rfl : c = 0 := by omega
    have : L.addr 0 = L.base := by simp [addr]
    have := L.base_le_addr (b := b)
    omega

theorem addr_inj (hb : 0 < b) (hc : 0 < c) (h : L.addr b = L.addr c) : b = c := by
  have hge := L.blksz_ge
  rcases Nat.lt_trichotomy b c with hlt | heq | hgt
  · have := L.addr_add_le (b := b) (n := 1) hb hlt
    omega
  · exact heq
  · have := L.addr_add_le (b := c) (n := 1) hc hgt
    omega

/-- A block holds the addresses from its own up to the next one. -/
theorem block_eq {a : Nat} (hb : 0 < b) (hle : L.addr b ≤ a) (hlt : a < L.addr b + L.blksz) :
    (a - L.base) / L.blksz + 1 = b := by
  have hpos := L.blksz_ge
  have hdiv : (a - L.base) / L.blksz = b - 1 := by
    unfold addr at hle hlt
    rw [Nat.div_eq_iff (by omega)]
    omega
  omega

/-! ### Fragments -/

/-- The head of the list of free fragments of a size. -/
def head (log : Nat) : Nat := L.self + 60 + 8 * log

/-- The fragments of a block. -/
def count (log : Nat) : Nat := 2 ^ (L.log - log)

/-- The address of a fragment. -/
def frag (b log k : Nat) : Nat := L.addr b + k * 2 ^ log

variable {log k : Nat}

theorem count_mul (hlog : log ≤ L.log) : L.count log * 2 ^ log = L.blksz := by
  unfold count blksz
  rw [← Nat.pow_add, Nat.sub_add_cancel hlog]

theorem count_pos : 0 < L.count log := Nat.two_pow_pos _

/-- The fragments lie in their block. -/
theorem frag_add_le (hlog : log ≤ L.log) (hk : k < L.count log) :
    L.frag b log k + 2 ^ log ≤ L.addr b + L.blksz := by
  have hmul := Nat.mul_le_mul_right (2 ^ log) (Nat.succ_le_of_lt hk)
  rw [L.count_mul hlog, Nat.succ_mul] at hmul
  unfold frag
  omega

theorem addr_le_frag : L.addr b ≤ L.frag b log k := Nat.le_add_right _ _

/-- The number of a fragment is read off its address. -/
theorem frag_mod (hlog : log ≤ L.log) (hk : k < L.count log) :
    L.frag b log k % L.blksz / 2 ^ log = k := by
  have hle := L.frag_add_le (b := b) hlog hk
  have hpow := Nat.two_pow_pos log
  obtain ⟨c, hc⟩ := L.addr_dvd (b := b)
  unfold frag at hle ⊢
  rw [hc, Nat.mul_add_mod, Nat.mod_eq_of_lt (by omega), Nat.mul_div_cancel _ hpow]

theorem frag_dvd (hlog : log ≤ L.log) : 2 ^ log ∣ L.frag b log k :=
  Nat.dvd_add (Nat.dvd_trans (Nat.pow_dvd_pow 2 hlog) L.addr_dvd) (Nat.dvd_mul_left _ _)

/-- Different fragments of a block are apart. -/
theorem frag_add_le_frag {k' : Nat} (hlt : k < k') :
    L.frag b log k + 2 ^ log ≤ L.frag b log k' := by
  have hmul := Nat.mul_le_mul_right (2 ^ log) (Nat.succ_le_of_lt hlt)
  rw [Nat.succ_mul] at hmul
  unfold frag
  omega

end Layout

/-- How far an address is from the next multiple. -/
theorem mod_of_next {a e k : Nat} (he : k ∣ e) (hle : a ≤ e) (hlt : e < a + k) :
    a % k = if a = e then 0 else k - (e - a) := by
  obtain ⟨j, rfl⟩ := he
  split
  · next heq => rw [heq, Nat.mul_mod_right]
  · next hne =>
    obtain ⟨j, rfl⟩ : ∃ j', j = j' + 1 := ⟨j - 1, by
      rcases Nat.eq_zero_or_pos j with rfl | hpos
      · omega
      · omega⟩
    rw [Nat.mul_add, Nat.mul_one] at *
    rw [show a = (k - (k * j + k - a)) + k * j by omega,
      Nat.add_mul_mod_self_left, Nat.mod_eq_of_lt (by omega)]
    omega

namespace Pool

/-- The pool is at its place, and its core reaches up to the block `E`. -/
structure Core (p : Pool) (L : Layout) (E : Nat) : Prop where
  self : p.self = L.self
  base : p.base = L.base
  top : p.top = L.top
  info : p.info = L.base
  info_end : p.info_end = L.base + 16 * L.infoSize
  info_size : p.info_size = L.infoSize
  blklog : p.blklog = L.log
  blksz : p.blksz = L.blksz
  ptr_lt : p.ptr < L.top
  ptr_le : p.ptr ≤ L.addr E
  lt_ptr : L.addr E < p.ptr + L.blksz
  end_le : L.infoBlocks + 1 < E → L.addr E ≤ L.top
  infoBlocks_lt : L.infoBlocks < E

section

variable {p : Pool} {L : Layout} {E b n : Nat}

/-- The table, the memory and the counters are no part of it. -/
theorem Core.update (h : p.Core L E) (table : Table) (mem : Memory.Mem)
    (index limit chunksUsed bytesUsed chunksFree bytesFree : Nat) :
    Core { p with
      table := table, mem := mem, info_index := index, info_limit := limit
      chunks_used := chunksUsed, bytes_used := bytesUsed
      chunks_free := chunksFree, bytes_free := bytesFree } L E :=
  { h with }

theorem Core.pos (h : p.Core L E) : 0 < E := by
  have := h.infoBlocks_lt
  omega

/-- The table has an entry for each block of the core, and for entry 0. -/
theorem Core.le_infoSize (h : p.Core L E) : E ≤ L.infoSize := by
  obtain heq | hgt := Nat.eq_or_lt_of_le (Nat.succ_le_of_lt h.infoBlocks_lt)
  · have := L.infoBlocks_lt
    omega
  have hend := h.end_le hgt
  have htop : L.top < L.base + L.infoSize * L.blksz := L.top_le
  have hlt : (E - 1) * L.blksz < L.infoSize * L.blksz := by
    unfold Layout.addr at hend
    omega
  have := Nat.lt_of_mul_lt_mul_right hlt
  omega

theorem Core.le_limit (h : p.Core L E) : E ≤ 2 ^ 31 := by
  have := h.le_infoSize
  have := L.infoSize_le
  omega

/-- A core with more blocks than those of the info table ends in the pool. -/
theorem Core.end_lt (h : p.Core L E) (hE : L.infoBlocks + 1 < E) : L.addr E < 2 ^ 32 := by
  have := h.end_le hE
  have := L.top_lt
  omega

theorem Core.end_le_word (h : p.Core L E) : L.addr E ≤ 2 ^ 32 := by
  obtain heq | hgt := Nat.eq_or_lt_of_le (Nat.succ_le_of_lt h.infoBlocks_lt)
  · rw [← heq]
    exact L.info_addr_le
  · exact Nat.le_of_lt (h.end_lt hgt)

theorem Core.addr_lt (h : p.Core L E) (hb : 0 < b) (hbE : b < E) : L.addr b < 2 ^ 32 := by
  have := L.blksz_ge
  have := L.addr_succ hb
  have := L.addr_le (b := b + 1) (by omega) hbE
  have := h.end_le_word
  omega

theorem Core.BLOCK_eq (h : p.Core L E) {a : Nat} (hb : 0 < b) (hle : L.addr b ≤ a)
    (hlt : a < L.addr b + L.blksz) (ha : a < 2 ^ 32) : p.BLOCK a = b := by
  have hbase := L.base_le_addr (b := b)
  unfold BLOCK
  rw [h.base, h.blksz, sub32_of_le (by omega) ha]
  exact L.block_eq hb hle hlt

theorem Core.BLOCK_addr (h : p.Core L E) (hb : 0 < b) (hlt : L.addr b < 2 ^ 32) :
    p.BLOCK (L.addr b) = b := by
  have := L.blksz_ge
  exact h.BLOCK_eq hb (Nat.le_refl _) (by omega) hlt

theorem Core.ADDRESS_eq (h : p.Core L E) (hb : 0 < b) (hlt : L.addr b < 2 ^ 32) :
    p.ADDRESS b = L.addr b := by
  have hge := L.blksz_ge
  have hmul : (b - 1) * 32 ≤ (b - 1) * L.blksz := Nat.mul_le_mul_left _ hge
  unfold Layout.addr at hlt
  unfold ADDRESS Layout.addr
  rw [h.base, h.blksz, sub32_of_le (show 1 ≤ b from hb) (by omega), mul32_of_lt (by omega),
    add32_of_lt hlt]

theorem Core.BLOCK_frag (h : p.Core L E) {log k : Nat} (hb : 0 < b) (hbE : b < E)
    (hlog : log ≤ L.log) (hk : k < L.count log) : p.BLOCK (L.frag b log k) = b := by
  have hpow := Nat.two_pow_pos log
  have hle := L.frag_add_le (b := b) hlog hk
  have hlt := L.addr_le (b := b + 1) (by omega) hbE
  have hend := h.end_le_word
  rw [L.addr_succ hb] at hlt
  exact h.BLOCK_eq hb L.addr_le_frag (by omega) (by omega)

theorem Core.frag_eq (h : p.Core L E) (log : Nat) : p.frag log = L.head log := by
  unfold Pool.frag Layout.head
  rw [h.self]

theorem Core.fragCount_eq (h : p.Core L E) {log : Nat} (hlog : log ≤ L.log) :
    p.fragCount log = L.count log := by
  unfold fragCount Layout.count
  rw [h.blksz]
  exact Nat.pow_div hlog (by decide)

/-- Rounding up to whole blocks. -/
theorem Core.BLOCKIFY_eq (h : p.Core L E) {size : Nat} (hsize : size + L.blksz - 1 < 2 ^ 32) :
    p.BLOCKIFY size = (size + L.blksz - 1) / L.blksz := by
  have hge := L.blksz_ge
  have hsum : sub32 (add32 size L.blksz) 1 = size + L.blksz - 1 := by
    unfold add32 sub32
    omega
  unfold BLOCKIFY
  rw [h.blksz, hsum]

theorem Core.le_BLOCKIFY (h : p.Core L E) {size : Nat} (hsize : size + L.blksz - 1 < 2 ^ 32) :
    size ≤ p.BLOCKIFY size * L.blksz ∧ p.BLOCKIFY size * L.blksz < size + L.blksz := by
  have hge := L.blksz_ge
  have hdiv := Nat.div_add_mod (size + L.blksz - 1) L.blksz
  have hmod := Nat.mod_lt (size + L.blksz - 1) (show L.blksz > 0 by omega)
  rw [h.BLOCKIFY_eq hsize]
  rw [Nat.mul_comm] at hdiv
  omega

theorem Core.BLOCKIFY_mul (h : p.Core L E) (hn : n * L.blksz + L.blksz - 1 < 2 ^ 32) :
    p.BLOCKIFY (n * L.blksz) = n := by
  have hge := L.blksz_ge
  rw [h.BLOCKIFY_eq hn, Nat.div_eq_iff (by omega)]
  omega

/-! ### The end of the core -/

theorem sbrk_of_lt (h : p.ptr + n < p.top) (h32 : p.top < 2 ^ 32) :
    p.sbrk n = ({ p with ptr := p.ptr + n }, some p.ptr) := by
  unfold sbrk
  rw [add32_of_lt (by omega), if_pos h]

theorem sbrk_of_le (h : p.top ≤ p.ptr + n) (hlt : p.ptr + n < 2 ^ 32) : p.sbrk n = (p, none) := by
  unfold sbrk
  rw [add32_of_lt hlt, if_neg (by omega)]

theorem Core.sbrk_zero (h : p.Core L E) : (p.sbrk 0).2 = some p.ptr := by
  have := h.ptr_lt
  have := L.top_lt
  rw [sbrk_of_lt (by rw [h.top]; omega) (by rw [h.top]; omega)]

/-- How far the end is from the next block. -/
theorem Core.ptr_mod (h : p.Core L E) :
    p.ptr % L.blksz = if p.ptr = L.addr E then 0 else L.blksz - (L.addr E - p.ptr) :=
  mod_of_next L.addr_dvd h.ptr_le h.lt_ptr

/-- The end of the core. -/
def endOfCore (p : Pool) : Nat := (p.ptr + p.blksz - 1) / p.blksz * p.blksz

theorem Core.endOfCore_eq (h : p.Core L E) : p.endOfCore = L.addr E := by
  have hge := L.blksz_ge
  have hle := h.ptr_le
  have hlt := h.lt_ptr
  obtain ⟨k, hk⟩ := L.addr_dvd (b := E)
  have hdiv : (p.ptr + L.blksz - 1) / L.blksz = k := by
    rw [Nat.div_eq_iff (by omega)]
    rw [Nat.mul_comm] at hk
    omega
  unfold endOfCore
  rw [h.blksz, hdiv, hk, Nat.mul_comm]

/-- Where `__sbrk` has room for up to `n` blocks, the core that grew by them ends in the pool. -/
def Whole (p : Pool) (n : Nat) : Prop :=
  ∀ m, 0 < m → m ≤ n → p.ptr + m * p.blksz < p.top → p.endOfCore + m * p.blksz ≤ p.top

/-- So it does in a pool that ends with a block. -/
theorem Core.whole_of_dvd (h : p.Core L E) (htop : L.blksz ∣ L.top) : p.Whole n := by
  intro m _ _ hlt
  have hlt' := h.lt_ptr
  rw [h.blksz, h.top] at hlt ⊢
  rw [h.endOfCore_eq]
  obtain ⟨k, hk⟩ := L.addr_dvd (b := E)
  obtain ⟨j, hj⟩ := htop
  -- both ends are multiples of the size of a block
  have hk' : L.addr E + m * L.blksz = L.blksz * (k + m) := by
    rw [hk]
    ring
  rw [hk', hj]
  apply Nat.mul_le_mul_left
  by_contra hgt
  have hmul := Nat.mul_le_mul_left L.blksz (show j + 1 ≤ k + m by omega)
  rw [Nat.mul_add] at hmul
  omega

/-- The core after it grew by `n` blocks. -/
theorem Core.grow (h : p.Core L E) {ptr : Nat} (hptr : ptr < L.top)
    (hle : ptr ≤ L.addr E + n * L.blksz) (hlt : L.addr E + n * L.blksz < ptr + L.blksz)
    (hfit : L.addr E + n * L.blksz ≤ L.top) (limit : Nat) :
    Core { p with ptr := ptr, info_limit := limit } L (E + n) := by
  have haddr := L.addr_add h.pos n
  exact { h with
    ptr_lt := hptr
    ptr_le := by rw [haddr]; exact hle
    lt_ptr := by rw [haddr]; exact hlt
    end_le := fun _ => by rw [haddr]; exact hfit
    infoBlocks_lt := by have := h.infoBlocks_lt; omega }

/-- `__align` of whole blocks. The region starts at the end of the core, aligned. -/
theorem Core.align_eq (h : p.Core L E) (hlt : p.ptr + n * L.blksz < L.top)
    (hfit : L.addr E + n * L.blksz ≤ L.top) :
    ∃ ptr, p.align (n * L.blksz) = ({ p with ptr := ptr }, some (L.addr E)) ∧ ptr < L.top ∧
      ptr ≤ L.addr E + n * L.blksz ∧ L.addr E + n * L.blksz < ptr + L.blksz := by
  have hge := L.blksz_ge
  have htop := L.top_lt
  have hle := h.ptr_le
  have hlt' := h.lt_ptr
  have hmax : n * L.blksz ≠ UINT_MAX := by
    unfold UINT_MAX
    omega
  have hsbrk : p.sbrk (n * L.blksz) = ({ p with ptr := p.ptr + n * L.blksz }, some p.ptr) :=
    sbrk_of_lt (by rw [h.top]; exact hlt) (by rw [h.top]; exact htop)
  unfold align
  rw [if_neg hmax, hsbrk]
  dsimp only
  rw [h.blksz, h.ptr_mod]
  by_cases heq : p.ptr = L.addr E
  · rw [if_pos heq, if_neg (by decide)]
    exact ⟨_, by rw [heq], by omega, by omega, by omega⟩
  · have hadj : L.blksz - (L.blksz - (L.addr E - p.ptr)) = L.addr E - p.ptr := by omega
    rw [if_neg heq, if_pos (by omega), hadj, add32_of_lt (by omega),
      show p.ptr + (L.addr E - p.ptr) = L.addr E by omega]
    by_cases hfits : p.ptr + n * L.blksz + (L.addr E - p.ptr) < L.top
    · rw [sbrk_of_lt (by rw [← h.top] at hfits; exact hfits) (by rw [← h.top] at htop; exact htop)]
      exact ⟨_, rfl, hfits, by dsimp only; omega, by dsimp only; omega⟩
    · rw [sbrk_of_le (by rw [← h.top] at hfits; exact Nat.le_of_not_lt hfits) (by
        show p.ptr + n * L.blksz + _ < 2 ^ 32
        omega)]
      exact ⟨_, rfl, hlt, by omega, by omega⟩

/-- `morecore` of blocks for which `__align` moved the end of the core to `ptr`. -/
theorem Core.morecore_of_align (h : p.Core L E) {ptr : Nat}
    (halign : p.align (n * L.blksz) = ({ p with ptr := ptr }, some (L.addr E)))
    (hgrown : Core { p with ptr := ptr, info_limit := E + n } L (E + n))
    (hfit : L.addr E + n * L.blksz ≤ L.top) : p.morecore (n * L.blksz) =
      some ({ p with ptr := ptr, info_limit := E + n }, some (L.addr E)) := by
  have haddr := L.addr_add h.pos n
  have htop := L.top_lt
  have hend : L.addr (E + n) < 2 ^ 32 := by omega
  have hblock : Pool.BLOCK { p with ptr := ptr } (add32 (L.addr E) (n * L.blksz)) = E + n := by
    rw [add32_of_lt (by omega), ← haddr]
    exact hgrown.BLOCK_addr hgrown.pos hend
  have hsize := hgrown.le_infoSize
  have hinfo := h.info_size
  unfold morecore
  rw [halign]
  dsimp only
  rw [hblock, if_neg (by omega)]

/-- `morecore` of `n` blocks. -/
theorem Core.morecore_eq (h : p.Core L E) (hlt : p.ptr + n * L.blksz < L.top)
    (hfit : L.addr E + n * L.blksz ≤ L.top) :
    ∃ ptr, p.morecore (n * L.blksz) =
        some ({ p with ptr := ptr, info_limit := E + n }, some (L.addr E)) ∧
      Core { p with ptr := ptr, info_limit := E + n } L (E + n) := by
  obtain ⟨ptr, halign, hptr, hle, hlt'⟩ := h.align_eq hlt hfit
  have hgrown := h.grow hptr hle hlt' hfit (E + n)
  exact ⟨ptr, h.morecore_of_align halign hgrown hfit, hgrown⟩

/-- A request that does not fit leaves the pool as it is. -/
theorem Core.morecore_none (h : p.Core L E) (hle : L.top ≤ p.ptr + n * L.blksz)
    (hlt : p.ptr + n * L.blksz < 2 ^ 32) : p.morecore (n * L.blksz) = some (p, none) := by
  unfold morecore align
  split
  · rename_i halign
    split at halign
    · cases halign
      rfl
    · rw [sbrk_of_le (by rw [h.top]; exact hle) hlt] at halign
      cases halign
      rfl
  · rename_i halign
    split at halign
    · cases halign
    · rw [sbrk_of_le (by rw [h.top]; exact hle) hlt] at halign
      cases halign

/-- `__sbrk` of the negative of the last `n` blocks, when the end of the core is aligned. -/
theorem Core.sbrk_neg (h : p.Core L E) (hptr : p.ptr = L.addr E) (hb : 0 < b) (hE : b + n = E) :
    (p.sbrk (sub32 0 (mul32 n L.blksz))).1 = { p with ptr := L.addr b } := by
  have htop := L.top_lt
  have hlt := h.ptr_lt
  have haddr := L.addr_add hb n
  have hbase := L.base_pos
  have hle := L.base_le_addr (b := b)
  rw [hE] at haddr
  unfold sbrk
  rw [mul32_of_lt (by omega), add32_neg (by omega) (by omega), h.top, if_pos (by omega),
    show p.ptr - n * L.blksz = L.addr b by omega]

/-- A core that grew ends no earlier. -/
theorem Core.ptr_le_of_grow {p' : Pool} (h : p.Core L E) (h' : p'.Core L (E + n)) (hn : 0 < n) :
    p.ptr ≤ p'.ptr := by
  have hle := h.ptr_le
  have hlt := h'.lt_ptr
  have hmul := Nat.mul_le_mul_right L.blksz hn
  rw [L.addr_add h.pos] at hlt
  omega

/-- The core when it ends with the block `b`. -/
theorem Core.shrink (h : p.Core L E) (hb : L.infoBlocks < b) (hbE : b < E) (limit : Nat) :
    Core { p with ptr := L.addr b, info_limit := limit } L b := by
  have hge := L.blksz_ge
  have hend := h.end_le (by omega)
  have hsucc := L.addr_succ (b := b) (by omega)
  have hnext := L.addr_le (b := b + 1) (c := E) (by omega) hbE
  exact { h with
    ptr_lt := by show L.addr b < L.top; omega
    ptr_le := Nat.le_refl _
    lt_ptr := by show L.addr b < L.addr b + L.blksz; omega
    end_le := fun _ => by omega
    infoBlocks_lt := hb }

end

end Pool

end Hcrtos.Native.Alloc
