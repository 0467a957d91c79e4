import Hcrtos.ForStd.Bits
import Hcrtos.Native.Spi

/-!
# The chunks of an SPI transfer

Each round of the loops moves a chunk from the front of what is left, so the loops end and their
chunks are the buffer, one after the other. A round gives the DMA only what begins and ends at a
boundary. The transmit path that is forced to use the DMA gives it the whole buffer.

## Key results

- `Takes.copy`: a loop whose rounds each take a chunk
- `takes_pioTx`, `takes_pioRx`, `takes_byDma`: the rounds of the driver
- `transfer_chunked`: the chunks of both paths
- `transfer_forced`: a transmission whose chunk is not aligned
-/

namespace Hcrtos.Native.Spi

open Loop

/-! ### Words -/

theorem bytesAt_zero (addr : UInt32) : bytesAt addr 0 = [] := rfl

/-- The bytes of a chunk from the front, and the rest. -/
theorem bytesAt_split (addr : UInt32) {len left : UInt32} (h : len ≤ left) :
    bytesAt addr len ++ bytesAt (addr + len) (left - len) = bytesAt addr left := by
  have hle := UInt32.le_iff_toNat_le.mp h
  have hsum : left.toNat = len.toNat + (left - len).toNat := by
    rw [UInt32.toNat_sub_of_le _ _ h]
    omega
  unfold bytesAt
  rw [hsum, List.range_add, List.map_append, List.map_map]
  congr 1
  apply List.map_congr_left
  intro i _
  show addr + len + UInt32.ofNat i = addr + UInt32.ofNat (len.toNat + i)
  rw [UInt32.ofNat_add, UInt32.ofNat_toNat, UInt32.add_assoc]

theorem isAligned_iff {x : UInt32} : IS_ALIGNED x 64 = true ↔ 64 ∣ x.toNat := by
  unfold IS_ALIGNED
  rw [decide_eq_true_iff, Nat.dvd_iff_mod_eq_zero]
  exact Bits.and_mask_eq_zero_iff (k := 6) rfl

/-- Rounding down to the boundary. -/
theorem toNat_alignDown (x : UInt32) : (ALIGN_DOWN x 64).toNat = x.toNat / 64 * 64 := by
  have hback : x - (64 - 1) + (64 - 1) = x := UInt32.sub_add_cancel _ _
  have hmask : (~~~(64 - 1 : UInt32)).toNat = (2 ^ 26 - 1) * 2 ^ 6 := rfl
  unfold ALIGN_DOWN
  rw [hback, UInt32.toNat_and, hmask]
  -- the mask has the upper 26 bits of the word
  show x.toNat &&& (2 ^ 26 - 1) * 2 ^ 6 = x.toNat / 2 ^ 6 * 2 ^ 6
  apply Nat.eq_of_testBit_eq
  intro i
  rw [Nat.testBit_and, Nat.testBit_mul_two_pow, Nat.testBit_mul_two_pow, Nat.testBit_div_two_pow,
    Nat.testBit_two_pow_sub_one]
  by_cases hlow : 6 ≤ i
  · rw [Nat.sub_add_cancel hlow]
    by_cases hhigh : i - 6 < 26
    · simp [hlow, hhigh]
    · have hout : x.toNat.testBit i = false :=
        Nat.testBit_lt_two_pow (Nat.lt_of_lt_of_le x.toNat_lt
          (Nat.pow_le_pow_right (by decide) (by omega)))
      simp [hout]
  · simp [hlow]

/-! ### The loops -/

/-- A round moves a chunk of what is left, and from its front. -/
def Takes (next : UInt32 → UInt32 → Option Chunk) : Prop :=
  ∀ addr left, left ≠ 0 →
    ∃ c, next addr left = some c ∧ c.addr = addr ∧ 0 < c.len ∧ c.len ≤ left ∧ c.Aligned

/-- The chunks and what is left are the buffer. -/
structure Inv (buf len : UInt32) (c : Copy) : Prop where
  covers : (c.chunks.flatMap fun c => bytesAt c.addr c.len) ++ bytesAt c.addr c.copy_left =
    bytesAt buf len
  aligned : ∀ chunk ∈ c.chunks, chunk.Aligned

/-- A round keeps the invariant and leaves less. -/
theorem Takes.round {next : UInt32 → UInt32 → Option Chunk} (h : Takes next) {buf len : UInt32}
    {c c' : Copy} (hinv : Inv buf len c) (hround : round next c = .inr c') :
    Inv buf len c' ∧ c'.copy_left.toNat < c.copy_left.toNat := by
  unfold Spi.round at hround
  by_cases hzero : c.copy_left = 0
  · rw [if_pos hzero] at hround
    cases hround
  · obtain ⟨chunk, hnext, haddr, hpos, hle, haligned⟩ := h c.addr c.copy_left hzero
    rw [if_neg hzero, hnext] at hround
    cases hround
    constructor
    · constructor
      case covers =>
        rw [← hinv.covers, ← bytesAt_split c.addr hle, List.flatMap_append, List.append_assoc]
        simp [haddr]
      case aligned =>
        intro d hd
        rcases List.mem_append.mp hd with hd | hd
        · exact hinv.aligned d hd
        · exact List.mem_singleton.mp hd ▸ haligned
    · have hpos' := UInt32.lt_iff_toNat_lt.mp hpos
      have hle' := UInt32.le_iff_toNat_le.mp hle
      rw [UInt32.toNat_zero] at hpos'
      show (c.copy_left - chunk.len).toNat < _
      rw [UInt32.toNat_sub_of_le _ _ hle]
      omega

/-- The loop ends, and its chunks are the buffer. -/
theorem Takes.copy {next : UInt32 → UInt32 → Option Chunk} (h : Takes next) {fuel : Nat}
    {buf len : UInt32} (hfuel : len.toNat < fuel) :
    ∃ chunks, copy next fuel buf len = some chunks ∧ Covers buf len chunks ∧
      ∀ c ∈ chunks, c.Aligned := by
  -- what is left is the measure of the loop
  refine loop_spec (I := Inv buf len) (fun c => c.copy_left.toNat) ?_ (fun _ _ => h.round) ?_ hfuel
  · intro c chunks hinv hdone
    unfold Spi.round at hdone
    by_cases hzero : c.copy_left = 0
    · rw [if_pos hzero] at hdone
      cases hdone
      refine ⟨?_, hinv.aligned⟩
      -- nothing is left, so the chunks alone are the buffer
      have hcovers := hinv.covers
      rw [hzero, bytesAt_zero, List.append_nil] at hcovers
      exact hcovers
    · rw [if_neg hzero] at hdone
      cases hnext : next c.addr c.copy_left <;> rw [hnext] at hdone <;> cases hdone
  · exact ⟨rfl, nofun⟩

/-! ### The rounds of the driver -/

theorem aligned_pio (addr len : UInt32) : Chunk.Aligned ⟨false, addr, len⟩ := nofun

theorem one_le {left : UInt32} (h : left ≠ 0) : 1 ≤ left := by
  rw [UInt32.le_iff_toNat_le]
  exact Nat.one_le_iff_ne_zero.mpr fun hzero => h (UInt32.toNat_inj.mp hzero)

/-- A single byte, moved by the processor. -/
theorem takes_byte (addr : UInt32) {left : UInt32} (h : left ≠ 0) :
    ∃ c, some (Chunk.mk false addr 1) = some c ∧ c.addr = addr ∧ 0 < c.len ∧ c.len ≤ left ∧
      c.Aligned :=
  ⟨⟨false, addr, 1⟩, rfl, rfl, (by decide : (0 : UInt32) < 1), one_le h, aligned_pio _ _⟩

theorem takes_pioTx : Takes pioTx := fun addr _ hleft => takes_byte addr hleft

theorem takes_pioRx : Takes pioRx := by
  intro addr left hleft
  unfold pioRx
  split
  case isTrue => exact takes_byte addr hleft
  case isFalse hword =>
    have hfour : left ≥ 4 := UInt32.not_lt.mp (not_or.mp hword).2
    rw [if_pos hfour]
    exact ⟨⟨false, addr, 4⟩, rfl, rfl, (by decide : (0 : UInt32) < 4), hfour, aligned_pio _ _⟩

/-- The DMA is given what is whole lines, and that is never nothing. -/
theorem takes_byDma : Takes byDma := by
  intro addr left hleft
  unfold byDma
  split
  case isTrue => exact takes_byte addr hleft
  case isFalse hdma =>
    obtain ⟨haddr, hlen⟩ := not_or.mp hdma
    have haddr' : 64 ∣ addr.toNat := isAligned_iff.mp (Bool.of_not_eq_false haddr)
    have hlen' : 64 ≤ left.toNat := UInt32.le_iff_toNat_le.mp (UInt32.not_lt.mp hlen)
    have hdown : (ALIGN_DOWN left DMA_LEN_ALIGN).toNat = left.toNat / 64 * 64 :=
      toNat_alignDown left
    have hpos : 0 < (ALIGN_DOWN left DMA_LEN_ALIGN).toNat := by
      rw [hdown]
      omega
    have hne : ALIGN_DOWN left DMA_LEN_ALIGN ≠ 0 := fun hzero => by
      rw [hzero] at hpos
      exact absurd hpos (by decide)
    have hlines : 64 ∣ (ALIGN_DOWN left DMA_LEN_ALIGN).toNat := ⟨left.toNat / 64, by
      rw [hdown, Nat.mul_comm]⟩
    -- the boundary of the driver is two cache lines
    have hhalf : ∀ {n : Nat}, 64 ∣ n → 32 ∣ n := Nat.dvd_trans (by decide)
    dsimp only
    rw [if_pos hne]
    refine ⟨_, rfl, rfl, UInt32.lt_iff_toNat_lt.mpr hpos, ?_, fun _ =>
      ⟨haddr', hlines, hhalf haddr', hhalf hlines⟩⟩
    rw [UInt32.le_iff_toNat_le, hdown]
    exact Nat.div_mul_le_self _ _

/-- The chunks of both paths cover the buffer, each byte once and in order, and the loops end. The
    DMA is given whole lines, unless the transmit path is forced to use it: then it is given
    exactly the buffer. -/
theorem transfer_chunked (hs : HcSpi) (buf len : UInt32) {fuel : Nat} (hfuel : len.toNat < fuel) :
    (∃ chunks, hc_spi_transfer_tx hs fuel buf len = some chunks ∧ Covers buf len chunks ∧
      if hs.dma_force then chunks = [⟨true, buf, len⟩] else ∀ c ∈ chunks, c.Aligned) ∧
    (∃ chunks, hc_spi_transfer_rx hs fuel buf len = some chunks ∧ Covers buf len chunks ∧
      ∀ c ∈ chunks, c.Aligned) := by
  constructor
  · unfold hc_spi_transfer_tx
    split
    case isTrue => exact ⟨_, rfl, List.append_nil _, rfl⟩
    case isFalse =>
      split
      · exact takes_pioTx.copy hfuel
      · exact takes_byDma.copy hfuel
  · unfold hc_spi_transfer_rx
    split
    · exact takes_pioRx.copy hfuel
    · exact takes_byDma.copy hfuel

/-- Some bytes up to a line, six lines, and the rest. -/
theorem transfer_chunked_head :
    (∃ chunks, hc_spi_transfer_tx ⟨true, false⟩ 501 0x80000038 500 = some chunks ∧
      Covers 0x80000038 500 chunks ∧
      if (HcSpi.mk true false).dma_force then chunks = [⟨true, 0x80000038, 500⟩]
      else ∀ c ∈ chunks, c.Aligned) ∧
    (∃ chunks, hc_spi_transfer_rx ⟨true, false⟩ 501 0x80000038 500 = some chunks ∧
      Covers 0x80000038 500 chunks ∧ ∀ c ∈ chunks, c.Aligned) :=
  transfer_chunked ⟨true, false⟩ 0x80000038 500 (by decide)

/-- Three bytes that are not a line, on the processor that forces the DMA. -/
theorem transfer_forced : ∃ chunks,
    hc_spi_transfer_tx ⟨true, true⟩ 4 0x80000001 3 = some chunks ∧ ¬ ∀ c ∈ chunks, c.Aligned :=
  ⟨_, rfl, fun h => absurd (h _ (List.mem_singleton_self _)) (by decide)⟩

end Hcrtos.Native.Spi
