import Hcrtos.Native.Mtd
import Mathlib.Tactic.Ring
import Mathlib.Tactic.Linarith

/-!
# Partitions are kept apart

The checks of a partition look at the last block or byte of an access only, and the one for bytes
accepts the byte behind the partition. The length of the out-of-band data and the range of
`MTDIOC_MEMERASE` are not checked, and the end of the partition itself is compared with the number
of blocks instead of erase blocks.

## Key results

- `register_spec`: the partition that a region becomes
- `inFlash_iff`: the regions whose partition lies inside the flash
- `blocks_iff`, `bytes_iff`: the accesses that pass a check and lie inside the partition
- `isolated_iff`: the regions and accesses that keep partitions apart
- `isolated_read_fails`: an access that does not
-/

namespace Hcrtos.Native.Mtd

/-! ### Ranges -/

/-- The bytes of an erase block. -/
def Partition.erasesize (p : Partition) : Nat := p.blocksize * p.blkpererase

/-- The length of the partition in bytes. -/
def Partition.bytes (p : Partition) : Nat := p.neraseblocks * p.erasesize

/-- The first byte of the flash that belongs to the partition. -/
def Partition.first (p : Partition) : Int := p.firstblock * p.blocksize

/-- The byte behind the partition. -/
def Partition.last (p : Partition) : Int := p.first + p.bytes

def Partition.InFlash (mtd : MtdInfo) (p : Partition) : Prop := p.last ≤ mtd.size

/-- The pages whose out-of-band data an access of this length takes. -/
def pages (mtd : MtdInfo) (oob_len : Int) : Int := (oob_len + mtd.oobavail - 1) / mtd.oobavail

/-- The range of a call of the driver lies inside the partition. -/
def DriverCall.Inside (mtd : MtdInfo) (p : Partition) : DriverCall → Prop
  | .erase startblock nblocks =>
    p.first ≤ startblock * mtd.erasesize ∧ (startblock + nblocks) * mtd.erasesize ≤ p.last
  | .bread startblock nblocks | .bwrite startblock nblocks =>
    p.first ≤ startblock * mtd.blocksize ∧ (startblock + nblocks) * mtd.blocksize ≤ p.last
  | .read offset nbytes | .write offset nbytes =>
    p.first ≤ offset ∧ offset + nbytes ≤ p.last
  | .write_oob offset data_len oob_len | .read_oob offset data_len oob_len =>
    p.first ≤ offset ∧ offset + data_len ≤ p.last ∧ 0 ≤ data_len ∧ 0 ≤ oob_len ∧
      (offset / mtd.blocksize + pages mtd oob_len) * mtd.blocksize ≤ p.last
  | .block_markbad block_no | .block_isbad block_no =>
    p.first ≤ block_no * mtd.erasesize ∧ (block_no + 1) * mtd.erasesize ≤ p.last
  | .memerase start length => p.first ≤ start ∧ (start + length : Nat) ≤ p.last

/-- A range inside the partition is passed to the driver, or an error is returned. -/
def Keeps (mtd : MtdInfo) (p : Partition) : Except Int DriverCall → Prop
  | .ok call => call.Inside mtd p
  | .error ret => ret < 0

/-- An access keeps to its partition. -/
def Isolated (mtd : MtdInfo) (p : Partition) (a : Access) : Prop := Keeps mtd p (a.perform mtd p)

/-! ### Conditions -/

/-- The region, cut to whole erase blocks, ends inside the flash. -/
def Fits (mtd : MtdInfo) (i : Nat) (d : Description) : Prop :=
  ((region mtd i d).1 / mtd.blocksize + (region mtd i d).2 / mtd.blocksize) / mtd.blkpererase ≤
    mtd.size / mtd.erasesize

/-- A start that is not negative, and a last block without overflow. -/
def BlocksOk (startblock nblocks k : Int) : Prop :=
  0 ≤ startblock ∧ (startblock + nblocks - 1) * k < 2 ^ 63

/-- A start that is not negative, and a last byte without overflow that is not the one behind the
    partition. -/
def BytesOk (p : Partition) (offset nbytes : Int) : Prop :=
  0 ≤ offset ∧ offset + nbytes - 1 + (p.erasesize - 1) < 2 ^ 63 ∧
    offset + nbytes - 1 ≠ p.bytes

/-- Lengths that are not negative, with the out-of-band data in pages of the partition. -/
def OobOk (mtd : MtdInfo) (p : Partition) (offset data_len oob_len : Int) : Prop :=
  0 ≤ data_len ∧ 0 ≤ oob_len ∧
    offset / p.blocksize + pages mtd oob_len ≤ p.neraseblocks * p.blkpererase

/-- The accesses that keep to the partition whenever they pass its check. -/
def Safe (mtd : MtdInfo) (p : Partition) : Access → Prop
  | .erase startblock nblocks =>
    part_blockcheck p (off_t ((startblock.toInt + nblocks.toNat - 1) * p.blkpererase)) = true →
      BlocksOk startblock.toInt nblocks.toNat p.blkpererase
  | .bread startblock nblocks | .bwrite startblock nblocks =>
    part_blockcheck p (off_t (startblock.toInt + nblocks.toNat - 1)) = true →
      BlocksOk startblock.toInt nblocks.toNat 1
  | .read offset nbytes | .write offset nbytes =>
    part_bytecheck p (off_t (offset.toInt + nbytes.toNat - 1)) = true →
      BytesOk p offset.toInt nbytes.toNat
  | .write_oob offset data_len oob_len =>
    mtd.write_oob = true →
      part_bytecheck p (off_t (offset.toInt + data_len.toInt - 1)) = true →
        BytesOk p offset.toInt data_len.toInt ∧
          OobOk mtd p offset.toInt data_len.toInt oob_len.toInt
  | .read_oob offset data_len oob_len =>
    mtd.read_oob = true →
      part_bytecheck p (off_t (offset.toInt + data_len.toInt - 1)) = true →
        BytesOk p offset.toInt data_len.toInt ∧
          OobOk mtd p offset.toInt data_len.toInt oob_len.toInt
  | .block_markbad block_no =>
    mtd.block_markbad = true → part_blockcheck p (off_t (block_no.toInt * p.blkpererase)) = true →
      BlocksOk block_no.toInt 1 p.blkpererase
  | .block_isbad block_no =>
    mtd.block_isbad = true → part_blockcheck p (off_t (block_no.toInt * p.blkpererase)) = true →
      BlocksOk block_no.toInt 1 p.blkpererase
  | .bulkerase => True
  | .memerase start length =>
    (start.toNat + length.toNat : Nat) ≤ p.last - p.first ∧ p.first + start.toNat < 2 ^ 32

/-! ### Arithmetic -/

theorem off_t_eq {x : Int} (hlo : -2 ^ 63 ≤ x) (hhi : x < 2 ^ 63) : off_t x = x := by
  unfold off_t
  omega

/-- Adding the offset of the partition overflows to a negative block. -/
theorem le_off_t_add {s b : Int} (hs : -2 ^ 63 ≤ s) (hs' : s < 2 ^ 63) (hb : 0 ≤ b)
    (hb' : b < 2 ^ 62) : b ≤ off_t (s + b) ↔ 0 ≤ s ∧ s + b < 2 ^ 63 := by
  unfold off_t
  omega

/-- The blocks of an access that passes the check are those of the partition. -/
theorem blocks_iff {s n k b N : Int} (hs : -2 ^ 63 ≤ s) (hs' : s < 2 ^ 63) (hn : 0 ≤ n)
    (hk : 1 ≤ k) (hk' : k < 2 ^ 16) (hb : 0 ≤ b) (hb' : b < 2 ^ 62) (hN : 0 ≤ N)
    (hNk : N * k < 2 ^ 62) (hcheck : off_t ((s + n - 1) * k) < N * k) :
    (b ≤ off_t (s + b) ∧ off_t (s + b) + n ≤ b + N) ↔ BlocksOk s n k := by
  have hNle : N ≤ N * k := le_mul_of_one_le_right hN hk
  constructor
  · intro ⟨hlo, hhi⟩
    obtain ⟨h0, hover⟩ := (le_off_t_add hs hs' hb hb').mp hlo
    rw [off_t_eq (by omega) hover] at hhi
    have hlast : s + n - 1 ≤ N := by omega
    exact ⟨h0, by nlinarith⟩
  · intro ⟨h0, hover⟩
    -- without overflow the check compares the numbers themselves
    have hlow : -2 ^ 63 ≤ (s + n - 1) * k := by nlinarith
    rw [off_t_eq hlow hover] at hcheck
    have hlast : s + n - 1 < N := lt_of_mul_lt_mul_right hcheck (by omega)
    rw [off_t_eq (by omega) (by omega)]
    omega

/-- The bytes of an access that passes the check are those of the partition. -/
theorem bytes_iff {p : Partition} {o n b : Int} (ho : -2 ^ 63 ≤ o) (ho' : o < 2 ^ 63)
    (hn : 0 ≤ n) (hb : 0 ≤ b) (hb' : b < 2 ^ 62) (hes : 0 < p.erasesize)
    (hle : p.erasesize ≤ p.bytes) (hsize : p.bytes < 2 ^ 61)
    (hcheck : part_bytecheck p (off_t (o + n - 1)) = true) :
    (b ≤ off_t (o + b) ∧ off_t (o + b) + n ≤ b + p.bytes) ↔ BytesOk p o n := by
  have herase : off_t (p.blocksize * p.blkpererase) = p.erasesize := by
    have hcast : (p.blocksize * p.blkpererase : Int) = p.erasesize := by
      unfold Partition.erasesize
      push_cast
      rfl
    rw [hcast, off_t_eq (by omega) (by omega)]
  have hbytes : (p.neraseblocks + 1 : Int) * p.erasesize = p.bytes + p.erasesize := by
    unfold Partition.bytes
    push_cast
    rw [add_mul, one_mul]
  simp only [part_bytecheck, decide_eq_true_eq, herase] at hcheck
  unfold BytesOk
  constructor
  · intro ⟨hlo, hhi⟩
    obtain ⟨h0, hover⟩ := (le_off_t_add ho ho' hb hb').mp hlo
    rw [off_t_eq (by omega) hover] at hhi
    omega
  · intro ⟨h0, hover, hne⟩
    rw [off_t_eq (x := o + n - 1) (by omega) (by omega),
      off_t_eq (x := o + n - 1 + p.erasesize - 1) (by omega) (by omega)] at hcheck
    have hend : o + n - 1 + p.erasesize - 1 < p.bytes + p.erasesize := by
      by_cases hneg : o + n - 1 + p.erasesize - 1 < 0
      · omega
      · rw [Int.tdiv_eq_ediv_of_nonneg (by omega)] at hcheck
        rw [← hbytes]
        exact (Int.ediv_lt_iff_lt_mul (by omega)).mp (by omega)
    rw [off_t_eq (by omega) (by omega)]
    omega

/-! ### Partitions -/

variable {mtd : MtdInfo} {p : Partition}

theorem blocksize_pos (mtd : MtdInfo) : 0 < mtd.blocksize := by
  unfold MtdInfo.blocksize
  split
  · exact mtd.erasesize_pos
  · exact mtd.writesize_pos

theorem erasesize_eq (mtd : MtdInfo) : mtd.blkpererase * mtd.blocksize = mtd.erasesize := by
  unfold MtdInfo.blkpererase MtdInfo.blocksize
  split
  · rw [Nat.div_self mtd.erasesize_pos, one_mul]
  · exact Nat.div_mul_cancel mtd.writesize_dvd

theorem blkpererase_pos (mtd : MtdInfo) : 0 < mtd.blkpererase := by
  apply Nat.pos_of_mul_pos_right
  rw [erasesize_eq]
  exact mtd.erasesize_pos

/-- What holds of the partitions that are registered, as long as the number of blocks in an erase
    block fits its field. -/
structure WellFormed (mtd : MtdInfo) (p : Partition) : Prop where
  blocksize : p.blocksize = mtd.blocksize
  blkpererase : p.blkpererase = mtd.blkpererase
  blkpererase_lt : p.blkpererase < 2 ^ 16
  aligned : p.firstblock = p.firstblock / p.blkpererase * p.blkpererase
  neraseblocks_pos : 0 < p.neraseblocks
  last_lt : (p.firstblock + p.neraseblocks * p.blkpererase) * p.blocksize < 2 ^ 33

/-- A region becomes the whole erase blocks inside it. -/
theorem register_spec {i : Nat} {d : Description} (h : register mtd i d = some p)
    (hbpe : mtd.blkpererase < 2 ^ 16) :
    WellFormed mtd p ∧ p.firstblock / p.blkpererase + p.neraseblocks =
      ((region mtd i d).1 / mtd.blocksize + (region mtd i d).2 / mtd.blocksize) /
        mtd.blkpererase := by
  have hreg : (region mtd i d).1 < 2 ^ 32 ∧ (region mtd i d).2 < 2 ^ 32 := by
    unfold region
    split
    · exact ⟨(by decide : 0 < 2 ^ 32), Nat.mod_lt _ (by decide)⟩
    · exact ⟨d.start.toNat_lt, d.size.toNat_lt⟩
  have hpos := blkpererase_pos mtd
  unfold register at h
  dsimp only at h
  generalize (region mtd i d).1 = start at *
  generalize (region mtd i d).2 = size at *
  unfold mtd_partition at h
  dsimp only at h
  split at h
  · cases h
  · next hlt =>
    split at h
    · cases h
    · cases h
      generalize hb : mtd.blkpererase = k at *
      generalize hs : (start / mtd.blocksize + k - 1) / k = e0 at *
      generalize he : (start / mtd.blocksize + size / mtd.blocksize) / k = e1 at *
      have hk : k % 2 ^ 16 = k := Nat.mod_eq_of_lt hbpe
      have hdiv : e0 * k / k = e0 := Nat.mul_div_cancel _ hpos
      refine ⟨⟨rfl, by rw [hk, hb], by rw [hk]; exact hbpe, ?_,
        Nat.sub_pos_of_lt (by omega), ?_⟩, ?_⟩
      · simp only [hk, hdiv]
      · simp only [hk]
        have hsum : e0 * k + (e1 - e0) * k = e1 * k := by
          rw [← Nat.add_mul]
          congr 1
          omega
        rw [hsum]
        have h1 : e1 * k ≤ start / mtd.blocksize + size / mtd.blocksize := by
          rw [← he]
          exact Nat.div_mul_le_self _ _
        calc e1 * k * mtd.blocksize
            ≤ (start / mtd.blocksize + size / mtd.blocksize) * mtd.blocksize :=
              Nat.mul_le_mul_right _ h1
          _ = start / mtd.blocksize * mtd.blocksize + size / mtd.blocksize * mtd.blocksize :=
              Nat.add_mul _ _ _
          _ ≤ start + size := Nat.add_le_add (Nat.div_mul_le_self _ _) (Nat.div_mul_le_self _ _)
          _ < 2 ^ 33 := by omega
      · simp only [hk, hdiv]
        omega

/-- The partition lies inside the flash exactly if its region, cut to erase blocks, ends there. -/
theorem inFlash_iff {i : Nat} {d : Description} (h : register mtd i d = some p)
    (hbpe : mtd.blkpererase < 2 ^ 16) : p.InFlash mtd ↔ Fits mtd i d := by
  obtain ⟨hwf, hend⟩ := register_spec h hbpe
  have hlast : p.last =
      (((p.firstblock / p.blkpererase + p.neraseblocks) * mtd.erasesize : Nat) : Int) := by
    unfold Partition.last Partition.first Partition.bytes Partition.erasesize
    rw [← erasesize_eq mtd, hwf.blocksize, ← hwf.blkpererase]
    conv_lhs => rw [hwf.aligned]
    push_cast
    ring
  unfold Partition.InFlash Fits
  rw [hlast, ← hend, Nat.le_div_iff_mul_le mtd.erasesize_pos]
  exact Int.ofNat_le

/-! ### Accesses -/

/-- The numbers of a partition that are used below. -/
theorem WellFormed.facts (h : WellFormed mtd p) :
    p.erasesize = mtd.erasesize ∧ 0 < p.erasesize ∧ p.erasesize ≤ p.bytes ∧
      p.bytes < 2 ^ 33 ∧ 0 ≤ p.first ∧ p.first < 2 ^ 33 := by
  have herase : p.erasesize = mtd.erasesize := by
    unfold Partition.erasesize
    rw [h.blocksize, h.blkpererase, mul_comm, erasesize_eq]
  have hpos : 0 < p.erasesize := herase ▸ mtd.erasesize_pos
  have hsplit : (p.firstblock + p.neraseblocks * p.blkpererase) * p.blocksize =
      p.firstblock * p.blocksize + p.bytes := by
    unfold Partition.bytes Partition.erasesize
    ring
  have hlast := h.last_lt
  rw [hsplit] at hlast
  have hfirst : p.first = (p.firstblock * p.blocksize : Nat) := by
    unfold Partition.first
    push_cast
    rfl
  exact ⟨herase, hpos, Nat.le_mul_of_pos_left _ h.neraseblocks_pos, by omega, by omega, by omega⟩

/-- A range of units of a size lies inside the partition if its first and last unit do. -/
theorem units_iff {u b N s n : Int} (hu : 0 < u) (hfirst : p.first = b * u)
    (hbytes : (p.bytes : Int) = N * u) :
    (p.first ≤ s * u ∧ (s + n) * u ≤ p.last) ↔ (b ≤ s ∧ s + n ≤ b + N) := by
  have hlast : p.last = (b + N) * u := by
    unfold Partition.last
    rw [hfirst, hbytes, add_mul]
  rw [hlast, hfirst, mul_le_mul_iff_left₀ hu, mul_le_mul_iff_left₀ hu]

theorem blockcheck_iff (h : WellFormed mtd p) {x : Int} :
    part_blockcheck p x = true ↔ x < p.neraseblocks * p.blkpererase := by
  have hpos : 0 < p.blocksize := h.blocksize ▸ blocksize_pos mtd
  have hlt : p.neraseblocks * p.blkpererase < 2 ^ 33 := by
    have hle : p.neraseblocks * p.blkpererase ≤
        (p.firstblock + p.neraseblocks * p.blkpererase) * p.blocksize :=
      (Nat.le_add_left _ _).trans (Nat.le_mul_of_pos_right _ hpos)
    exact hle.trans_lt h.last_lt
  have hcast : (p.neraseblocks * p.blkpererase : Int) = (p.neraseblocks * p.blkpererase : Nat) := by
    push_cast
    rfl
  simp only [part_blockcheck, decide_eq_true_eq]
  rw [hcast, off_t_eq (by omega) (by omega)]

/-- A call that is made only if a check succeeds. -/
theorem keeps_check {c : Bool} {call : DriverCall} :
    Keeps mtd p (if ¬ c then .error (- ENXIO) else .ok call) ↔ (c = true → call.Inside mtd p) := by
  cases c with
  | true => simp [Keeps]
  | false => simp [Keeps, ENXIO]

/-- A call of a method that the driver may lack. -/
theorem keeps_method {m : Bool} {r : Except Int DriverCall} :
    Keeps mtd p (if m then r else .error (-ENOSYS)) ↔ (m = true → Keeps mtd p r) := by
  cases m with
  | true => simp
  | false => simp [Keeps, ENOSYS]

theorem int64_bounds (x : Int64) : -2 ^ 63 ≤ x.toInt ∧ x.toInt < 2 ^ 63 :=
  ⟨x.le_toInt, x.toInt_lt⟩

/-- The partition in erase blocks. -/
theorem WellFormed.erase_units (h : WellFormed mtd p) :
    p.first = (p.firstblock / p.blkpererase : Nat) * (mtd.erasesize : Int) ∧
      (p.bytes : Int) = p.neraseblocks * mtd.erasesize := by
  have herase := h.facts.1
  constructor
  · unfold Partition.first
    conv_lhs => rw [h.aligned]
    rw [← herase]
    unfold Partition.erasesize
    push_cast
    ring
  · unfold Partition.bytes
    rw [herase]
    push_cast
    rfl

/-- The partition in blocks. -/
theorem WellFormed.block_units (h : WellFormed mtd p) :
    p.first = (p.firstblock : Int) * mtd.blocksize ∧
      (p.bytes : Int) = (p.neraseblocks * p.blkpererase) * mtd.blocksize := by
  constructor
  · unfold Partition.first
    rw [h.blocksize]
  · unfold Partition.bytes Partition.erasesize
    rw [h.blocksize]
    push_cast
    ring

/-- An access to erase blocks that passes the check. -/
theorem eraseblocks_iff (h : WellFormed mtd p) {s n : Int} (hs : -2 ^ 63 ≤ s ∧ s < 2 ^ 63)
    (hn : 0 ≤ n) (hcheck : part_blockcheck p (off_t ((s + n - 1) * p.blkpererase)) = true) :
    (p.first ≤ off_t (s + (p.firstblock / p.blkpererase : Nat)) * mtd.erasesize ∧
      (off_t (s + (p.firstblock / p.blkpererase : Nat)) + n) * mtd.erasesize ≤ p.last) ↔
        BlocksOk s n p.blkpererase := by
  obtain ⟨hfirst, hbytes⟩ := h.erase_units
  obtain ⟨herase, hpos, hle, hlt, h0, hfirstlt⟩ := h.facts
  have hes : (0 : Int) < mtd.erasesize := Int.natCast_pos.mpr mtd.erasesize_pos
  have hk : 0 < p.blkpererase := h.blkpererase ▸ blkpererase_pos mtd
  rw [units_iff hes hfirst hbytes]
  have hb : ((p.firstblock / p.blkpererase : Nat) : Int) < 2 ^ 62 := by
    have := le_mul_of_one_le_right (Int.natCast_nonneg (p.firstblock / p.blkpererase))
      (Int.add_one_le_of_lt hes)
    omega
  have hNk : (p.neraseblocks : Int) * p.blkpererase < 2 ^ 62 := by
    have hmul : p.neraseblocks * p.blkpererase ≤ p.bytes := by
      have hbs : 0 < p.blocksize := h.blocksize ▸ blocksize_pos mtd
      unfold Partition.bytes Partition.erasesize
      exact Nat.mul_le_mul_left _ (Nat.le_mul_of_pos_left _ hbs)
    have : ((p.neraseblocks * p.blkpererase : Nat) : Int) < 2 ^ 62 := by omega
    simpa using this
  have hkb := h.blkpererase_lt
  exact blocks_iff hs.1 hs.2 hn (by omega) (by omega) (Int.natCast_nonneg _) hb
    (Int.natCast_nonneg _) hNk ((blockcheck_iff h).mp hcheck)

/-- An access to blocks that passes the check. -/
theorem rwblocks_iff (h : WellFormed mtd p) {s n : Int} (hs : -2 ^ 63 ≤ s ∧ s < 2 ^ 63)
    (hn : 0 ≤ n) (hcheck : part_blockcheck p (off_t (s + n - 1)) = true) :
    (p.first ≤ off_t (s + p.firstblock) * mtd.blocksize ∧
      (off_t (s + p.firstblock) + n) * mtd.blocksize ≤ p.last) ↔ BlocksOk s n 1 := by
  obtain ⟨hfirst, hbytes⟩ := h.block_units
  obtain ⟨herase, hpos, hle, hlt, h0, hfirstlt⟩ := h.facts
  have hbs : (0 : Int) < mtd.blocksize := Int.natCast_pos.mpr (blocksize_pos mtd)
  rw [units_iff hbs hfirst hbytes]
  have hb : (p.firstblock : Int) < 2 ^ 62 := by
    have := le_mul_of_one_le_right (Int.natCast_nonneg p.firstblock)
      (Int.add_one_le_of_lt hbs)
    omega
  have hN0 : (0 : Int) ≤ p.neraseblocks * p.blkpererase :=
    Int.mul_nonneg (Int.natCast_nonneg _) (Int.natCast_nonneg _)
  have hN : (p.neraseblocks : Int) * p.blkpererase < 2 ^ 62 := by
    have := le_mul_of_one_le_right hN0 (Int.add_one_le_of_lt hbs)
    omega
  have hlast := (blockcheck_iff h).mp hcheck
  apply blocks_iff hs.1 hs.2 hn (by omega) (by omega) (Int.natCast_nonneg _) hb hN0
  · rw [mul_one]
    exact hN
  · rw [mul_one, mul_one]
    exact hlast

/-- An access to bytes that passes the check. -/
theorem rwbytes_iff (h : WellFormed mtd p) {o n : Int} (ho : -2 ^ 63 ≤ o ∧ o < 2 ^ 63)
    (hn : 0 ≤ n) (hcheck : part_bytecheck p (off_t (o + n - 1)) = true) :
    (p.first ≤ off_t (o + p.first) ∧ off_t (o + p.first) + n ≤ p.last) ↔ BytesOk p o n := by
  obtain ⟨herase, hpos, hle, hlt, h0, hfirstlt⟩ := h.facts
  exact bytes_iff ho.1 ho.2 hn h0 (by omega) hpos hle (by omega) hcheck

/-- An access to out-of-band data that passes the check. -/
theorem oob_iff (h : WellFormed mtd p) {o d l : Int} (ho : -2 ^ 63 ≤ o ∧ o < 2 ^ 63)
    (hcheck : part_bytecheck p (off_t (o + d - 1)) = true) :
    (p.first ≤ off_t (o + p.first) ∧ off_t (o + p.first) + d ≤ p.last ∧ 0 ≤ d ∧ 0 ≤ l ∧
      (off_t (o + p.first) / mtd.blocksize + pages mtd l) * mtd.blocksize ≤ p.last) ↔
        BytesOk p o d ∧ OobOk mtd p o d l := by
  obtain ⟨hfirst, hbytes⟩ := h.block_units
  obtain ⟨-, -, -, -, h0, hfirstlt⟩ := h.facts
  have hbs : (0 : Int) < mtd.blocksize := Int.natCast_pos.mpr (blocksize_pos mtd)
  -- the pages are those behind the first page of the partition
  have hpages : 0 ≤ o → off_t (o + p.first) = o + p.first →
      ((off_t (o + p.first) / mtd.blocksize + pages mtd l) * mtd.blocksize ≤ p.last ↔
        o / p.blocksize + pages mtd l ≤ p.neraseblocks * p.blkpererase) := by
    intro _ heq
    have hlast : p.last = (p.firstblock + p.neraseblocks * p.blkpererase) * mtd.blocksize := by
      unfold Partition.last
      rw [hfirst, hbytes]
      ring
    rw [heq, hlast, hfirst, Int.add_mul_ediv_right _ _ (by omega), mul_le_mul_iff_left₀ hbs,
      h.blocksize]
    constructor <;> intro _ <;> omega
  by_cases hd : 0 ≤ d
  · have hiff := rwbytes_iff h ho hd hcheck
    unfold OobOk
    constructor
    · intro ⟨hlo, hhi, _, hl, hpg⟩
      have hok := hiff.mp ⟨hlo, hhi⟩
      have hover := ((le_off_t_add ho.1 ho.2 h0 (by omega)).mp hlo).2
      have hnonneg := hok.1
      exact ⟨hok, hd, hl, (hpages hok.1 (off_t_eq (by omega) hover)).mp hpg⟩
    · intro ⟨hok, _, hl, hpg⟩
      obtain ⟨hlo, hhi⟩ := hiff.mpr hok
      have hover := ((le_off_t_add ho.1 ho.2 h0 (by omega)).mp hlo).2
      have hnonneg := hok.1
      exact ⟨hlo, hhi, hd, hl, (hpages hok.1 (off_t_eq (by omega) hover)).mpr hpg⟩
  · constructor
    · intro ⟨_, _, hd', _⟩
      exact absurd hd' hd
    · intro ⟨_, hd', _⟩
      exact absurd hd' hd

/-- An access keeps to a partition exactly if it is safe. -/
theorem isolated_access_iff (h : WellFormed mtd p) (a : Access) :
    Isolated mtd p a ↔ Safe mtd p a := by
  cases a with
  | erase startblock nblocks =>
    unfold Isolated Access.perform part_erase
    refine keeps_check.trans (imp_congr_right fun hcheck => ?_)
    exact eraseblocks_iff h (int64_bounds startblock) (Int.natCast_nonneg nblocks.toNat) hcheck
  | bread startblock nblocks =>
    unfold Isolated Access.perform part_bread
    refine keeps_check.trans (imp_congr_right fun hcheck => ?_)
    exact rwblocks_iff h (int64_bounds startblock) (Int.natCast_nonneg nblocks.toNat) hcheck
  | bwrite startblock nblocks =>
    unfold Isolated Access.perform part_bwrite
    refine keeps_check.trans (imp_congr_right fun hcheck => ?_)
    exact rwblocks_iff h (int64_bounds startblock) (Int.natCast_nonneg nblocks.toNat) hcheck
  | read offset nbytes =>
    refine keeps_check.trans (imp_congr_right fun hcheck => ?_)
    exact rwbytes_iff h (int64_bounds offset) (Int.natCast_nonneg nbytes.toNat) hcheck
  | write offset nbytes =>
    refine keeps_check.trans (imp_congr_right fun hcheck => ?_)
    exact rwbytes_iff h (int64_bounds offset) (Int.natCast_nonneg nbytes.toNat) hcheck
  | write_oob offset data_len oob_len =>
    refine keeps_method.trans (imp_congr_right fun _ => ?_)
    refine keeps_check.trans (imp_congr_right fun hcheck => ?_)
    exact oob_iff h (int64_bounds _) hcheck
  | read_oob offset data_len oob_len =>
    refine keeps_method.trans (imp_congr_right fun _ => ?_)
    refine keeps_check.trans (imp_congr_right fun hcheck => ?_)
    exact oob_iff h (int64_bounds _) hcheck
  | block_markbad block_no =>
    refine keeps_method.trans (imp_congr_right fun _ => ?_)
    refine keeps_check.trans (imp_congr_right fun hcheck => ?_)
    have hone : block_no.toInt = block_no.toInt + 1 - 1 := by omega
    rw [hone] at hcheck
    exact eraseblocks_iff h (int64_bounds _) (by decide) hcheck
  | block_isbad block_no =>
    refine keeps_method.trans (imp_congr_right fun _ => ?_)
    refine keeps_check.trans (imp_congr_right fun hcheck => ?_)
    have hone : block_no.toInt = block_no.toInt + 1 - 1 := by omega
    rw [hone] at hcheck
    exact eraseblocks_iff h (int64_bounds _) (by decide) hcheck
  | bulkerase =>
    refine iff_of_true ?_ trivial
    obtain ⟨hfirst, hbytes⟩ := h.erase_units
    have hes : (0 : Int) < mtd.erasesize := Int.natCast_pos.mpr mtd.erasesize_pos
    exact (units_iff hes hfirst hbytes).mpr ⟨le_refl _, le_refl _⟩
  | memerase start length =>
    obtain ⟨-, -, -, hlt, h0, -⟩ := h.facts
    have hstart := start.toNat_lt
    have hfirst : p.first = (p.firstblock * p.blocksize : Nat) := by
      unfold Partition.first
      push_cast
      rfl
    show p.first ≤ (((p.firstblock * p.blocksize + start.toNat) % 2 ^ 32 : Nat) : Int) ∧
      (((p.firstblock * p.blocksize + start.toNat) % 2 ^ 32 + length.toNat : Nat) : Int) ≤ p.last ↔
        ((start.toNat + length.toNat : Nat) : Int) ≤ p.last - p.first ∧
          p.first + start.toNat < 2 ^ 32
    have hlast : p.last = p.first + p.bytes := rfl
    generalize p.firstblock * p.blocksize = b at *
    constructor
    · intro ⟨hlo, hhi⟩
      omega
    · intro ⟨hlo, hhi⟩
      omega

/-- The partition `i` was made from the description `i`. -/
theorem register_of_getElem? {ds : List Description} {k i : Nat} {d : Description}
    (hd : ds[i]? = some d) (hp : (registerFrom mtd k ds)[i]? = some p) :
    register mtd (k + i) d = some p := by
  induction ds generalizing k i with
  | nil => cases hd
  | cons d' ds ih =>
    unfold registerFrom at hp
    split at hp
    · cases hp
    · next part hpart =>
      cases i with
      | zero =>
        cases hd
        cases hp
        exact hpart
      | succ i =>
        have := ih hd hp
        rwa [Nat.add_right_comm, Nat.add_assoc] at this

/-- A partition that is registered lies inside the flash and an access keeps to it, exactly if the
    region fits and the access is safe. -/
theorem isolated_iff (mtd : MtdInfo) (ds : List Description) (i : Nat) (d : Description)
    (p : Partition) (hd : ds[i]? = some d) (hp : (mtd_device_register mtd ds)[i]? = some p)
    (hbpe : mtd.blkpererase < 2 ^ 16) (a : Access) :
    (p.InFlash mtd ∧ Isolated mtd p a) ↔ (Fits mtd i d ∧ Safe mtd p a) := by
  have hreg : register mtd i d = some p := by
    have := register_of_getElem? hd hp
    rwa [Nat.zero_add] at this
  exact and_congr (inFlash_iff hreg hbpe) (isolated_access_iff (register_spec hreg hbpe).1 a)

/-- A flash of 16 erase blocks of 64 KiB. -/
def nor : MtdInfo where
  norflash := true
  size := 1048576
  erasesize := 65536
  writesize := 1
  oobavail := 0
  read_oob := false
  write_oob := false
  block_isbad := false
  block_markbad := false
  erasesize_pos := by decide
  erasesize_lt := by decide
  writesize_pos := by decide
  writesize_dvd := one_dvd _

/-- Four erase blocks are a partition, and its last byte can be read. -/
theorem isolated_nor :
    (Partition.InFlash nor ⟨0, 4, 65536, 1⟩ ∧ Isolated nor ⟨0, 4, 65536, 1⟩ (.read 262143 1)) ↔
      (Fits nor 0 ⟨0, 262144⟩ ∧ Safe nor ⟨0, 4, 65536, 1⟩ (.read 262143 1)) :=
  isolated_iff nor [⟨0, 262144⟩] 0 ⟨0, 262144⟩ ⟨0, 4, 65536, 1⟩ rfl (by decide) (by decide)
    (.read 262143 1)

/-- The byte behind the partition can be read, too. -/
theorem isolated_read_fails : ¬ ∀ (mtd : MtdInfo) (ds : List Description) (i : Nat) (p : Partition),
    (mtd_device_register mtd ds)[i]? = some p → ∀ a, p.InFlash mtd ∧ Isolated mtd p a := by
  intro h
  have hread := (h nor [⟨0, 262144⟩] 0 ⟨0, 4, 65536, 1⟩ (by decide) (.read 262144 1)).2
  have hwf : WellFormed nor ⟨0, 4, 65536, 1⟩ :=
    (register_spec (i := 0) (d := ⟨0, 262144⟩) (by decide) (by decide)).1
  have hsafe : Safe nor ⟨0, 4, 65536, 1⟩ (.read 262144 1) := (isolated_access_iff hwf _).mp hread
  have hok : BytesOk ⟨0, 4, 65536, 1⟩ (262144 : Int64).toInt (1 : UInt32).toNat :=
    hsafe (by decide)
  exact hok.2.2 (by decide)

end Hcrtos.Native.Mtd
