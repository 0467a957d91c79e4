import Hcrtos.Native.DiskIo
import Hcrtos.ForStd.Lts
import Mathlib.Algebra.Ring.Nat
import Mathlib.Order.Interval.Set.LinearOrder

/-!
# Addresses of disk accesses

`disk_read` and `disk_write` compute byte offsets of 64 bits, and the block driver takes sector
numbers of 64 bits. Between them, the character device takes a byte offset of 32 bits and reports
its position as an `int`: it refuses positions with bit 31 set, and takes the others modulo 2^32.
A number of sectors that the block driver returns is not looked at there.

## Key results

- `bchlib_transfer_spec`: the character device asks for whole sectors
- `disk_transfer_spec`: what a drive over a descriptor asks for, and when it reports success
- `bch_run`: the sector buffer stays unused along every run
- `addressed_driver`: the accesses of a drive over a block driver
- `addressed_iff`: the accesses of a drive over a descriptor for which the two agree
-/

namespace Hcrtos.Native.DiskIo

/-! ### The character device -/

theorem flushsector_clean {s : State} (h : s.bch.dirty = false) (drv : Driver) :
    bchlib_flushsector drv s = (0, s) := by
  unfold bchlib_flushsector
  rw [h]
  rfl

@[simp] theorem bch_request (drv : Driver) (s : State) (r : Request) :
    (s.request drv r).2.bch = s.bch := rfl

theorem flushed (op : Op) (drv : Driver) {s : State} (h : s.bch.dirty = false) :
    (if op = .write then bchlib_flushsector drv s else (0, s)) = (0, s) := by
  split
  · exact flushsector_clean h drv
  · rfl

/-- Nothing is left behind the full sectors. -/
theorem finalSector_zero (op : Op) (drv : Driver) (s : State) (sector : Int) (bytes : BitVec 32) :
    finalSector op drv s sector 0 bytes = (bytes, s) := if_neg (by decide)

/-- The full sectors, when the length is a multiple of the size. -/
theorem fullSectors_spec (op : Op) (drv : Driver) {s : State} {size o c : Nat} {len : BitVec 32}
    (hclean : s.bch.dirty = false) (hsize : s.bch.sectsize.toNat = size) (hpos : 0 < size)
    (hlen : len.toNat = c * size) (hc : 0 < c) (ho : o < s.bch.nsectors.toNat) :
    fullSectors op drv s o len 0 =
      let m := min c (s.bch.nsectors.toNat - o)
      let r : Request := ⟨op, o, .ofNat 32 m⟩
      (if (drv r).toInt < 0 then drv r else .ofNat 32 (m * size),
        { s with requests := s.requests ++ [r] }) := by
  have hn := s.bch.nsectors.isLt
  dsimp only
  generalize hm : min c (s.bch.nsectors.toNat - o) = m
  have hmlt : m < 2 ^ 32 := by omega
  have hge : len ≥ s.bch.sectsize := by
    rw [ge_iff_le, BitVec.le_def, hlen, hsize]
    exact Nat.le_mul_of_pos_left size hc
  have hdiv : (len / s.bch.sectsize).toNat = c := by
    rw [BitVec.toNat_udiv, hlen, hsize, Nat.mul_div_cancel c hpos]
  -- the number of sectors that there are from here on
  have hclip : (if (o : Int) + (len / s.bch.sectsize).toNat > s.bch.nsectors.toNat then
      BitVec.ofInt 32 (s.bch.nsectors.toNat - o) else len / s.bch.sectsize) = .ofNat 32 m := by
    rw [hdiv]
    split
    · have hsub : (s.bch.nsectors.toNat : Int) - o = m := by omega
      rw [hsub, BitVec.ofInt_natCast]
    · have hcm : c = m := by omega
      apply BitVec.eq_of_toNat_eq
      rw [hdiv, BitVec.toNat_ofNat, Nat.mod_eq_of_lt hmlt, hcm]
  have hsectors : (BitVec.ofNat 32 m).toNat = m := by
    rw [BitVec.toNat_ofNat, Nat.mod_eq_of_lt hmlt]
  have hbytes : BitVec.ofNat 32 m * s.bch.sectsize = .ofNat 32 (m * size) := by
    apply BitVec.eq_of_toNat_eq
    rw [BitVec.toNat_mul, hsectors, hsize, BitVec.toNat_ofNat]
  have hnoerror : ¬ (0 : BitVec 32).toInt < 0 := by decide
  have hfirst : (0 : BitVec 32) + .ofNat 32 (m * size) = .ofNat 32 (m * size) := by simp
  unfold fullSectors
  rw [if_pos hge]
  dsimp only
  rw [hclip, flushed op drv hclean]
  dsimp only
  rw [if_neg hnoerror]
  split
  · next hret =>
    have hret : (drv ⟨op, o, .ofNat 32 m⟩).toInt < 0 := hret
    rw [if_pos hret]
    rfl
  · next hret =>
    have hret : ¬ (drv ⟨op, o, .ofNat 32 m⟩).toInt < 0 := hret
    rw [if_neg hret, hsectors, bch_request, hbytes, hfirst]
    split
    · rfl
    · next hmore =>
      have hcm : c = m := by omega
      have heq : len = .ofNat 32 (m * size) := by
        apply BitVec.eq_of_toNat_eq
        rw [BitVec.toNat_ofNat, ← hcm, ← hlen, Nat.mod_eq_of_lt len.isLt]
      rw [heq, BitVec.sub_self]
      exact finalSector_zero ..

/-- Whole sectors: nothing in front of them, and nothing behind them. -/
theorem bchlib_transfer_spec (op : Op) (drv : Driver) {s : State} {size o c : Nat}
    {offset len : BitVec 32} (hclean : s.bch.dirty = false) (hsize : s.bch.sectsize.toNat = size)
    (hpos : 0 < size) (hoffset : offset.toNat = o * size) (hlen : len.toNat = c * size) :
    bchlib_transfer op drv s offset len =
      if c = 0 then (0, s)
      else if s.bch.nsectors.toNat ≤ o then (op.behind, s)
      else
        let m := min c (s.bch.nsectors.toNat - o)
        let r : Request := ⟨op, o, .ofNat 32 m⟩
        (if (drv r).toInt < 0 then drv r else .ofNat 32 (m * size),
          { s with requests := s.requests ++ [r] }) := by
  have hdiv : (offset / s.bch.sectsize).toNat = o := by
    rw [BitVec.toNat_udiv, hoffset, hsize, Nat.mul_div_cancel o hpos]
  have hnone : BitVec.ofInt 16 (offset.toNat - (o : Int) * s.bch.sectsize.toNat) = 0 := by
    rw [hoffset, hsize]
    push_cast
    rw [Int.sub_self]
    rfl
  unfold bchlib_transfer
  by_cases hc : c = 0
  · have hzero : len < 1 := by
      rw [BitVec.lt_def, hlen, hc, Nat.zero_mul]
      decide
    rw [if_pos hzero, if_pos hc]
  · have hlt : ¬ len < 1 := by
      rw [BitVec.lt_def, hlen]
      have : 0 < c * size := Nat.mul_pos (Nat.pos_of_ne_zero hc) hpos
      change ¬ c * size < 1
      omega
    rw [if_neg hlt, if_neg hc, hdiv]
    dsimp only
    rw [hnone, if_neg (c := (0 : BitVec 16) > 0) (by decide)]
    by_cases ho : s.bch.nsectors.toNat ≤ o
    · rw [if_pos ho, if_pos (by exact_mod_cast ho)]
    · rw [if_neg ho, if_neg (by exact_mod_cast ho)]
      exact fullSectors_spec op drv hclean hsize hpos hlen (Nat.pos_of_ne_zero hc)
        (Nat.not_le.mp ho)

/-! ### Drives over a descriptor -/

theorem hwsectshift_some {size k : Nat} (h : hwsectshift size = some k) :
    size = 2 ^ k ∧ 512 ≤ size ∧ size ≤ 4096 := by
  unfold hwsectshift at h
  split at h
  · next hsize => cases h; subst hsize; decide
  · split at h
    · next hsize => cases h; subst hsize; decide
    · split at h
      · next hsize => cases h; subst hsize; decide
      · split at h
        · next hsize => cases h; subst hsize; decide
        · cases h

/-- What the character device asks for: `c` sectors from sector `o` on, as far as there are `n`. -/
def asked (op : Op) (n o c : Nat) : List Request :=
  if c = 0 ∨ n ≤ o then [] else [⟨op, o, .ofNat 32 (min c (n - o))⟩]

theorem asked_nil {op : Op} {n o c : Nat} (h : c = 0 ∨ n ≤ o) : asked op n o c = [] := if_pos h

theorem asked_cons {op : Op} {n o c : Nat} (hc : c ≠ 0) (ho : o < n) :
    asked op n o c = [⟨op, o, .ofNat 32 (min c (n - o))⟩] :=
  if_neg (not_or.mpr ⟨hc, Nat.not_le.mpr ho⟩)

/-- An error that a system call returns is no length. -/
theorem returned_iff (ret len : BitVec 32) :
    ¬ (if ret.toInt < 0 then (-1 : BitVec 32) else ret).toInt < 0 ∧
        (if ret.toInt < 0 then (-1 : BitVec 32) else ret) = len ↔
      0 ≤ ret.toInt ∧ ret = len := by
  by_cases h : ret.toInt < 0
  · rw [if_pos h]
    refine iff_of_false (fun hno => hno.1 (by decide)) ?_
    omega
  · rw [if_neg h, not_lt]

theorem toInt_nonneg_iff (x : BitVec 32) : 0 ≤ x.toInt ↔ x.toNat < 2 ^ 31 := by
  have hx := x.isLt
  rw [BitVec.toInt_eq_toNat_cond]
  split <;> omega

section Descriptor

variable (op : Op) (drv : Driver) {s : State} {nsectors size o c : Nat} {len : BitVec 32}

@[simp] theorem bch_advance (ret : BitVec 32) : (s.advance ret len).bch = s.bch := by
  unfold State.advance
  split <;> rfl

@[simp] theorem requests_advance (ret : BitVec 32) : (s.advance ret len).requests = s.requests := by
  unfold State.advance
  split <;> rfl

/-- The calls on a file that may be written. -/
theorem transfer_eq (h : s.bch.readonly = false) :
    let res := bchlib_transfer op drv s (.ofInt 32 s.f_pos) len
    transfer op drv s len = (if res.1.toInt < 0 then -1 else res.1, res.2.advance res.1 len) := by
  intro res
  by_cases hret : res.1.toInt < 0
  · cases op <;> simp [transfer, bch_read, bch_write, bchlib_read, bchlib_write, h, res, hret]
  · cases op <;> simp [transfer, bch_read, bch_write, bchlib_read, bchlib_write, h, res, hret]

/-- A transfer is complete if all sectors are there, and the block driver returns no error. -/
theorem transfer_spec (hbch : s.bch = bchlib_setup nsectors size false) (hpos : 0 < size)
    (hsize : size < 2 ^ 32) (hoffset : (BitVec.ofInt 32 s.f_pos).toNat = o * size)
    (hlen : len.toNat = c * size) :
    (transfer op drv s len).2.bch = s.bch ∧
      (transfer op drv s len).2.requests = s.requests ++ asked op (nsectors % 2 ^ 32) o c ∧
      (¬ (transfer op drv s len).1.toInt < 0 ∧ (transfer op drv s len).1 = len ↔
        c = 0 ∨ (o + c ≤ nsectors % 2 ^ 32 ∧ 0 ≤ (drv ⟨op, o, .ofNat 32 c⟩).toInt ∧
          c * size < 2 ^ 31)) := by
  have hclean : s.bch.dirty = false := by rw [hbch]; rfl
  have hwritable : s.bch.readonly = false := by rw [hbch]; rfl
  have hsectsize : s.bch.sectsize.toNat = size := by
    rw [hbch]
    exact (BitVec.toNat_ofNat ..).trans (Nat.mod_eq_of_lt hsize)
  have hn : s.bch.nsectors.toNat = nsectors % 2 ^ 32 := by
    rw [hbch]
    exact BitVec.toNat_ofNat ..
  rw [transfer_eq op drv hwritable,
    bchlib_transfer_spec op drv hclean hsectsize hpos hoffset hlen, hn]
  dsimp only
  rw [returned_iff]
  have hltlen := len.isLt
  by_cases hc : c = 0
  · have hzero : len = 0 := by
      apply BitVec.eq_of_toNat_eq
      rw [hlen, hc, Nat.zero_mul]
      rfl
    rw [if_pos hc, asked_nil (.inl hc), bch_advance, requests_advance, List.append_nil, hzero]
    have hfit : 0 ≤ (0 : BitVec 32).toInt := by decide
    exact ⟨rfl, rfl, iff_of_true ⟨hfit, rfl⟩ (.inl hc)⟩
  · have hne : 0 < c * size := Nat.mul_pos (Nat.pos_of_ne_zero hc) hpos
    rw [if_neg hc]
    by_cases ho : nsectors % 2 ^ 32 ≤ o
    · rw [if_pos ho, asked_nil (.inr ho), bch_advance, requests_advance, List.append_nil]
      refine ⟨rfl, rfl, iff_of_false ?_ (by omega)⟩
      rintro ⟨hle, heq⟩
      cases op with
      | read =>
        have hnat := congrArg BitVec.toNat heq
        rw [hlen] at hnat
        change 0 = _ at hnat
        omega
      | write =>
        have hbehind : ¬ 0 ≤ Op.write.behind.toInt := by decide
        exact hbehind hle
    · rw [if_neg ho, asked_cons hc (Nat.not_le.mp ho), bch_advance, requests_advance]
      refine ⟨rfl, rfl, ?_⟩
      rw [or_iff_right hc]
      by_cases hall : o + c ≤ nsectors % 2 ^ 32
      · have hmin : min c (nsectors % 2 ^ 32 - o) = c := by omega
        have hbytes : BitVec.ofNat 32 (c * size) = len := by
          apply BitVec.eq_of_toNat_eq
          rw [BitVec.toNat_ofNat, ← hlen, Nat.mod_eq_of_lt hltlen]
        rw [hmin, hbytes]
        split
        · next herr => exact iff_of_false (fun h => herr.not_ge h.1) (fun h => herr.not_ge h.2.1)
        · next hok =>
          rw [toInt_nonneg_iff, hlen]
          constructor
          · rintro ⟨hfit, -⟩
            exact ⟨hall, by omega, hfit⟩
          · rintro ⟨-, -, hfit⟩
            exact ⟨hfit, rfl⟩
      · -- fewer sectors than asked for
        refine iff_of_false ?_ (fun h => hall h.1)
        generalize hm : min c (nsectors % 2 ^ 32 - o) = m
        split
        · next herr => exact fun h => herr.not_ge h.1
        · rintro ⟨-, heq⟩
          have hnat := congrArg BitVec.toNat heq
          have hle : m * size ≤ c * size := Nat.mul_le_mul_right size (by omega)
          rw [BitVec.toNat_ofNat, hlen, Nat.mod_eq_of_lt (by omega)] at hnat
          have := Nat.eq_of_mul_eq_mul_right hpos hnat
          omega

/-- A position is refused if its bit 31 is set. -/
theorem lseek_spec (s : State) {off : Int} (h : 0 ≤ off) :
    lseek s off =
      (if (BitVec.ofInt 32 off).toInt < 0 then -1 else off, { s with f_pos := off }) := by
  have hneg : ¬ off < 0 := Int.not_lt.mpr h
  unfold lseek bch_seek
  rw [if_pos h]
  dsimp only
  by_cases hret : (BitVec.ofInt 32 off).toInt < 0
  · rw [if_pos hret, if_pos hret, if_pos hret]
  · rw [if_neg hret, if_neg hret, if_neg hneg]

theorem lseek_negative (s : State) {off : Int} (h : off < 0) : lseek s off = (-1, s) := by
  have hneg : ¬ off ≥ 0 := Int.not_le.mpr h
  unfold lseek bch_seek
  rw [if_neg hneg]
  rfl

/-- A shift makes a multiple of the size. -/
theorem shifted_eq {w k : Nat} (x : BitVec w) (hk : k ≤ w) :
    (x <<< k).toNat = (x <<< k).toNat / 2 ^ k * 2 ^ k := by
  refine (Nat.div_mul_cancel ?_).symm
  rw [BitVec.toNat_shiftLeft, Nat.shiftLeft_eq]
  exact (Nat.dvd_mod_iff (Nat.pow_dvd_pow 2 hk)).mpr (Nat.dvd_mul_left ..)

/-- The accesses of a drive over a descriptor, by the position and the length. -/
theorem disk_transfer_spec {fd : Int} {k : Nat} (hfd : 0 < fd) (hk : k < 32)
    (hbch : s.bch = bchlib_setup nsectors (2 ^ k) false) (sector : BitVec 64) (count : BitVec 32) :
    let off := (sector <<< k).toInt
    let o := (BitVec.ofInt 32 off).toNat / 2 ^ k
    let c := (count <<< k).toNat / 2 ^ k
    let res := disk_transfer op drv (some ⟨fd, k, none⟩) s sector count
    res.2.bch = s.bch ∧
    if off < 0 ∨ 2 ^ 31 ≤ (BitVec.ofInt 32 off).toNat then
      res.2.requests = s.requests ∧ res.1 = .RES_ERROR
    else
      res.2.requests = s.requests ++ asked op (nsectors % 2 ^ 32) o c ∧
      (res.1 = .RES_OK ↔ c = 0 ∨ (o + c ≤ nsectors % 2 ^ 32 ∧
        0 ≤ (drv ⟨op, o, .ofNat 32 c⟩).toInt ∧ c * 2 ^ k < 2 ^ 31)) := by
  intro off o c res
  have hoff : off = (sector <<< k).toInt := rfl
  have hseek : res = disk_transfer op drv (some ⟨fd, k, none⟩) s sector count := rfl
  unfold disk_transfer at hseek
  dsimp only at hseek
  rw [if_pos hfd, ← hoff] at hseek
  by_cases hneg : off < 0
  · rw [lseek_negative s hneg] at hseek
    dsimp only at hseek
    rw [if_pos rfl] at hseek
    rw [if_pos (.inl hneg), hseek]
    exact ⟨rfl, rfl, rfl⟩
  · have hrefused : (BitVec.ofInt 32 off).toInt < 0 ↔ 2 ^ 31 ≤ (BitVec.ofInt 32 off).toNat := by
      rw [← not_iff_not, Int.not_lt, toInt_nonneg_iff, Nat.not_le]
    rw [lseek_spec s (Int.not_lt.mp hneg)] at hseek
    dsimp only at hseek
    by_cases hbit : (BitVec.ofInt 32 off).toInt < 0
    · rw [if_pos hbit, if_pos rfl] at hseek
      rw [if_pos (.inr (hrefused.mp hbit)), hseek]
      exact ⟨rfl, rfl, rfl⟩
    · have hne : off ≠ -1 := by omega
      rw [if_neg hbit, if_neg hne, if_neg (not_not.mpr rfl)] at hseek
      rw [if_neg (not_or.mpr ⟨hneg, fun h => hbit (hrefused.mpr h)⟩)]
      -- the position and the length are multiples of the size
      have hoffset : (BitVec.ofInt 32 off).toNat = o * 2 ^ k := by
        have hnat : off = (sector <<< k).toNat := by
          have hcond := BitVec.toInt_eq_toNat_cond (sector <<< k)
          have hlt := (sector <<< k).isLt
          change off = _ at hcond
          split at hcond <;> omega
        refine (Nat.div_mul_cancel ?_).symm
        rw [hnat, BitVec.ofInt_natCast, BitVec.toNat_ofNat, shifted_eq sector (by omega)]
        exact (Nat.dvd_mod_iff (Nat.pow_dvd_pow 2 hk.le)).mpr (Nat.dvd_mul_left ..)
      have hlen : (count <<< k).toNat = c * 2 ^ k := shifted_eq count hk.le
      have hsize : 2 ^ k < 2 ^ 32 := Nat.pow_lt_pow_right (by decide) hk
      obtain ⟨hkeep, hreq, hok⟩ := transfer_spec op drv (s := { s with f_pos := off }) hbch
        (Nat.two_pow_pos k) hsize hoffset hlen
      rw [hseek, ← hok]
      split
      · next herr => exact ⟨hkeep, hreq, iff_of_false (fun h => by cases h) (fun h => h.1 herr)⟩
      · next hnoerr =>
        split
        · next hshort =>
          exact ⟨hkeep, hreq, iff_of_false (fun h => by cases h) (fun h => hshort h.2)⟩
        · next hfull => exact ⟨hkeep, hreq, iff_of_true rfl ⟨hnoerr, not_not.mp hfull⟩⟩

end Descriptor

/-! ### Runs -/

/-- A call of `disk_read` or `disk_write`, with what the block driver answers. -/
structure Call where
  op : Op
  drv : Driver
  sector : BitVec 64
  count : BitVec 32

def step (blkdrv : Blkdrv) (s : State) (a : Call) : Option State :=
  some (disk_transfer a.op a.drv (some blkdrv) s a.sector a.count).2

theorem mkfatfs_some {fd : Int} {nsectors size : Nat} {blkdrv : Blkdrv} {s : State}
    (h : mkfatfs fd nsectors size = some (blkdrv, s)) :
    ∃ k, size = 2 ^ k ∧ 512 ≤ size ∧ size ≤ 4096 ∧ blkdrv = ⟨fd, k, none⟩ ∧
      s.bch = bchlib_setup nsectors size false := by
  unfold mkfatfs at h
  split at h
  · cases h
  · obtain ⟨k, hk, heq⟩ := Option.map_eq_some_iff.mp h
    cases heq
    obtain ⟨hsize, hlow, hhigh⟩ := hwsectshift_some hk
    exact ⟨k, hsize, hlow, hhigh, rfl, rfl⟩

theorem shift_lt {size k : Nat} (hsize : size = 2 ^ k) (hhigh : size ≤ 4096) : k < 32 := by
  refine (Nat.pow_lt_pow_iff_right (a := 2) (by decide)).mp ?_
  rw [← hsize]
  omega

/-- The calls of a run leave the sector buffer alone. -/
theorem bch_run {fd : Int} (hfd : 0 < fd) {nsectors size : Nat} {blkdrv : Blkdrv} {s₀ s : State}
    (hopen : mkfatfs fd nsectors size = some (blkdrv, s₀)) {tr : List Call}
    (hrun : Lts.run (step blkdrv) s₀ tr = some s) : s.bch = bchlib_setup nsectors size false := by
  obtain ⟨k, hsize, -, hhigh, rfl, hbch⟩ := mkfatfs_some hopen
  refine Lts.run_invariant _ (I := fun s => s.bch = bchlib_setup nsectors size false) ?_ hbch hrun
  rintro t a t' ht h
  cases h
  subst hsize
  rw [(disk_transfer_spec a.op a.drv hfd (shift_lt rfl hhigh) ht a.sector a.count).1, ht]

/-! ### Bytes -/

/-- The bytes of a card that requests are for. -/
def bytes (nsectors size : Nat) (rs : List Request) : Set Int :=
  {b | 0 ≤ b ∧ b < nsectors * size ∧
    ∃ r ∈ rs, r.start_sector * size ≤ b ∧ b < (r.start_sector + r.nsectors.toNat) * size}

/-- The bytes of a card in `count` sectors from `sector` on. -/
def range (nsectors size sector count : Nat) : Set Int :=
  {b | 0 ≤ b ∧ b < nsectors * size ∧ sector * size ≤ b ∧ b < (sector + count) * size}

/-- An access is to the bytes of its sectors, and it is successful only if all of them were
    transferred. -/
structure Addressed (nsectors size : Nat) (drv : Driver) (sector count : Nat) (res : DRESULT)
    (rs : List Request) : Prop where
  exact : bytes nsectors size rs = range nsectors size sector count
  success : res = .RES_OK → ∀ b : Int, sector * size ≤ b → b < (sector + count) * size →
    ∃ r ∈ rs, drv r = r.nsectors ∧ r.start_sector * size ≤ b ∧
      b < (r.start_sector + r.nsectors.toNat) * size

/-- The requests of one call. -/
def requestsOf (s s' : State) : List Request := s'.requests.drop s.requests.length

theorem requestsOf_eq {s s' : State} {rs : List Request} (h : s'.requests = s.requests ++ rs) :
    requestsOf s s' = rs := by
  rw [requestsOf, h, List.drop_left]

/-- The accesses of a drive over a block driver. -/
theorem addressed_driver (nsectors size : Nat) (op : Op) (drv : Driver) (s : State) {k : Nat}
    {ops : Op → Bool} (hops : ops op = true) {sector : BitVec 64} (hsector : sector.toNat < 2 ^ 63)
    (count : BitVec 32) :
    Addressed nsectors size drv sector.toNat count.toNat
      (disk_transfer op drv (some ⟨0, k, some ops⟩) s sector count).1
      (requestsOf s (disk_transfer op drv (some ⟨0, k, some ops⟩) s sector count).2) := by
  have hstart : sector.toInt = sector.toNat := by
    rw [BitVec.toInt_eq_toNat_cond]
    split <;> omega
  have hres : disk_transfer op drv (some ⟨0, k, some ops⟩) s sector count =
      (if drv ⟨op, sector.toNat, count⟩ = count then .RES_OK else .RES_PARERR,
        { s with requests := s.requests ++ [⟨op, sector.toNat, count⟩] }) := by
    unfold disk_transfer
    dsimp only
    rw [if_neg (by decide), if_pos hops, hstart]
    by_cases hall : drv ⟨op, sector.toNat, count⟩ = count
    · rw [if_pos hall]
      exact if_pos hall
    · rw [if_neg hall]
      exact if_neg hall
  rw [hres, requestsOf_eq rfl]
  constructor
  · ext b
    simp [bytes, range]
  · intro hok b hlow hhigh
    refine ⟨_, List.mem_singleton_self _, ?_, hlow, hhigh⟩
    by_contra hne
    rw [if_neg hne] at hok
    cases hok

/-! ### Agreement -/

/-- The accesses that the character device serves as the block driver does: of no sectors; behind
    the end of the card, if the position is refused or is behind the end, too; and within the first
    2 GiB and the sectors that the device counts. The block driver must not return another number
    of sectors without an error, except where the device returns an error anyway. -/
def Served (nsectors size : Nat) (op : Op) (drv : Driver) (sector : Nat) (count : BitVec 32) :
    Prop :=
  count.toNat = 0 ∨
  (nsectors ≤ sector ∧ (2 ^ 31 ≤ sector * size % 2 ^ 32 ∨
    nsectors % 2 ^ 32 ≤ sector * size % 2 ^ 32 / size)) ∨
  (sector < nsectors ∧ sector * size < 2 ^ 31 ∧
    (nsectors < 2 ^ 32 ∨ sector + count.toNat ≤ nsectors % 2 ^ 32) ∧
    ((drv ⟨op, sector, count⟩).toInt < 0 ∨ drv ⟨op, sector, count⟩ = count ∨
      2 ^ 31 ≤ count.toNat * size ∨ nsectors % 2 ^ 32 < sector + count.toNat))

/-- The bytes of some sectors. -/
def span (size lo hi : Nat) : Set Int :=
  {b | ((lo * size : Nat) : Int) ≤ b ∧ b < ((hi * size : Nat) : Int)}

theorem span_eq_empty_iff {size lo hi : Nat} (hsize : 0 < size) :
    span size lo hi = ∅ ↔ hi ≤ lo := by
  change Set.Ico ((lo * size : Nat) : Int) ((hi * size : Nat) : Int) = ∅ ↔ _
  rw [Set.Ico_eq_empty_iff, not_lt, Int.ofNat_le, Nat.mul_le_mul_right_iff hsize]

theorem span_eq_iff {size lo hi lo' hi' : Nat} (hsize : 0 < size) (h : lo < hi) :
    span size lo hi = span size lo' hi' ↔ lo = lo' ∧ hi = hi' := by
  have hlt : ((lo * size : Nat) : Int) < ((hi * size : Nat) : Int) :=
    Int.ofNat_lt.mpr (Nat.mul_lt_mul_of_pos_right h hsize)
  change Set.Ico ((lo * size : Nat) : Int) ((hi * size : Nat) : Int) = Set.Ico _ _ ↔ _
  rw [Set.Ico_eq_Ico_iff (.inl hlt), Int.ofNat_inj, Int.ofNat_inj,
    Nat.mul_left_inj hsize.ne', Nat.mul_left_inj hsize.ne']

theorem range_eq_span (nsectors size sector count : Nat) :
    range nsectors size sector count = span size sector (min (sector + count) nsectors) := by
  ext b
  change 0 ≤ b ∧ b < (nsectors : Int) * size ∧ (sector : Int) * size ≤ b ∧
    b < ((sector : Int) + count) * size ↔
    ((sector * size : Nat) : Int) ≤ b ∧ b < ((min (sector + count) nsectors * size : Nat) : Int)
  rw [← Nat.mul_min_mul_right, ← Int.natCast_mul, ← Int.natCast_mul, ← Int.natCast_add,
    ← Int.natCast_mul]
  omega

theorem bytes_nil (nsectors size : Nat) : bytes nsectors size [] = ∅ := by
  ext b
  refine iff_of_false ?_ (Set.notMem_empty b)
  rintro ⟨-, -, r, hr, -⟩
  cases hr

/-- The bytes of one request, as far as it is for the card. -/
theorem bytes_singleton {nsectors size o m : Nat} (hm : o + m ≤ nsectors) (hlt : m < 2 ^ 32)
    (op : Op) : bytes nsectors size [⟨op, o, .ofNat 32 m⟩] = span size o (o + m) := by
  have hsectors : (BitVec.ofNat 32 m).toNat = m := Nat.mod_eq_of_lt hlt
  have hmin : min (o + m) nsectors = o + m := Nat.min_eq_left hm
  rw [← hmin, ← range_eq_span]
  ext b
  simp [bytes, range, hsectors]

/-- Nothing is asked for, which is an error. -/
theorem addressed_nil {nsectors size sector count : Nat} (hsize : 0 < size) (hcount : 0 < count)
    (drv : Driver) {res : DRESULT} (hres : res ≠ .RES_OK) :
    Addressed nsectors size drv sector count res [] ↔ nsectors ≤ sector := by
  have hempty : range nsectors size sector count = ∅ ↔ nsectors ≤ sector := by
    rw [range_eq_span, span_eq_empty_iff hsize]
    omega
  constructor
  · intro h
    exact hempty.mp (h.exact.symm.trans (bytes_nil ..))
  · intro h
    exact ⟨(bytes_nil ..).trans (hempty.mpr h).symm, fun hok => absurd hok hres⟩

/-- No sectors, which is no error unless the position is refused. -/
theorem addressed_none {nsectors size sector : Nat} (hsize : 0 < size) (drv : Driver)
    (res : DRESULT) : Addressed nsectors size drv sector 0 res [] := by
  constructor
  · rw [bytes_nil, range_eq_span, eq_comm, span_eq_empty_iff hsize]
    omega
  · intro _ b hlow hhigh
    rw [Int.natCast_zero, Int.add_zero] at hhigh
    exact absurd hhigh (Int.not_lt.mpr hlow)

/-- Something is asked for. It is right if it starts at the sector, and is not cut short. -/
theorem bytes_asked_iff {nsectors size o c n : Nat} (hsize : 0 < size) (hc : 0 < c)
    (hn : n = nsectors % 2 ^ 32) (ho : o < n) (op : Op) (sector : Nat) :
    bytes nsectors size (asked op n o c) = range nsectors size sector c ↔
      o = sector ∧ (nsectors < 2 ^ 32 ∨ sector + c ≤ n) := by
  have hle : o + min c (n - o) ≤ nsectors := by omega
  have hlt : min c (n - o) < 2 ^ 32 := by omega
  rw [asked_cons hc.ne' ho, bytes_singleton hle hlt, range_eq_span,
    span_eq_iff hsize (by omega)]
  omega

theorem asked_whole {op : Op} {n o : Nat} {count : BitVec 32} (hc : count.toNat ≠ 0)
    (h : o + count.toNat ≤ n) : asked op n o count.toNat = [⟨op, o, count⟩] := by
  have hmin : min count.toNat (n - o) = count.toNat := by omega
  have hcount : BitVec.ofNat 32 count.toNat = count := BitVec.ofNat_toNat ..
  rw [asked_cons hc (by omega), hmin, hcount]

/-- All of one request was transferred. -/
theorem transferred_iff {size sector : Nat} {count : BitVec 32} (hsize : 0 < size)
    (hcount : 0 < count.toNat) (op : Op) (drv : Driver) :
    (∀ b : Int, sector * size ≤ b → b < (sector + count.toNat : Int) * size →
      ∃ r ∈ [(⟨op, sector, count⟩ : Request)], drv r = r.nsectors ∧ r.start_sector * size ≤ b ∧
        b < (r.start_sector + r.nsectors.toNat) * size) ↔
      drv ⟨op, sector, count⟩ = count := by
  constructor
  · intro h
    have hfirst : (sector : Int) * size < (sector + count.toNat : Int) * size :=
      Int.mul_lt_mul_of_pos_right (by omega) (by omega)
    obtain ⟨r, hr, hall, -, -⟩ := h (sector * size) le_rfl hfirst
    cases List.mem_singleton.mp hr
    exact hall
  · intro hall b hlow hhigh
    exact ⟨_, List.mem_singleton_self _, hall, hlow, hhigh⟩

theorem toInt_shifted {sector : BitVec 64} {k : Nat} (h : sector.toNat * 2 ^ k < 2 ^ 63) :
    (sector <<< k).toInt = (sector.toNat * 2 ^ k : Nat) := by
  have hnat : (sector <<< k).toNat = sector.toNat * 2 ^ k := by
    rw [BitVec.toNat_shiftLeft, Nat.shiftLeft_eq, Nat.mod_eq_of_lt (by omega)]
  rw [BitVec.toInt_eq_toNat_cond, hnat]
  exact if_pos (by omega)

theorem toNat_shifted {count : BitVec 32} {k : Nat} (h : count.toNat * 2 ^ k < 2 ^ 32) :
    (count <<< k).toNat / 2 ^ k = count.toNat := by
  rw [BitVec.toNat_shiftLeft, Nat.shiftLeft_eq, Nat.mod_eq_of_lt h,
    Nat.mul_div_cancel _ (Nat.two_pow_pos k)]

/-- A position from 4 GiB on becomes one further down. -/
theorem wrapped (sector k : Nat) :
    let o := sector * 2 ^ k % 2 ^ 32 / 2 ^ k
    (sector * 2 ^ k < 2 ^ 32 → o = sector) ∧ (2 ^ 32 ≤ sector * 2 ^ k → o < sector) := by
  intro o
  have hpos := Nat.two_pow_pos k
  constructor
  · intro h
    change sector * 2 ^ k % 2 ^ 32 / 2 ^ k = sector
    rw [Nat.mod_eq_of_lt h, Nat.mul_div_cancel _ hpos]
  · intro h
    refine (Nat.div_lt_iff_lt_mul hpos).mpr ?_
    exact (Nat.mod_lt _ (by decide)).trans_le h

/-- The accesses of a drive over a descriptor, when the position and the length fit. -/
theorem requestsOf_descriptor {fd : Int} {k nsectors : Nat} (hfd : 0 < fd) (hk : k < 32)
    (op : Op) (drv : Driver) {s : State} (hbch : s.bch = bchlib_setup nsectors (2 ^ k) false)
    {sector : BitVec 64} {count : BitVec 32} (hoff : sector.toNat * 2 ^ k < 2 ^ 63)
    (hlen : count.toNat * 2 ^ k < 2 ^ 32) :
    let off := sector.toNat * 2 ^ k % 2 ^ 32
    let res := disk_transfer op drv (some ⟨fd, k, none⟩) s sector count
    if 2 ^ 31 ≤ off then requestsOf s res.2 = [] ∧ res.1 ≠ .RES_OK
    else
      requestsOf s res.2 = asked op (nsectors % 2 ^ 32) (off / 2 ^ k) count.toNat ∧
      (res.1 = .RES_OK ↔ count.toNat = 0 ∨ (off / 2 ^ k + count.toNat ≤ nsectors % 2 ^ 32 ∧
        0 ≤ (drv ⟨op, (off / 2 ^ k : Nat), count⟩).toInt ∧ count.toNat * 2 ^ k < 2 ^ 31)) := by
  intro off res
  have hspec := (disk_transfer_spec op drv hfd hk hbch sector count).2
  have hcount : BitVec.ofNat 32 count.toNat = count := BitVec.ofNat_toNat ..
  have hnonneg : ¬ ((sector.toNat * 2 ^ k : Nat) : Int) < 0 := Int.not_lt.mpr (Int.natCast_nonneg _)
  rw [toInt_shifted hoff, toNat_shifted hlen, hcount, BitVec.ofInt_natCast,
    BitVec.toNat_ofNat] at hspec
  by_cases hrefused : 2 ^ 31 ≤ off
  · rw [if_pos (.inr hrefused)] at hspec
    rw [if_pos hrefused]
    refine ⟨requestsOf_eq (hspec.1.trans (List.append_nil _).symm), ?_⟩
    rw [hspec.2]
    decide
  · rw [if_neg (not_or.mpr ⟨hnonneg, hrefused⟩)] at hspec
    rw [if_neg hrefused]
    exact ⟨requestsOf_eq hspec.1, hspec.2⟩

/-- The accesses of a drive over a descriptor that are what the block driver would do. -/
theorem addressed_descriptor_iff {fd : Int} {k nsectors : Nat} (hfd : 0 < fd) (hk : k < 32)
    (op : Op) (drv : Driver) {s : State} (hbch : s.bch = bchlib_setup nsectors (2 ^ k) false)
    {sector : BitVec 64} {count : BitVec 32} (hoff : sector.toNat * 2 ^ k < 2 ^ 63)
    (hlen : count.toNat * 2 ^ k < 2 ^ 32) :
    let res := disk_transfer op drv (some ⟨fd, k, none⟩) s sector count
    Addressed nsectors (2 ^ k) drv sector.toNat count.toNat res.1 (requestsOf s res.2) ↔
      Served nsectors (2 ^ k) op drv sector.toNat count := by
  have hspec := requestsOf_descriptor hfd hk op drv hbch hoff hlen
  have hsize := Nat.two_pow_pos k
  obtain ⟨hsame, hdown⟩ := wrapped sector.toNat k
  dsimp only at hspec hsame hdown ⊢
  unfold Served
  generalize (disk_transfer op drv (some ⟨fd, k, none⟩) s sector count).1 = res at hspec ⊢
  generalize requestsOf s (disk_transfer op drv (some ⟨fd, k, none⟩) s sector count).2 = rs
    at hspec ⊢
  generalize sector.toNat * 2 ^ k % 2 ^ 32 / 2 ^ k = o at hspec hsame hdown ⊢
  by_cases hc : count.toNat = 0
  · refine iff_of_true ?_ (.inl hc)
    have hnone : rs = [] := by
      split at hspec
      · exact hspec.1
      · exact hspec.1.trans (asked_nil (.inl hc))
    rw [hnone, hc]
    exact addressed_none hsize drv res
  · rw [or_iff_right hc]
    have hpos : 0 < count.toNat := Nat.pos_of_ne_zero hc
    by_cases hrefused : 2 ^ 31 ≤ sector.toNat * 2 ^ k % 2 ^ 32
    · rw [if_pos hrefused] at hspec
      rw [hspec.1, addressed_nil hsize hpos drv hspec.2]
      generalize sector.toNat * 2 ^ k = off at *
      omega
    · rw [if_neg hrefused, or_iff_right hc] at hspec
      obtain ⟨hrs, hok⟩ := hspec
      by_cases hbehind : nsectors % 2 ^ 32 ≤ o
      · have herr : res ≠ .RES_OK := fun h => by
          have := (hok.mp h).1
          omega
        rw [hrs, asked_nil (.inr hbehind), addressed_nil hsize hpos drv herr]
        generalize sector.toNat * 2 ^ k = off at *
        omega
      · have hright := bytes_asked_iff hsize hpos rfl (Nat.not_le.mp hbehind) op sector.toNat
        constructor
        · intro h
          rw [hrs] at h
          obtain ⟨rfl, hfit⟩ := hright.mp h.exact
          have hlow : sector.toNat * 2 ^ k < 2 ^ 31 := by
            generalize sector.toNat * 2 ^ k = off at *
            omega
          refine .inr ⟨by omega, hlow, hfit, ?_⟩
          by_contra hreturned
          obtain ⟨hnoerr, hshort, hlen, hall⟩ :
              0 ≤ (drv ⟨op, sector.toNat, count⟩).toInt ∧ drv ⟨op, sector.toNat, count⟩ ≠ count ∧
                count.toNat * 2 ^ k < 2 ^ 31 ∧
                sector.toNat + count.toNat ≤ nsectors % 2 ^ 32 := by
            simpa only [not_or, not_lt, not_le] using hreturned
          have htransferred := h.success (hok.mpr ⟨hall, hnoerr, hlen⟩)
          rw [asked_whole hc hall] at htransferred
          exact hshort ((transferred_iff hsize hpos op drv).mp htransferred)
        · rintro (⟨-, hno⟩ | ⟨-, hlow, hfit, hreturned⟩)
          · omega
          · obtain rfl : o = sector.toNat := hsame (by omega)
            rw [hrs]
            refine ⟨hright.mpr ⟨rfl, hfit⟩, fun hres => ?_⟩
            obtain ⟨hall, hnoerr, hlen⟩ := hok.mp hres
            have htransferred : drv ⟨op, sector.toNat, count⟩ = count :=
              (hreturned.resolve_left (Int.not_lt.mpr hnoerr)).resolve_right (by omega)
            rw [asked_whole hc hall]
            exact (transferred_iff hsize hpos op drv).mpr htransferred

/-- After every run, a drive over a descriptor and one over a block driver access the bytes of the
    sectors, and report success only if all were transferred, where the device serves them. -/
theorem addressed_iff {fd : Int} (hfd : 0 < fd) {nsectors size : Nat} {blkdrv : Blkdrv}
    {s₀ s : State} (hopen : mkfatfs fd nsectors size = some (blkdrv, s₀)) {tr : List Call}
    (hrun : Lts.run (step blkdrv) s₀ tr = some s) (op : Op) (drv : Driver) {k : Nat}
    {ops : Op → Bool} (hops : ops op = true) {sector : BitVec 64} {count : BitVec 32}
    (hoff : sector.toNat * size < 2 ^ 63) (hlen : count.toNat * size < 2 ^ 32) :
    let res := disk_transfer op drv (some blkdrv) s sector count
    let ref := disk_transfer op drv (some ⟨0, k, some ops⟩) s sector count
    (Addressed nsectors size drv sector.toNat count.toNat res.1 (requestsOf s res.2) ∧
      Addressed nsectors size drv sector.toNat count.toNat ref.1 (requestsOf s ref.2)) ↔
      Served nsectors size op drv sector.toNat count := by
  have hbch := bch_run hfd hopen hrun
  obtain ⟨j, rfl, -, hhigh, rfl, -⟩ := mkfatfs_some hopen
  have hsector : sector.toNat < 2 ^ 63 :=
    (Nat.le_mul_of_pos_right _ (Nat.two_pow_pos j)).trans_lt hoff
  have hdriver := addressed_driver nsectors (2 ^ j) op drv s (k := k) hops hsector count
  intro res ref
  rw [and_iff_left hdriver]
  exact addressed_descriptor_iff hfd (shift_lt rfl hhigh) op drv hbch hoff hlen

/-- A driver that transfers all. -/
def allTransferred : Driver := fun r => r.nsectors

/-- A card of 8 GiB, which `open` returned 3 for. -/
def cardDrive : Blkdrv := ⟨3, 9, none⟩

def cardOpened : State := ⟨0, bchlib_setup (2 ^ 24) 512 false, []⟩

/-- The card after one access. -/
def cardRead : State := (disk_read allTransferred (some cardDrive) cardOpened 7 1).2

/-- The same card without a descriptor. -/
def cardDriver : Blkdrv := ⟨0, 9, some fun _ => true⟩

/-- The last sector below 2 GiB. -/
theorem addressed_below_2GiB :
    let res := disk_read allTransferred (some cardDrive) cardRead 4194303 1
    let ref := disk_read allTransferred (some cardDriver) cardRead 4194303 1
    Addressed (2 ^ 24) 512 allTransferred 4194303 1 res.1 (requestsOf cardRead res.2) ∧
      Addressed (2 ^ 24) 512 allTransferred 4194303 1 ref.1 (requestsOf cardRead ref.2) := by
  have hserved : Served (2 ^ 24) 512 .read allTransferred 4194303 1 :=
    .inr (.inr ⟨by decide, by decide, .inl (by decide), .inr (.inl rfl)⟩)
  have hrun : Lts.run (step cardDrive) cardOpened [⟨.read, allTransferred, 7, 1⟩] =
      some cardRead := rfl
  exact (@addressed_iff 3 (by decide) (2 ^ 24) 512 cardDrive cardOpened cardRead rfl _ hrun .read
    allTransferred 9 (fun _ => true) rfl 4194303 1 (by decide) (by decide)).mpr hserved

/-- Sector 2^23, at 4 GiB, is sector 0 over a descriptor, and that is reported as success. -/
theorem addressed_fails :
    let res := disk_read allTransferred (some cardDrive) cardRead 8388608 1
    res.1 = .RES_OK ∧ requestsOf cardRead res.2 = [⟨.read, 0, 1⟩] ∧
      ¬ Addressed (2 ^ 24) 512 allTransferred 8388608 1 res.1 (requestsOf cardRead res.2) := by
  have hres : (disk_read allTransferred (some cardDrive) cardRead 8388608 1).1 = .RES_OK := by
    decide
  have hrequests : requestsOf cardRead
      (disk_read allTransferred (some cardDrive) cardRead 8388608 1).2 = [⟨.read, 0, 1⟩] := by
    decide
  refine ⟨hres, hrequests, fun h => ?_⟩
  obtain ⟨r, hr, -, hlow, hhigh⟩ := h.success hres (2 ^ 32) (by decide) (by decide)
  rw [hrequests] at hr
  cases List.mem_singleton.mp hr
  exact absurd hhigh (by decide)

end Hcrtos.Native.DiskIo
