import Hcrtos.ForStd.SortedRing
import Hcrtos.Native.Alloc

/-!
# The block-info table

The free clusters of the table are a sorted ring through entry 0, no two of them adjacent, and
the blocks with status 0 are exactly theirs. Each edit of the allocator keeps this and leaves
the entries of all other busy blocks as they were.

## Key results

- `Clusters.take`: the first blocks of a cluster become an object
- `Clusters.extend`, `Clusters.newObject`: the core grows
- `Busy.joinPrev`, `Touching.joinNext`: the blocks of an object join the clusters
- `Clusters.giveBack`: the last cluster leaves the core
-/

namespace Hcrtos.Native.Alloc

open Word

namespace Table

variable {t t' : Table} {b n i : Nat}

/-! ### The words of the entries -/

@[simp] theorem setStatus_status (v : Nat) :
    (t.setStatus b v i).status = if i = b then v else (t i).status := rfl

@[simp] theorem setStatus_w1 (v : Nat) : (t.setStatus b v i).w1 = (t i).w1 := rfl

@[simp] theorem setStatus_w2 (v : Nat) : (t.setStatus b v i).w2 = (t i).w2 := rfl

@[simp] theorem setStatus_w3 (v : Nat) : (t.setStatus b v i).w3 = (t i).w3 := rfl

@[simp] theorem setW1_status (v : Nat) : (t.setW1 b v i).status = (t i).status := rfl

@[simp] theorem setW1_w1 (v : Nat) : (t.setW1 b v i).w1 = if i = b then v else (t i).w1 := rfl

@[simp] theorem setW1_w2 (v : Nat) : (t.setW1 b v i).w2 = (t i).w2 := rfl

@[simp] theorem setW1_w3 (v : Nat) : (t.setW1 b v i).w3 = (t i).w3 := rfl

@[simp] theorem setW2_status (v : Nat) : (t.setW2 b v i).status = (t i).status := rfl

@[simp] theorem setW2_w1 (v : Nat) : (t.setW2 b v i).w1 = (t i).w1 := rfl

@[simp] theorem setW2_w2 (v : Nat) : (t.setW2 b v i).w2 = if i = b then v else (t i).w2 := rfl

@[simp] theorem setW2_w3 (v : Nat) : (t.setW2 b v i).w3 = (t i).w3 := rfl

@[simp] theorem setW3_status (v : Nat) : (t.setW3 b v i).status = (t i).status := rfl

@[simp] theorem setW3_w1 (v : Nat) : (t.setW3 b v i).w1 = (t i).w1 := rfl

@[simp] theorem setW3_w2 (v : Nat) : (t.setW3 b v i).w2 = (t i).w2 := rfl

@[simp] theorem setW3_w3 (v : Nat) : (t.setW3 b v i).w3 = if i = b then v else (t i).w3 := rfl

/-- The counter of the loop over the tail of a run of blocks. -/
theorem tail_iff (hn : 0 < n) (hb : b + n ≤ 2 ^ 32) :
    (i < 2 ^ 32 ∧ 0 < sub32 i b ∧ sub32 i b ≤ sub32 n 1) ↔ b < i ∧ i < b + n := by
  unfold sub32
  omega

/-- The entries of a new object. -/
theorem setObject_apply (hn : 0 < n) (hb : b + n ≤ 2 ^ 32) (i : Nat) :
    t.setObject b n i =
      if i = b then ⟨1, 0, n, (t i).w3⟩
      else if b < i ∧ i < b + n then ⟨1, 0, 2 ^ 32 - (i - b), (t i).w3⟩
      else t i := by
  unfold setObject markTail
  simp only [tail_iff hn hb]
  by_cases hi : i = b
  · rw [if_neg (by omega), if_pos hi]
    simp [setStatus, setW1, setW2, hi]
  · rw [if_neg hi]
    split
    · rename_i htail
      have : sub32 0 (sub32 i b) = 2 ^ 32 - (i - b) := by
        unfold sub32
        omega
      simp [this]
    · simp [setStatus, setW1, setW2, hi]

/-- The statuses of a run of blocks that is freed. -/
theorem clearTail_apply (hn : 0 < n) (hb : b + n ≤ 2 ^ 32) (i : Nat) :
    t.clearTail b n i = if b < i ∧ i < b + n then { t i with status := 0 } else t i := by
  unfold clearTail
  simp only [tail_iff hn hb]

/-! ### Objects -/

/-- `n` blocks from `b` on are busy, are not fragmented, and the first one holds their number. -/
structure IsRun (t : Table) (b n : Nat) : Prop where
  pos : 0 < n
  status : ∀ i, b ≤ i → i < b + n → (t i).status = 1
  type : ∀ i, b ≤ i → i < b + n → (t i).type = 0
  size : (t b).size = n

/-- `n` blocks from `b` on belong to one large object. -/
structure IsObject (t : Table) (b n : Nat) : Prop extends IsRun t b n where
  back : ∀ i, b < i → i < b + n → (t i).size = 2 ^ 32 - (i - b)

theorem isObject_setObject (hn : 0 < n) (hb : b + n ≤ 2 ^ 32) : (t.setObject b n).IsObject b n where
  pos := hn
  status i hi hlt := by
    rw [setObject_apply hn hb]
    split
    · rfl
    · rw [if_pos (by omega)]
  type i hi hlt := by
    rw [setObject_apply hn hb]
    split
    · rfl
    · rw [if_pos (by omega)]
  size := by rw [setObject_apply hn hb, if_pos rfl]
  back i hi hlt := by rw [setObject_apply hn hb, if_neg (by omega), if_pos ⟨hi, hlt⟩]

theorem IsObject.congr (h : t.IsObject b n) (heq : ∀ i, b ≤ i → i < b + n → t' i = t i) :
    t'.IsObject b n where
  pos := h.pos
  status i hi hlt := by rw [heq i hi hlt]; exact h.status i hi hlt
  type i hi hlt := by rw [heq i hi hlt]; exact h.type i hi hlt
  size := by rw [heq b (Nat.le_refl b) (by have := h.pos; omega)]; exact h.size
  back i hi hlt := by rw [heq i (by omega) hlt]; exact h.back i hi hlt

/-- The tail of an object leads back over less than its size, the head of another one does
    not. -/
theorem IsObject.disjoint {b' n' : Nat} (h : t.IsObject b n) (h' : t.IsObject b' n')
    (hn : n ≤ 2 ^ 31) (hn' : n' ≤ 2 ^ 31) (hlt : b < b') : b + n ≤ b' := by
  by_contra hover
  have hback := h.back b' hlt (by omega)
  have hsize := h'.size
  omega

theorem IsObject.size_eq {n' : Nat} (h : t.IsObject b n) (h' : t.IsObject b n') : n = n' :=
  h.size.symm.trans h'.size

/-! ### Clusters -/

/-- The links of the free list go through `S`, in increasing order. -/
abbrev Ring (t : Table) (S : Finset Nat) : Prop :=
  SortedRing (fun b => (t b).next) (fun b => (t b).prev) 0 S

/-- The free clusters start at `S`, and the core reaches up to the block `E`. -/
structure Clusters (t : Table) (S : Finset Nat) (E : Nat) : Prop where
  ring : t.Ring S
  zero : (t 0).status = 0 ∧ (t 0).freeSize = 0
  pos : ∀ c ∈ S, 0 < (t c).freeSize
  bound : ∀ c ∈ S, c + (t c).freeSize ≤ E
  apart : ∀ c ∈ S, ∀ d ∈ S, c < d → c + (t c).freeSize < d
  free : ∀ c ∈ S, ∀ b, c ≤ b → b < c + (t c).freeSize → (t b).status = 0
  busy : ∀ b, 0 < b → b < E → (t b).status = 1 ∨ ∃ c ∈ S, c ≤ b ∧ b < c + (t c).freeSize
  beyond : ∀ b, E ≤ b → (t b).status = 0

section

variable {S : Finset Nat} {E c : Nat}

/-- The clusters are read off the statuses, the ring and the sizes of the clusters. -/
theorem Clusters.congr (h : t.Clusters S E) (hstatus : ∀ b, (t' b).status = (t b).status)
    (hwords : ∀ b ∈ insert 0 S, t' b = t b) : t'.Clusters S E := by
  have hmem : ∀ c ∈ S, t' c = t c := fun c hc => hwords c (Finset.mem_insert_of_mem hc)
  have hzero : t' 0 = t 0 := hwords 0 (Finset.mem_insert_self 0 S)
  constructor
  · exact h.ring.congr (fun x hx => by rw [hwords x hx]) (fun x hx => by rw [hwords x hx])
  · rw [hzero]
    exact h.zero
  · intro c hc
    rw [hmem c hc]
    exact h.pos c hc
  · intro c hc
    rw [hmem c hc]
    exact h.bound c hc
  · intro c hc d hd
    rw [hmem c hc]
    exact h.apart c hc d hd
  · intro c hc b
    rw [hmem c hc, hstatus]
    exact h.free c hc b
  · intro b hb hlt
    rw [hstatus]
    exact (h.busy b hb hlt).imp_right fun ⟨c, hc, hcb⟩ => ⟨c, hc, by rw [hmem c hc]; exact hcb⟩
  · intro b hb
    rw [hstatus]
    exact h.beyond b hb

/-- The entries of busy blocks are unchanged. -/
def SameBusy (t t' : Table) : Prop := ∀ b, (t b).status = 1 → t' b = t b

theorem IsObject.sameBusy (h : t.IsObject b n) (hsame : SameBusy t t') : t'.IsObject b n :=
  h.congr fun i hi hlt => hsame i (h.status i hi hlt)

theorem SameBusy.trans {t'' : Table} (h : SameBusy t t') (h' : SameBusy t' t'') :
    SameBusy t t'' := fun b hb => by
  have heq := h b hb
  rw [h' b (by rw [heq]; exact hb), heq]

theorem Clusters.status_zero (h : t.Clusters S E) (hb : b ∈ insert 0 S) : (t b).status = 0 := by
  obtain rfl | hb := Finset.mem_insert.mp hb
  · exact h.zero.1
  · exact h.free b hb b (Nat.le_refl b) (by have := h.pos b hb; omega)

theorem Clusters.lt_of_mem (h : t.Clusters S E) (hc : c ∈ S) : 0 < c ∧ c < E := by
  have := h.ring.lt c hc
  have := h.pos c hc
  have := h.bound c hc
  omega

/-! Taking blocks from a cluster. -/

/-- The blocks of a cluster behind its first one are not listed. -/
theorem Clusters.notMem_of_inside (h : t.Clusters S E) (hc : c ∈ S) (hlt : c < b)
    (hb : b < c + (t c).freeSize) : b ∉ insert 0 S := by
  intro hmem
  obtain rfl | hmem := Finset.mem_insert.mp hmem
  · omega
  · have := h.apart c hc b hmem hlt
    omega

/-- The words after the first blocks of a longer cluster are taken. -/
theorem take_of_lt (h : t.Clusters S E) (hE : E ≤ 2 ^ 31) (hc : c ∈ S) (hn : 0 < n)
    (hlt : n < (t c).freeSize) :
    (t.take c n).2 = c + n ∧ ∀ i, (t.take c n).1 i =
      { t i with
        w1 := if i = c + n then (t c).freeSize - n else (t i).w1
        w2 := if i = (t c).prev then c + n else if i = c + n then (t c).next else (t i).w2
        w3 := if i = (t c).next then c + n else if i = c + n then (t c).prev else (t i).w3 } := by
  have hcn : c ∈ insert 0 S := Finset.mem_insert_of_mem hc
  have hbound := h.bound c hc
  have hrest : c + n ∉ insert 0 S := h.notMem_of_inside hc (by omega) (by omega)
  have hnext : (t c).next ≠ c + n := fun heq => hrest (heq ▸ h.ring.next_mem c hcn)
  have hself : c ≠ (t c).next := Ne.symm (h.ring.next_ne_self hc)
  have hcr : c ≠ c + n := by omega
  have hadd : add32 c n = c + n := add32_of_lt (by omega)
  have hsub : sub32 (t c).freeSize n = (t c).freeSize - n := sub32_of_le (by omega) (by omega)
  unfold take
  rw [if_pos hlt, hadd]
  refine ⟨rfl, fun i => ?_⟩
  simp only [setW1, setW2, setW3, hcr, hself, hnext, hsub, if_true, if_false]
/-- The words after a cluster is taken as a whole. -/
theorem take_of_eq (h : t.Clusters S E) (hc : c ∈ S) (heq : (t c).freeSize = n) :
    (t.take c n).2 = (t c).next ∧ ∀ i, (t.take c n).1 i =
      { t i with
        w2 := if i = (t c).prev then (t c).next else (t i).w2
        w3 := if i = (t c).next then (t c).prev else (t i).w3 } := by
  have hself : c ≠ (t c).next := Ne.symm (h.ring.next_ne_self hc)
  unfold take
  rw [if_neg (by omega)]
  refine ⟨rfl, fun i => ?_⟩
  simp only [setW2, setW3, hself, if_false]

/-- An object leaves the entries outside of its blocks alone. -/
theorem setObject_of_outside (hn : 0 < n) (hb : b + n ≤ 2 ^ 32) (hi : i < b ∨ b + n ≤ i) :
    t.setObject b n i = t i := by
  rw [setObject_apply hn hb, if_neg (by omega), if_neg (by omega)]

theorem setObject_status (hn : 0 < n) (hb : b + n ≤ 2 ^ 32) (hi : b ≤ i) (hlt : i < b + n) :
    (t.setObject b n i).status = 1 :=
  (isObject_setObject hn hb).status i hi hlt

/-- The listed entries are outside of the blocks that are taken. -/
theorem Clusters.outside (h : t.Clusters S E) (hc : c ∈ S) (hn : n ≤ (t c).freeSize)
    (hb : b ∈ insert 0 S) (hbc : b ≠ c) : b < c ∨ c + n ≤ b := by
  by_contra hin
  exact h.notMem_of_inside hc (by omega) (by omega) hb

/-- Two clusters have no block in common. -/
theorem Clusters.outside_cluster (h : t.Clusters S E) (hc : c ∈ S) {d : Nat} (hd : d ∈ S)
    (hdc : d ≠ c) (hb : d ≤ b) (hlt : b < d + (t d).freeSize) :
    b < c ∨ c + (t c).freeSize ≤ b := by
  rcases Nat.lt_or_gt_of_ne hdc with hlt' | hgt
  · have := h.apart d hd c hc hlt'
    omega
  · have := h.apart c hc d hd hgt
    omega

/-- The first blocks of a longer cluster become an object. -/
theorem Clusters.take_lt (h : t.Clusters S E) (hE : E ≤ 2 ^ 31) (hc : c ∈ S) (hn : 0 < n)
    (hlt : n < (t c).freeSize) :
    ((t.take c n).1.setObject c n).Clusters (insert (c + n) (S.erase c)) E ∧
      (((t.take c n).1.setObject c n) (c + n)).freeSize = (t c).freeSize - n := by
  have hcn : c ∈ insert 0 S := Finset.mem_insert_of_mem hc
  have hbound := h.bound c hc
  have hpos := h.lt_of_mem hc
  have hb : c + n ≤ 2 ^ 32 := by omega
  obtain ⟨-, happly⟩ := take_of_lt h hE hc hn hlt
  have hrest : c + n ∉ insert 0 S := h.notMem_of_inside hc (by omega) (by omega)
  have hprev : (t c).prev ≠ c + n := fun heq => hrest (heq ▸ h.ring.prev_mem c hcn)
  have hnext : (t c).next ≠ c + n := fun heq => hrest (heq ▸ h.ring.next_mem c hcn)
  have hmem : ∀ d ∈ insert (c + n) (S.erase c), d = c + n ∨ (d ∈ S ∧ d ≠ c ∧ d ≠ c + n) := by
    intro d hd
    rw [Finset.mem_insert, Finset.mem_erase] at hd
    refine hd.imp_right fun ⟨hdc, hdS⟩ => ⟨hdS, hdc, ?_⟩
    rintro rfl
    exact hrest (Finset.mem_insert_of_mem hdS)
  -- the listed entries are those of `take`
  have hlisted : ∀ x ∈ insert 0 (insert (c + n) (S.erase c)),
      (t.take c n).1.setObject c n x = (t.take c n).1 x := by
    intro x hx
    apply setObject_of_outside hn hb
    obtain rfl | hx := Finset.mem_insert.mp hx
    · omega
    · obtain rfl | ⟨hxS, hxc, -⟩ := hmem x hx
      · omega
      · exact h.outside hc (by omega) (Finset.mem_insert_of_mem hxS) hxc
  have hstatus : ∀ x, (x < c ∨ c + n ≤ x) →
      ((t.take c n).1.setObject c n x).status = (t x).status := by
    intro x hx
    rw [setObject_of_outside hn hb hx, happly]
  have hsize : ∀ d ∈ insert (c + n) (S.erase c), (((t.take c n).1.setObject c n) d).freeSize =
      if d = c + n then (t c).freeSize - n else (t d).freeSize := by
    intro d hd
    rw [hlisted d (Finset.mem_insert_of_mem hd), happly]
  have hrestMem : c + n ∈ insert (c + n) (S.erase c) := Finset.mem_insert_self _ _
  refine ⟨?_, by rw [hsize _ hrestMem, if_pos rfl]⟩
  constructor
  · apply h.ring.replace hc (by omega)
    · by_cases hz : (t c).next = 0
      · exact .inl hz
      · have hlt' := h.ring.lt_next c hcn hz
        have := h.apart c hc _ ((Finset.mem_insert.mp (h.ring.next_mem c hcn)).resolve_left hz) hlt'
        exact .inr (by omega)
    · intro x hx
      rw [hlisted x hx, happly]
      grind
    · intro x hx
      rw [hlisted x hx, happly]
      grind
  · rw [hlisted 0 (Finset.mem_insert_self _ _), happly]
    exact ⟨h.zero.1, by rw [if_neg (by omega)]; exact h.zero.2⟩
  · intro d hd
    rw [hsize d hd]
    obtain rfl | ⟨hdS, -, hne⟩ := hmem d hd
    · rw [if_pos rfl]
      omega
    · rw [if_neg hne]
      exact h.pos d hdS
  · intro d hd
    rw [hsize d hd]
    obtain rfl | ⟨hdS, -, hne⟩ := hmem d hd
    · rw [if_pos rfl]
      omega
    · rw [if_neg hne]
      exact h.bound d hdS
  · intro d hd e he hde
    rw [hsize d hd]
    obtain rfl | ⟨hdS, hdc, hne⟩ := hmem d hd
    · rw [if_pos rfl]
      obtain rfl | ⟨heS, -, -⟩ := hmem e he
      · omega
      · have := h.apart c hc e heS (by omega)
        omega
    · rw [if_neg hne]
      obtain rfl | ⟨heS, -, -⟩ := hmem e he
      · -- a cluster before `c + n` is one before `c`
        rcases Nat.lt_or_gt_of_ne hdc with hlt' | hgt
        · have := h.apart d hdS c hc hlt'
          omega
        · have := h.apart c hc d hdS hgt
          omega
      · exact h.apart d hdS e heS hde
  · intro d hd b hdb hlt'
    rw [hsize d hd] at hlt'
    obtain rfl | ⟨hdS, hdc, hne⟩ := hmem d hd
    · rw [if_pos rfl] at hlt'
      rw [hstatus b (by omega)]
      exact h.free c hc b (by omega) (by omega)
    · rw [if_neg hne] at hlt'
      have := h.outside_cluster hc hdS hdc hdb hlt'
      rw [hstatus b (by omega)]
      exact h.free d hdS b hdb hlt'
  · intro b hb0 hbE
    by_cases hin : c ≤ b ∧ b < c + n
    · exact .inl (setObject_status hn hb hin.1 hin.2)
    · rw [hstatus b (by omega)]
      refine (h.busy b hb0 hbE).imp_right ?_
      rintro ⟨d, hdS, hdb, hlt'⟩
      by_cases hdc : d = c
      · subst hdc
        exact ⟨d + n, hrestMem, by omega, by rw [hsize _ hrestMem, if_pos rfl]; omega⟩
      · have hd : d ∈ insert (c + n) (S.erase c) :=
          Finset.mem_insert_of_mem (Finset.mem_erase.mpr ⟨hdc, hdS⟩)
        have hne : d ≠ c + n := by
          rintro rfl
          exact hrest (Finset.mem_insert_of_mem hdS)
        exact ⟨d, hd, hdb, by rw [hsize d hd, if_neg hne]; exact hlt'⟩
  · intro b hb
    rw [hstatus b (by omega)]
    exact h.beyond b hb

/-- A cluster as a whole becomes an object. -/
theorem Clusters.take_eq (h : t.Clusters S E) (hE : E ≤ 2 ^ 31) (hc : c ∈ S)
    (heq : (t c).freeSize = n) : ((t.take c n).1.setObject c n).Clusters (S.erase c) E := by
  have hcn : c ∈ insert 0 S := Finset.mem_insert_of_mem hc
  have hn : 0 < n := heq ▸ h.pos c hc
  have hbound := h.bound c hc
  have hpos := h.lt_of_mem hc
  have hb : c + n ≤ 2 ^ 32 := by omega
  obtain ⟨-, happly⟩ := take_of_eq h hc heq
  have hlisted : ∀ x ∈ insert 0 (S.erase c),
      (t.take c n).1.setObject c n x = (t.take c n).1 x := by
    intro x hx
    apply setObject_of_outside hn hb
    obtain rfl | hx := Finset.mem_insert.mp hx
    · omega
    · obtain ⟨hxc, hxS⟩ := Finset.mem_erase.mp hx
      exact h.outside hc (by omega) (Finset.mem_insert_of_mem hxS) hxc
  have hstatus : ∀ x, (x < c ∨ c + n ≤ x) →
      ((t.take c n).1.setObject c n x).status = (t x).status := by
    intro x hx
    rw [setObject_of_outside hn hb hx, happly]
  have hsize : ∀ d ∈ S.erase c,
      (((t.take c n).1.setObject c n) d).freeSize = (t d).freeSize := by
    intro d hd
    rw [hlisted d (Finset.mem_insert_of_mem hd), happly]
  constructor
  · apply h.ring.erase hc
    · intro x hx
      rw [hlisted x hx, happly]
    · intro x hx
      rw [hlisted x hx, happly]
  · rw [hlisted 0 (Finset.mem_insert_self _ _), happly]
    exact h.zero
  · intro d hd
    rw [hsize d hd]
    exact h.pos d (Finset.mem_of_mem_erase hd)
  · intro d hd
    rw [hsize d hd]
    exact h.bound d (Finset.mem_of_mem_erase hd)
  · intro d hd e he
    rw [hsize d hd]
    exact h.apart d (Finset.mem_of_mem_erase hd) e (Finset.mem_of_mem_erase he)
  · intro d hd b hdb hlt
    rw [hsize d hd] at hlt
    obtain ⟨hdc, hdS⟩ := Finset.mem_erase.mp hd
    have := h.outside_cluster hc hdS hdc hdb hlt
    rw [hstatus b (by omega)]
    exact h.free d hdS b hdb hlt
  · intro b hb0 hbE
    by_cases hin : c ≤ b ∧ b < c + n
    · exact .inl (setObject_status hn hb hin.1 hin.2)
    · rw [hstatus b (by omega)]
      refine (h.busy b hb0 hbE).imp_right ?_
      rintro ⟨d, hdS, hdb, hlt⟩
      have hdc : d ≠ c := by
        rintro rfl
        omega
      have hd : d ∈ S.erase c := Finset.mem_erase.mpr ⟨hdc, hdS⟩
      exact ⟨d, hd, hdb, by rw [hsize d hd]; exact hlt⟩
  · intro b hb'
    rw [hstatus b (by omega)]
    exact h.beyond b hb'

/-- Taking blocks from a cluster leaves the busy blocks alone. -/
theorem Clusters.take_sameBusy (h : t.Clusters S E) (hE : E ≤ 2 ^ 31) (hc : c ∈ S) (hn : 0 < n)
    (hle : n ≤ (t c).freeSize) : SameBusy t ((t.take c n).1.setObject c n) := by
  intro b hb
  have hbound := h.bound c hc
  have hfree : ∀ x ∈ insert 0 S, b ≠ x := by
    rintro x hx rfl
    rw [h.status_zero hx] at hb
    omega
  have hout : b < c ∨ c + (t c).freeSize ≤ b := by
    by_contra hin
    rw [h.free c hc b (by omega) (by omega)] at hb
    omega
  have hcn : c ∈ insert 0 S := Finset.mem_insert_of_mem hc
  have hprev := hfree _ (h.ring.prev_mem c hcn)
  have hnext := hfree _ (h.ring.next_mem c hcn)
  rw [setObject_of_outside hn (by omega) (by omega)]
  rcases Nat.lt_or_ge n (t c).freeSize with hlt | hge
  · rw [(take_of_lt h hE hc hn hlt).2, if_neg (by omega), if_neg hprev, if_neg (by omega),
      if_neg hnext, if_neg (by omega)]
  · rw [(take_of_eq h hc (by omega)).2, if_neg hprev, if_neg hnext]

/-- The first blocks of a cluster become an object, and the search goes on behind them. -/
theorem Clusters.take (h : t.Clusters S E) (hE : E ≤ 2 ^ 31) (hc : c ∈ S) (hn : 0 < n)
    (hle : n ≤ (t c).freeSize) : ∃ S', ((t.take c n).1.setObject c n).Clusters S' E ∧
      (t.take c n).2 ∈ insert 0 S' ∧
      S'.card + (if (t c).freeSize > n then 0 else 1) = S.card ∧
      (n < (t c).freeSize → (t.take c n).2 = c + n ∧ c + n ∈ S' ∧
        (((t.take c n).1.setObject c n) (c + n)).freeSize = (t c).freeSize - n) := by
  have hcard := Finset.card_erase_add_one hc
  rcases Nat.lt_or_ge n (t c).freeSize with hlt | hge
  · obtain ⟨hclusters, hsize⟩ := h.take_lt hE hc hn hlt
    have hindex := (take_of_lt h hE hc hn hlt).1
    have hrest : c + n ∈ insert (c + n) (S.erase c) := Finset.mem_insert_self _ _
    have hnot : c + n ∉ S.erase c := fun hmem => by
      have := h.apart c hc _ (Finset.mem_of_mem_erase hmem) (by omega)
      omega
    refine ⟨_, hclusters, ?_, ?_, fun _ => ⟨hindex, hrest, hsize⟩⟩
    · rw [hindex]
      exact Finset.mem_insert_of_mem hrest
    · rw [if_pos hlt, Finset.card_insert_of_notMem hnot]
      exact hcard
  · refine ⟨_, h.take_eq hE hc (by omega), ?_, by rw [if_neg (by omega)]; exact hcard, by omega⟩
    rw [(take_of_eq h hc (by omega)).1]
    have hmem := h.ring.next_mem c (Finset.mem_insert_of_mem hc)
    refine Finset.mem_insert.mpr ((Finset.mem_insert.mp hmem).imp_right fun hn => ?_)
    exact Finset.mem_erase.mpr ⟨h.ring.next_ne_self hc, hn⟩

/-- Taking blocks from a cluster leaves the entries behind the core alone. -/
theorem Clusters.take_beyond (h : t.Clusters S E) (hE : E ≤ 2 ^ 31) (hc : c ∈ S) (hn : 0 < n)
    (hle : n ≤ (t c).freeSize) (hb : E ≤ b) : (t.take c n).1.setObject c n b = t b := by
  have hbound := h.bound c hc
  have hlisted : ∀ x ∈ insert 0 S, b ≠ x := by
    rintro x hx rfl
    obtain rfl | hx := Finset.mem_insert.mp hx
    · have := (h.lt_of_mem hc).2
      omega
    · have := (h.lt_of_mem hx).2
      omega
  have hcn : c ∈ insert 0 S := Finset.mem_insert_of_mem hc
  have hprev := hlisted _ (h.ring.prev_mem c hcn)
  have hnext := hlisted _ (h.ring.next_mem c hcn)
  rw [setObject_of_outside hn (by omega) (by omega)]
  rcases Nat.lt_or_ge n (t c).freeSize with hlt | hge
  · rw [(take_of_lt h hE hc hn hlt).2, if_neg (by omega), if_neg hprev, if_neg (by omega),
      if_neg hnext, if_neg (by omega)]
  · rw [(take_of_eq h hc (by omega)).2, if_neg hprev, if_neg hnext]

/-! Growing the core. -/

/-- The last cluster becomes longer by `n` new blocks. -/
theorem Clusters.extend (h : t.Clusters S E) (hc : c ∈ S) (hlast : c + (t c).freeSize = E) :
    (t.setFreeSize c ((t c).freeSize + n)).Clusters S (E + n) := by
  have hsize : ∀ d, ((t.setFreeSize c ((t c).freeSize + n)) d).freeSize =
      if d = c then (t c).freeSize + n else (t d).freeSize := fun d => rfl
  have hzero : (0 : Nat) ≠ c := by
    have := h.lt_of_mem hc
    omega
  have hlast' : ∀ d ∈ S, ¬ c < d := by
    intro d hd hlt
    have := h.apart c hc d hd hlt
    have := (h.lt_of_mem hd).2
    omega
  constructor
  · exact h.ring
  · exact ⟨h.zero.1, by rw [hsize, if_neg hzero]; exact h.zero.2⟩
  · intro d hd
    have := h.pos d hd
    have := h.pos c hc
    rw [hsize]
    split <;> omega
  · intro d hd
    have := h.bound d hd
    rw [hsize]
    split
    · rename_i hdc
      rw [hdc]
      omega
    · omega
  · intro d hd e he hde
    rw [hsize, if_neg (by rintro rfl; exact hlast' e he hde)]
    exact h.apart d hd e he hde
  · intro d hd b hdb hlt
    rw [hsize] at hlt
    show (t b).status = 0
    by_cases hbE : E ≤ b
    · exact h.beyond b hbE
    · refine h.free d hd b hdb ?_
      split at hlt
      · subst d
        omega
      · exact hlt
  · intro b hb0 hbE
    by_cases hbE' : b < E
    · refine (h.busy b hb0 hbE').imp_right ?_
      rintro ⟨d, hd, hdb, hlt⟩
      refine ⟨d, hd, hdb, ?_⟩
      rw [hsize]
      split
      · subst d
        omega
      · exact hlt
    · exact .inr ⟨c, hc, by omega, by rw [hsize, if_pos rfl]; omega⟩
  · intro b hb
    exact h.beyond b (by omega)

/-- New blocks become an object. -/
theorem Clusters.newObject (h : t.Clusters S E) (hE0 : 0 < E) (hn : 0 < n) (hE : E + n ≤ 2 ^ 32) :
    (t.setObject E n).Clusters S (E + n) := by
  have hout : ∀ b, b < E → t.setObject E n b = t b := fun b hb =>
    setObject_of_outside hn hE (.inl hb)
  have hmem : ∀ d ∈ S, t.setObject E n d = t d := fun d hd => hout d (h.lt_of_mem hd).2
  have hlisted : ∀ x ∈ insert 0 S, t.setObject E n x = t x := by
    intro x hx
    obtain rfl | hx := Finset.mem_insert.mp hx
    · exact hout 0 hE0
    · exact hmem x hx
  constructor
  · exact h.ring.congr (fun x hx => by rw [hlisted x hx]) (fun x hx => by rw [hlisted x hx])
  · rw [hout 0 hE0]
    exact h.zero
  · intro d hd
    rw [hmem d hd]
    exact h.pos d hd
  · intro d hd
    have := h.bound d hd
    rw [hmem d hd]
    omega
  · intro d hd e he
    rw [hmem d hd]
    exact h.apart d hd e he
  · intro d hd b hdb hlt
    rw [hmem d hd] at hlt
    have := h.bound d hd
    rw [hout b (by omega)]
    exact h.free d hd b hdb hlt
  · intro b hb0 hbE
    by_cases hbE' : b < E
    · rw [hout b hbE']
      refine (h.busy b hb0 hbE').imp_right ?_
      rintro ⟨d, hd, hdb, hlt⟩
      exact ⟨d, hd, hdb, by rw [hmem d hd]; exact hlt⟩
    · exact .inl (setObject_status hn hE (by omega) hbE)
  · intro b hb
    rw [setObject_of_outside hn hE (.inr hb)]
    exact h.beyond b (by omega)

theorem Clusters.newObject_sameBusy (h : t.Clusters S E) (hn : 0 < n) (hE : E + n ≤ 2 ^ 32) :
    SameBusy t (t.setObject E n) := by
  intro b hb
  apply setObject_of_outside hn hE
  left
  by_contra hge
  rw [h.beyond b (by omega)] at hb
  omega

/-! Freeing blocks. -/

/-- The free cluster before the block `b`, which is not listed. -/
def Before (t : Table) (S : Finset Nat) (b i : Nat) : Prop :=
  i ∈ insert 0 S ∧ i < b ∧ ((t i).next = 0 ∨ b < (t i).next)

theorem backward_spec (h : t.Ring S) (hb : b ∉ insert 0 S) {fuel j : Nat}
    (hj : j ∈ insert 0 S) (hnext : b < j ∨ (t j).next = 0 ∨ b < (t j).next) (hfuel : j < fuel) :
    ∃ i, t.backward b fuel j = some i ∧ Before t S b i := by
  induction fuel generalizing j with
  | zero => contradiction
  | succ fuel ih =>
    rw [backward]
    split
    · rename_i hlt
      have hstep := h.next_prev j hj
      have hjS : j ∈ S := (Finset.mem_insert.mp hj).resolve_left (by omega)
      have hprev := h.prev_lt hjS
      exact ih (h.prev_mem j hj) (.inr (.inr (by rw [hstep]; exact hlt))) (by omega)
    · rename_i hle
      have hne : j ≠ b := fun heq => hb (heq ▸ hj)
      exact ⟨j, rfl, hj, by omega, hnext.resolve_left hle⟩

theorem forward_spec (h : t.Ring S) (hb : b ∉ insert 0 S) {fuel j : Nat}
    (hj : j ∈ insert 0 S) (hlt : j < b) (hfuel : b < fuel + j) :
    ∃ k, t.forward b fuel j = some k ∧ Before t S b (t k).prev := by
  induction fuel generalizing j with
  | zero => omega
  | succ fuel ih =>
    have hstep := h.prev_next j hj
    have hmem := h.next_mem j hj
    rw [forward]
    split
    · rename_i hcond
      have hup := h.lt_next j hj (by omega)
      exact ih hmem hcond.2 (by omega)
    · rename_i hcond
      have hne : (t j).next ≠ b := fun heq => hb (heq ▸ hmem)
      refine ⟨_, rfl, ?_⟩
      rw [hstep]
      exact ⟨hj, hlt, by omega⟩

/-- The search comes to an end. -/
theorem findPrev_spec (h : t.Ring S) (hb : b ∉ insert 0 S) {fuel idx : Nat}
    (hidx : idx ∈ insert 0 S) (hlt : idx < fuel) (hbf : b < fuel) :
    ∃ i, t.findPrev fuel idx b = some i ∧ Before t S b i := by
  unfold findPrev
  split
  · rename_i hgt
    exact backward_spec h hb hidx (.inl hgt) hlt
  · have hne : idx ≠ b := fun heq => hb (heq ▸ hidx)
    obtain ⟨k, hk, hbefore⟩ := forward_spec h hb hidx (by omega) (show b < fuel + idx by omega)
    rw [hk]
    exact ⟨_, rfl, hbefore⟩

/-- Every cluster is on one side of the block. -/
theorem Before.le_or_lt (hi : Before t S b i) (h : t.Ring S) (hc : c ∈ S) :
    c ≤ i ∨ (b < c ∧ (t i).next ≠ 0 ∧ (t i).next ≤ c) := by
  rcases Nat.lt_or_ge i c with hlt | hge
  · obtain ⟨hne, hle⟩ := h.gap i hi.1 c hc hlt
    have := hi.2.2.resolve_left hne
    exact .inr ⟨by omega, hne, hle⟩
  · exact .inl hge

/-- The clusters when one of them, `x`, may touch the next one. -/
structure Touching (t : Table) (S : Finset Nat) (E x : Nat) : Prop where
  ring : t.Ring S
  zero : (t 0).status = 0 ∧ (t 0).freeSize = 0
  pos : ∀ c ∈ S, 0 < (t c).freeSize
  bound : ∀ c ∈ S, c + (t c).freeSize ≤ E
  apart : ∀ c ∈ S, ∀ d ∈ S, c < d → c + (t c).freeSize ≤ d ∧ (c ≠ x → c + (t c).freeSize < d)
  free : ∀ c ∈ S, ∀ b, c ≤ b → b < c + (t c).freeSize → (t b).status = 0
  busy : ∀ b, 0 < b → b < E → (t b).status = 1 ∨ ∃ c ∈ S, c ≤ b ∧ b < c + (t c).freeSize
  beyond : ∀ b, E ≤ b → (t b).status = 0

/-- Busy blocks from `b` on that are freed. -/
structure Busy (t : Table) (S : Finset Nat) (E b n : Nat) : Prop where
  pos : 0 < n
  first : 0 < b
  bound : b + n ≤ E
  status : ∀ i, b ≤ i → i < b + n → (t i).status = 1

theorem Busy.notMem (hb : Busy t S E b n) (h : t.Clusters S E) : b ∉ insert 0 S := fun hmem => by
  have h0 := h.status_zero hmem
  have h1 := hb.status b (Nat.le_refl b) (by have := hb.pos; omega)
  omega

/-- A cluster has no block in common with the busy blocks. -/
theorem Busy.outside (hb : Busy t S E b n) (h : t.Clusters S E) (hc : c ∈ S) :
    c + (t c).freeSize ≤ b ∨ b + n ≤ c := by
  have hpos := hb.pos
  have hcpos := h.pos c hc
  by_contra hover
  rcases Nat.lt_or_ge c b with hlt | hge
  · have h0 := h.free c hc b (by omega) (by omega)
    have h1 := hb.status b (Nat.le_refl b) (by omega)
    omega
  · have h0 := h.free c hc c (Nat.le_refl c) (by omega)
    have h1 := hb.status c hge (by omega)
    omega

/-- The statuses of blocks that are freed. -/
def freed (t : Table) (b n : Nat) : Table := (t.setStatus b 0).clearTail b n

theorem freed_apply (hn : 0 < n) (hb : b + n ≤ 2 ^ 32) (i : Nat) :
    t.freed b n i = if b ≤ i ∧ i < b + n then { t i with status := 0 } else t i := by
  unfold freed
  rw [clearTail_apply hn hb]
  by_cases hi : i = b
  · rw [if_neg (by omega), if_pos (by omega)]
    simp [setStatus, hi]
  · split
    · rw [if_pos (by omega)]
      simp [setStatus, hi]
    · rw [if_neg (by omega)]
      simp [setStatus, hi]

theorem freed_w1 (hn : 0 < n) (hb : b + n ≤ 2 ^ 32) (x : Nat) :
    (t.freed b n x).w1 = (t x).w1 := by
  rw [freed_apply hn hb]
  split <;> rfl

theorem freed_w2 (hn : 0 < n) (hb : b + n ≤ 2 ^ 32) (x : Nat) :
    (t.freed b n x).w2 = (t x).w2 := by
  rw [freed_apply hn hb]
  split <;> rfl

theorem freed_w3 (hn : 0 < n) (hb : b + n ≤ 2 ^ 32) (x : Nat) :
    (t.freed b n x).w3 = (t x).w3 := by
  rw [freed_apply hn hb]
  split <;> rfl

theorem freed_status (hn : 0 < n) (hb : b + n ≤ 2 ^ 32) (x : Nat) :
    (t.freed b n x).status = if b ≤ x ∧ x < b + n then 0 else (t x).status := by
  rw [freed_apply hn hb]
  split <;> rfl

theorem freed_status_zero (hn : 0 < n) (hb : b + n ≤ 2 ^ 32) {x : Nat} (hx : (t x).status = 0) :
    (t.freed b n x).status = 0 := by
  rw [freed_status hn hb, hx]
  split <;> rfl

theorem Clusters.ring_freed (h : t.Clusters S E) (hn : 0 < n) (hb : b + n ≤ 2 ^ 32) :
    (t.freed b n).Ring S :=
  h.ring.congr (fun x _ => freed_w2 hn hb x) (fun x _ => freed_w3 hn hb x)

/-- The blocks after some are freed. -/
theorem Busy.cases (hb : Busy t S E b n) (h : t.Clusters S E) (hE : E ≤ 2 ^ 32) {x : Nat}
    (hx0 : 0 < x) (hxE : x < E) : (t.freed b n x).status = 1 ∨ (b ≤ x ∧ x < b + n) ∨
      ∃ c ∈ S, c ≤ x ∧ x < c + (t c).freeSize := by
  have hbound := hb.bound
  rw [freed_status hb.pos (by omega)]
  by_cases hin : b ≤ x ∧ x < b + n
  · exact .inr (.inl hin)
  · rw [if_neg hin]
    exact (h.busy x hx0 hxE).imp_right .inr

/-- Every cluster is before the freed blocks or behind them. -/
theorem Busy.le_or_le (hb : Busy t S E b n) (h : t.Clusters S E) (hE : E ≤ 2 ^ 32)
    (hi : Before (t.freed b n) S b i) (hc : c ∈ S) : c ≤ i ∨ b + n ≤ c := by
  have hpos := hb.pos
  have hbound := hb.bound
  have := hb.outside h hc
  have := h.pos c hc
  refine (hi.le_or_lt (h.ring_freed hpos (by omega)) hc).imp_right ?_
  rintro ⟨hlt, -, -⟩
  omega

theorem coalescePrev_apply (hsum : (t i).freeSize + (t b).size < 2 ^ 32) (x : Nat) :
    t.coalescePrev i b x =
      { t x with
        w1 := if x = b then 0 else if x = i then (t i).freeSize + (t b).size else (t x).w1 } := by
  simp only [coalescePrev, setW1, add32_of_lt hsum]

/-- Freed blocks behind a cluster become a part of it. -/
theorem Busy.coalescePrev (hb : Busy t S E b n) (h : t.Clusters S E) (hE : E ≤ 2 ^ 31)
    (hsize : (t b).size = n) (hi : Before (t.freed b n) S b i) (heq : b = i + (t i).freeSize) :
    Touching ((t.freed b n).coalescePrev i b) S E i ∧ i ∈ S ∧
      (((t.freed b n).coalescePrev i b) i).freeSize = (t i).freeSize + n := by
  have hn := hb.pos
  have hbound := hb.bound
  have hfirst := hb.first
  have h32 : b + n ≤ 2 ^ 32 := by omega
  have hlt := hi.2.1
  have hiS : i ∈ S := by
    refine (Finset.mem_insert.mp hi.1).resolve_left ?_
    rintro rfl
    have := h.zero.2
    omega
  have hi0 := (h.lt_of_mem hiS).1
  have hsum : (t.freed b n i).freeSize + (t.freed b n b).size = (t i).freeSize + n := by
    show (t.freed b n i).w1 + (t.freed b n b).w2 = _
    rw [freed_w1 hn h32, freed_w2 hn h32, ← hsize]
  have hibound := h.bound i hiS
  have happly := coalescePrev_apply (t := t.freed b n) (b := b) (i := i) (by omega)
  rw [hsum] at happly
  have hsizes : ∀ x ∈ insert 0 S, (((t.freed b n).coalescePrev i b) x).freeSize =
      if x = i then (t i).freeSize + n else (t x).freeSize := by
    intro x hx
    have hxb : x ≠ b := fun hxb => hb.notMem h (hxb ▸ hx)
    rw [happly]
    show (if x = b then 0 else if x = i then (t i).freeSize + n else (t.freed b n x).w1) = _
    rw [if_neg hxb, freed_w1 hn h32]
  have hsizeS := fun c hc => hsizes c (Finset.mem_insert_of_mem hc)
  have hst : ∀ x, (((t.freed b n).coalescePrev i b) x).status = (t.freed b n x).status :=
    fun x => by rw [happly]
  refine ⟨?_, hiS, by rw [hsizeS i hiS, if_pos rfl]⟩
  constructor
  · exact (h.ring_freed hn h32).congr (fun x _ => by rw [happly]) (fun x _ => by rw [happly])
  · rw [hst, hsizes 0 (Finset.mem_insert_self 0 S), if_neg (by omega)]
    exact ⟨freed_status_zero hn h32 h.zero.1, h.zero.2⟩
  · intro c hc
    have := h.pos c hc
    rw [hsizeS c hc]
    split <;> omega
  · intro c hc
    have := h.bound c hc
    rw [hsizeS c hc]
    split
    · subst c
      omega
    · exact this
  · intro c hc d hd hcd
    have hap := h.apart c hc d hd hcd
    rw [hsizeS c hc]
    split
    · subst c
      have := hb.le_or_le h (by omega) hi hd
      exact ⟨by omega, fun hne => absurd rfl hne⟩
    · exact ⟨by omega, fun _ => hap⟩
  · intro c hc x hcx hx
    rw [hsizeS c hc] at hx
    rw [hst]
    split at hx
    · subst c
      by_cases hxb : x < b
      · exact freed_status_zero hn h32 (h.free i hiS x hcx (by omega))
      · rw [freed_status hn h32, if_pos (by omega)]
    · exact freed_status_zero hn h32 (h.free c hc x hcx hx)
  · intro x hx0 hxE
    rw [hst]
    obtain hone | hin | ⟨c, hc, hcx, hx⟩ := hb.cases h (by omega) hx0 hxE
    · exact .inl hone
    · exact .inr ⟨i, hiS, by omega, by rw [hsizeS i hiS, if_pos rfl]; omega⟩
    · refine .inr ⟨c, hc, hcx, ?_⟩
      rw [hsizeS c hc]
      split
      · subst c
        omega
      · exact hx
  · intro x hx
    rw [hst]
    exact freed_status_zero hn h32 (h.beyond x hx)

/-- The words after a block is linked in behind the cluster `i`. -/
theorem link_apply (hib : i ≠ b) (x : Nat) : t.link i b x =
    { t x with
      w1 := if x = b then (t b).size else (t x).w1
      w2 := if x = i then b else if x = b then (t i).next else (t x).w2
      w3 := if x = (t i).next then b else if x = b then i else (t x).w3 } := by
  simp only [link, setW1, setW2, setW3, hib, Ne.symm hib, if_true, if_false]

/-- Freed blocks that do not touch the cluster before them become a cluster. -/
theorem Busy.link (hb : Busy t S E b n) (h : t.Clusters S E) (hE : E ≤ 2 ^ 31)
    (hsize : (t b).size = n) (hi : Before (t.freed b n) S b i) (hne : b ≠ i + (t i).freeSize) :
    Touching ((t.freed b n).link i b) (insert b S) E b ∧
      (((t.freed b n).link i b) b).freeSize = n := by
  have hn := hb.pos
  have hbound := hb.bound
  have hfirst := hb.first
  have h32 : b + n ≤ 2 ^ 32 := by omega
  have hlt := hi.2.1
  have hnot := hb.notMem h
  have hring := h.ring_freed hn h32
  have happly := link_apply (t := t.freed b n) (b := b) (i := i) (by omega)
  have hsizes : ∀ x, (((t.freed b n).link i b) x).freeSize =
      if x = b then n else (t x).freeSize := by
    intro x
    rw [happly]
    show (if x = b then (t.freed b n b).w2 else (t.freed b n x).w1) = _
    rw [freed_w1 hn h32, freed_w2 hn h32, ← hsize]
  have hsizeS : ∀ c ∈ S, (((t.freed b n).link i b) c).freeSize = (t c).freeSize := by
    intro c hc
    have hcb : c ≠ b := fun hcb => hnot (hcb ▸ Finset.mem_insert_of_mem hc)
    rw [hsizes, if_neg hcb]
  have hsizeB : (((t.freed b n).link i b) b).freeSize = n := by rw [hsizes, if_pos rfl]
  have hst : ∀ x, (((t.freed b n).link i b) x).status = (t.freed b n x).status :=
    fun x => by rw [happly]
  refine ⟨?_, hsizeB⟩
  constructor
  · apply hring.insert hi.1 hlt hi.2.2
    · intro x hx
      rw [happly]
      grind
    · intro x hx
      have hnext : (t.freed b n i).next ≠ b := fun heq => hnot (heq ▸ hring.next_mem i hi.1)
      rw [happly]
      grind
  · rw [hst, hsizes, if_neg (by omega)]
    exact ⟨freed_status_zero hn h32 h.zero.1, h.zero.2⟩
  · intro c hc
    obtain rfl | hc := Finset.mem_insert.mp hc
    · rw [hsizeB]
      exact hn
    · rw [hsizeS c hc]
      exact h.pos c hc
  · intro c hc
    obtain rfl | hc := Finset.mem_insert.mp hc
    · rw [hsizeB]
      exact hbound
    · rw [hsizeS c hc]
      exact h.bound c hc
  · intro c hc d hd hcd
    obtain hcb | hcS := Finset.mem_insert.mp hc
    · subst hcb
      rw [hsizeB]
      have hdS : d ∈ S := (Finset.mem_insert.mp hd).resolve_left (by omega)
      have := hb.le_or_le h (by omega) hi hdS
      exact ⟨by omega, fun hne => absurd rfl hne⟩
    · rw [hsizeS c hcS]
      obtain hdb | hdS := Finset.mem_insert.mp hd
      · -- only the cluster `i` comes close
        have := hb.outside h hcS
        have hci : c ≤ i := (hb.le_or_le h (by omega) hi hcS).resolve_right (by omega)
        have hstrict : c + (t c).freeSize < d := by
          rcases Nat.lt_or_eq_of_le hci with hlt' | rfl
          · have hiS : i ∈ S := (Finset.mem_insert.mp hi.1).resolve_left (by omega)
            have := h.apart c hcS i hiS hlt'
            omega
          · omega
        exact ⟨by omega, fun _ => hstrict⟩
      · have := h.apart c hcS d hdS hcd
        exact ⟨by omega, fun _ => this⟩
  · intro c hc x hcx hx
    rw [hst]
    obtain rfl | hc := Finset.mem_insert.mp hc
    · rw [hsizeB] at hx
      rw [freed_status hn h32, if_pos ⟨hcx, hx⟩]
    · rw [hsizeS c hc] at hx
      exact freed_status_zero hn h32 (h.free c hc x hcx hx)
  · intro x hx0 hxE
    rw [hst]
    obtain hone | ⟨hbx, hx⟩ | ⟨c, hc, hcx, hx⟩ := hb.cases h (by omega) hx0 hxE
    · exact .inl hone
    · exact .inr ⟨b, Finset.mem_insert_self b S, hbx, by rw [hsizeB]; exact hx⟩
    · exact .inr ⟨c, Finset.mem_insert_of_mem hc, hcx, by rw [hsizeS c hc]; exact hx⟩
  · intro x hx
    rw [hst]
    exact freed_status_zero hn h32 (h.beyond x hx)

theorem Touching.next_mem (h : Touching t S E c) (hc : c ∈ S) (hne : (t c).next ≠ 0) :
    (t c).next ∈ S ∧ c < (t c).next :=
  ⟨(Finset.mem_insert.mp (h.ring.next_mem c (Finset.mem_insert_of_mem hc))).resolve_left hne,
    h.ring.lt_next c (Finset.mem_insert_of_mem hc) hne⟩

/-- A cluster that does not touch its successor touches none. -/
theorem Touching.clusters (h : Touching t S E c) (hc : c ∈ S)
    (hne : c + (t c).freeSize ≠ (t c).next) : t.Clusters S E where
  ring := h.ring
  zero := h.zero
  pos := h.pos
  bound := h.bound
  apart d hd e he hde := by
    obtain ⟨hle, hlt⟩ := h.apart d hd e he hde
    by_cases hdc : d = c
    · subst hdc
      obtain ⟨hne0, hnext⟩ := h.ring.gap d (Finset.mem_insert_of_mem hd) e he hde
      obtain ⟨hmem, hlt'⟩ := h.next_mem hd hne0
      have := (h.apart d hd _ hmem hlt').1
      omega
    · exact hlt hdc
  free := h.free
  busy := h.busy
  beyond := h.beyond

/-- The words after a cluster is coalesced with its successor. -/
theorem coalesceNext_apply (hnext : (t b).next ≠ b)
    (hsum : (t b).freeSize + (t (t b).next).freeSize < 2 ^ 32) (x : Nat) :
    t.coalesceNext b x =
      { t x with
        w1 := if x = b then (t b).freeSize + (t (t b).next).freeSize else (t x).w1
        w2 := if x = b then (t (t b).next).next else (t x).w2
        w3 := if x = (t (t b).next).next then b else (t x).w3 } := by
  simp only [coalesceNext, setW1, setW2, setW3, hnext, add32_of_lt hsum, if_true, if_false]

/-- A cluster that touches its successor is coalesced with it. -/
theorem Touching.coalesceNext (h : Touching t S E c) (hE : E ≤ 2 ^ 31) (hc : c ∈ S)
    (heq : c + (t c).freeSize = (t c).next) :
    (t.coalesceNext c).Clusters (S.erase (t c).next) E ∧
      ((t.coalesceNext c) c).freeSize = (t c).freeSize + (t (t c).next).freeSize := by
  have hcn : c ∈ insert 0 S := Finset.mem_insert_of_mem hc
  have hpos := h.pos c hc
  obtain ⟨hmem, hlt⟩ := h.next_mem hc (by omega)
  have hbound := h.bound _ hmem
  have hprev : (t (t c).next).prev = c := h.ring.prev_next c hcn
  have happly := coalesceNext_apply (t := t) (b := c) (by omega) (by omega)
  have hsize : ∀ x, ((t.coalesceNext c) x).freeSize =
      if x = c then (t c).freeSize + (t (t c).next).freeSize else (t x).freeSize :=
    fun x => by rw [happly]
  have hst : ∀ x, ((t.coalesceNext c) x).status = (t x).status := fun x => by rw [happly]
  have hzero : (0 : Nat) ≠ c := by
    have := h.ring.lt c hc
    omega
  refine ⟨?_, by rw [hsize, if_pos rfl]⟩
  constructor
  · apply h.ring.erase hmem
    · intro x hx
      rw [happly, hprev]
    · intro x hx
      rw [happly, hprev]
  · rw [hst, hsize, if_neg hzero]
    exact h.zero
  · intro d hd
    have := h.pos d (Finset.mem_of_mem_erase hd)
    rw [hsize]
    split <;> omega
  · intro d hd
    have := h.bound d (Finset.mem_of_mem_erase hd)
    rw [hsize]
    split
    · subst d
      omega
    · exact this
  · intro d hd e he hde
    obtain ⟨hdn, hdS⟩ := Finset.mem_erase.mp hd
    obtain ⟨hen, heS⟩ := Finset.mem_erase.mp he
    rw [hsize]
    split
    · subst d
      obtain ⟨-, hle⟩ := h.ring.gap c hcn e heS hde
      have := (h.apart _ hmem e heS (by omega)).2 (by omega)
      omega
    · rename_i hdc
      exact (h.apart d hdS e heS hde).2 hdc
  · intro d hd x hdx hx
    rw [hsize] at hx
    rw [hst]
    split at hx
    · subst d
      by_cases hxn : x < c + (t c).freeSize
      · exact h.free c hc x hdx hxn
      · exact h.free _ hmem x (by omega) (by omega)
    · exact h.free d (Finset.mem_of_mem_erase hd) x hdx hx
  · intro x hx0 hxE
    rw [hst]
    refine (h.busy x hx0 hxE).imp_right ?_
    rintro ⟨d, hd, hdx, hx⟩
    have hcS : c ∈ S.erase (t c).next := Finset.mem_erase.mpr ⟨by omega, hc⟩
    by_cases hdn : d = (t c).next
    · subst hdn
      exact ⟨c, hcS, by omega, by rw [hsize, if_pos rfl]; omega⟩
    · refine ⟨d, Finset.mem_erase.mpr ⟨hdn, hd⟩, hdx, ?_⟩
      rw [hsize]
      split
      · subst d
        omega
      · exact hx
  · intro x hx
    rw [hst]
    exact h.beyond x hx

/-- The words after a cluster is taken off the list. -/
theorem unlink_apply (hprev : (t b).prev ≠ b) (x : Nat) : t.unlink b x =
    { t x with
      w2 := if x = (t b).prev then (t b).next else (t x).w2
      w3 := if x = (t b).next then (t b).prev else (t x).w3 } := by
  simp only [unlink, setW2, setW3, Ne.symm hprev, if_false]

/-- The last cluster leaves the core. -/
theorem Clusters.giveBack (h : t.Clusters S E) (hc : c ∈ S) (hlast : c + (t c).freeSize = E) :
    (t.unlink c).Clusters (S.erase c) c ∧ (t c).prev ∈ insert 0 (S.erase c) := by
  have hcn : c ∈ insert 0 S := Finset.mem_insert_of_mem hc
  have hprev : (t c).prev < c := h.ring.prev_lt hc
  have happly := unlink_apply (t := t) (b := c) (by omega)
  have hst : ∀ x, ((t.unlink c) x).status = (t x).status := fun x => by rw [happly]
  have hsize : ∀ x, ((t.unlink c) x).freeSize = (t x).freeSize := fun x => by rw [happly]
  have hbelow : ∀ d ∈ S.erase c, d ∈ S ∧ d + (t d).freeSize < c := by
    intro d hd
    obtain ⟨hdc, hdS⟩ := Finset.mem_erase.mp hd
    refine ⟨hdS, ?_⟩
    rcases Nat.lt_or_gt_of_ne hdc with hlt | hgt
    · exact h.apart d hdS c hc hlt
    · have := h.apart c hc d hdS hgt
      have := (h.lt_of_mem hdS).2
      omega
  constructor
  · constructor
    · apply h.ring.erase hc
      · intro x hx
        rw [happly]
      · intro x hx
        rw [happly]
    · rw [hst, hsize]
      exact h.zero
    · intro d hd
      rw [hsize]
      exact h.pos d (hbelow d hd).1
    · intro d hd
      rw [hsize]
      exact Nat.le_of_lt (hbelow d hd).2
    · intro d hd e he
      rw [hsize]
      exact h.apart d (hbelow d hd).1 e (hbelow e he).1
    · intro d hd x
      rw [hsize, hst]
      exact h.free d (hbelow d hd).1 x
    · intro x hx0 hxc
      rw [hst]
      refine (h.busy x hx0 (by omega)).imp_right ?_
      rintro ⟨d, hd, hdx, hx⟩
      have hdc : d ≠ c := by
        rintro rfl
        omega
      exact ⟨d, Finset.mem_erase.mpr ⟨hdc, hd⟩, hdx, by rw [hsize]; exact hx⟩
    · intro x hx
      rw [hst]
      by_cases hxE : x < E
      · exact h.free c hc x hx (by omega)
      · exact h.beyond x (by omega)
  · refine Finset.mem_insert.mpr ((Finset.mem_insert.mp (h.ring.prev_mem c hcn)).imp_right ?_)
    exact fun hp => Finset.mem_erase.mpr ⟨by omega, hp⟩

/-- Busy entries and those behind the core are not listed. -/
theorem Clusters.notMem (h : t.Clusters S E) (hE : 0 < E) (hb : (t b).status = 1 ∨ E ≤ b) :
    b ∉ insert 0 S := by
  intro hmem
  rcases hb with hone | hge
  · rw [h.status_zero hmem] at hone
    contradiction
  · obtain rfl | hmem := Finset.mem_insert.mp hmem
    · omega
    · have := (h.lt_of_mem hmem).2
      omega

theorem Clusters.unlink_of_notMem (h : t.Clusters S E) (hc : c ∈ S) (hb : b ∉ insert 0 S) :
    t.unlink c b = t b := by
  have hcn : c ∈ insert 0 S := Finset.mem_insert_of_mem hc
  have hprev : (t c).prev < c := h.ring.prev_lt hc
  have hne : ∀ x ∈ insert 0 S, b ≠ x := by
    rintro x hx rfl
    exact hb hx
  rw [unlink_apply (by omega), if_neg (hne _ (h.ring.prev_mem c hcn)),
    if_neg (hne _ (h.ring.next_mem c hcn))]

theorem Touching.coalesceNext_of_notMem (h : Touching t S E c) (hE : E ≤ 2 ^ 31) (hc : c ∈ S)
    (heq : c + (t c).freeSize = (t c).next) (hb : b ∉ insert 0 S) : t.coalesceNext c b = t b := by
  have hcn : c ∈ insert 0 S := Finset.mem_insert_of_mem hc
  have hpos := h.pos c hc
  obtain ⟨hmem, hlt⟩ := h.next_mem hc (by omega)
  have hbound := h.bound _ hmem
  have hne : ∀ x ∈ insert 0 S, b ≠ x := by
    rintro x hx rfl
    exact hb hx
  rw [coalesceNext_apply (by omega) (by omega), if_neg (hne c hcn), if_neg (hne c hcn),
    if_neg (hne _ (h.ring.next_mem _ (Finset.mem_insert_of_mem hmem)))]

/-- A block is linked in behind the cluster `i`, or coalesced with it. Also the cluster that it
    is then in. -/
def joinPrev (t : Table) (i b : Nat) : Table × Nat :=
  if b = add32 i (t i).freeSize then (t.coalescePrev i b, i) else (t.link i b, b)

/-- A cluster is coalesced with its successor where they touch. -/
def joinNext (t : Table) (b : Nat) : Table :=
  if add32 b (t b).freeSize = (t b).next then t.coalesceNext b else t

theorem joinPrev_status (x : Nat) : ((t.joinPrev i b).1 x).status = (t x).status := by
  unfold joinPrev
  split <;> rfl

theorem joinNext_status (x : Nat) : (t.joinNext b x).status = (t x).status := by
  unfold joinNext
  split <;> rfl

/-- The second half of freeing. -/
theorem Touching.joinNext (h : Touching t S E c) (hE : E ≤ 2 ^ 31) (hc : c ∈ S) :
    ∃ S', (t.joinNext c).Clusters S' E ∧ c ∈ S' ∧ (t c).freeSize ≤ (t.joinNext c c).freeSize ∧
      S'.card + (if add32 c (t c).freeSize = (t c).next then 1 else 0) = S.card ∧
      ∀ x ∉ insert 0 S, t.joinNext c x = t x := by
  have hbound := h.bound c hc
  unfold Table.joinNext
  rw [add32_of_lt (by omega)]
  by_cases heq : c + (t c).freeSize = (t c).next
  · have hpos := h.pos c hc
    obtain ⟨hclusters, hsize⟩ := h.coalesceNext hE hc heq
    obtain ⟨hmem, -⟩ := h.next_mem hc (by omega)
    have hcS : c ∈ S.erase (t c).next := Finset.mem_erase.mpr ⟨by omega, hc⟩
    rw [if_pos heq, if_pos heq]
    exact ⟨_, hclusters, hcS, by omega, Finset.card_erase_add_one hmem,
      fun x hx => h.coalesceNext_of_notMem hE hc heq hx⟩
  · rw [if_neg heq, if_neg heq]
    exact ⟨S, h.clusters hc heq, hc, Nat.le_refl _, rfl, fun _ _ => rfl⟩

/-- The first half of freeing. -/
theorem Busy.joinPrev (hb : Busy t S E b n) (h : t.Clusters S E) (hE : E ≤ 2 ^ 31)
    (hsize : (t b).size = n) (hi : Before (t.freed b n) S b i) :
    ∃ S' t' b', (t.freed b n).joinPrev i b = (t', b') ∧ Touching t' S' E b' ∧ b' ∈ S' ∧ b' ≤ b ∧
      b + n ≤ b' + (t' b').freeSize ∧
      S'.card = S.card + (if b = add32 i (t.freed b n i).freeSize then 0 else 1) ∧
      ∀ x ∉ insert 0 S, x < b ∨ b + n ≤ x → x ∉ insert 0 S' ∧ t' x = t x := by
  have hn := hb.pos
  have hbound := hb.bound
  have h32 : b + n ≤ 2 ^ 32 := by omega
  have hlt := hi.2.1
  have hring := h.ring_freed hn h32
  have hsame : ∀ x, x < b ∨ b + n ≤ x → t.freed b n x = t x := by
    intro x hx
    rw [freed_apply hn h32, if_neg (by omega)]
  have hne : ∀ x ∉ insert 0 S, ∀ y ∈ insert 0 S, x ≠ y := by
    rintro x hx y hy rfl
    exact hx hy
  have hwi : (t.freed b n i).freeSize = (t i).freeSize := freed_w1 hn h32 i
  have hwb : (t.freed b n b).size = n := (freed_w2 hn h32 b).trans hsize
  have hibound : i + (t i).freeSize ≤ E := by
    obtain rfl | hiS := Finset.mem_insert.mp hi.1
    · have := h.zero.2
      omega
    · exact h.bound i hiS
  have hsum : add32 i (t.freed b n i).freeSize = i + (t i).freeSize := by
    rw [hwi]
    exact add32_of_lt (by omega)
  unfold Table.joinPrev
  rw [hsum]
  by_cases heq : b = i + (t i).freeSize
  · obtain ⟨htouch, hiS, hisize⟩ := hb.coalescePrev h hE hsize hi heq
    rw [if_pos heq, if_pos heq]
    refine ⟨S, _, i, rfl, htouch, hiS, by omega, by omega, rfl, ?_⟩
    intro x hx hout
    have happly := coalescePrev_apply (t := t.freed b n) (b := b) (i := i) (by omega)
    refine ⟨hx, ?_⟩
    rw [happly, if_neg (by omega), if_neg (hne x hx i hi.1), hsame x hout]
  · obtain ⟨htouch, hbsize⟩ := hb.link h hE hsize hi heq
    have hnot : b ∉ S := fun hbS => hb.notMem h (Finset.mem_insert_of_mem hbS)
    rw [if_neg heq, if_neg heq]
    refine ⟨insert b S, _, b, rfl, htouch, Finset.mem_insert_self b S, Nat.le_refl b, by omega,
      Finset.card_insert_of_notMem hnot, ?_⟩
    intro x hx hout
    have hxb : x ≠ b := by omega
    constructor
    · intro hmem
      rw [Finset.insert_comm, Finset.mem_insert] at hmem
      exact hmem.elim hxb hx
    · rw [link_apply (by omega), if_neg hxb, if_neg (hne x hx i hi.1), if_neg hxb,
        if_neg (hne x hx _ (hring.next_mem i hi.1)), if_neg hxb, hsame x hout]

end

end Table

end Hcrtos.Native.Alloc
