import Hcrtos.ForStd.Lts
import Hcrtos.Spec.KshmLayout

/-!
# The room of a message ring

A producer and a consumer call the functions of the ring one after the other in any order and
with any sizes. Whatever they do, the indices stay inside the ring and at the start of a line,
which is all that the sizes the ring reports and the room it reserves depend on.

## Key results

- `ringInv_run`: the indices after every run
- `queries_agree_iff`: where the reported sizes are those that are granted
- `reserve_kept_iff`: where a granted write leaves what is reserved
-/

namespace Hcrtos.Native.Kshm

open Word MessageRing

/-- The ring, and the sizes of the requests that were granted and are not committed yet. -/
structure Ring where
  desc : KshmDesc
  filling : Option UInt32
  reading : Option UInt32

def Ring.init : Ring := ⟨.init, none, none⟩

inductive RingAction where
  | requestWrite (size : UInt32)
  | updateWrite
  | requestRead (size : UInt32)
  | updateRead
  | updateReserved (size : UInt32)

/-- One call. Each side commits a request before it makes the next one. -/
def ringStep (cfg : KshmCfg) (s : Ring) : RingAction → Option Ring
  | .requestWrite size =>
    if s.filling = none then
      match kshm_request_write cfg s.desc size.toNat with
      | (d, none) => some { s with desc := d }
      | (d, some _) => some { s with desc := d, filling := some size }
    else none
  | .updateWrite => s.filling.map fun size =>
    { s with desc := kshm_update_write cfg s.desc size.toNat, filling := none }
  | .requestRead size =>
    if s.reading = none then
      match kshm_request_read cfg s.desc size.toNat with
      | none => some s
      | some _ => some { s with reading := some size }
    else none
  | .updateRead => s.reading.map fun size =>
    { s with desc := kshm_update_read cfg s.desc size.toNat, reading := none }
  | .updateReserved size => some { s with desc := kshm_update_reserved s.desc size.toNat }

/-- An index is inside the ring, at the start of a line. -/
def AtLine (cfg : KshmCfg) (i : Nat) : Prop := i < cfg.size ∧ i % 32 = 0

/-- The indices are inside the ring, and stay there when the requests are committed. -/
structure RingInv (cfg : KshmCfg) (s : Ring) : Prop where
  rd : AtLine cfg (s.desc.rd s.desc.index)
  wt : AtLine cfg (s.desc.wt s.desc.index)
  filling : ∀ n ∈ s.filling, ROUNDUP32 n.toNat < cfg.size ∨
    (ROUNDUP32 n.toNat = cfg.size ∧ s.desc.wt s.desc.index = 0)
  reading : ∀ n ∈ s.reading, ROUNDUP32 n.toNat < cfg.size

theorem ringInv_init (cfg : KshmCfg) : RingInv cfg .init where
  rd := ⟨cfg.size_pos, rfl⟩
  wt := ⟨cfg.size_pos, rfl⟩
  filling := by intro n h; cases h
  reading := by intro n h; cases h

section

variable {cfg : KshmCfg} {s s' : Ring} {d : KshmDesc}

/-! ### One call -/

/-- The index behind a message that is shorter than the ring. -/
theorem AtLine.next {i n : Nat} (h : AtLine cfg i)
    (hn : ROUNDUP32 n < cfg.size ∨ (ROUNDUP32 n = cfg.size ∧ i = 0)) :
    AtLine cfg (next cfg.size i (ROUNDUP32 n)) := by
  refine ⟨?_, next_aligned h.2 (ROUNDUP32_aligned n)⟩
  have hlt := h.1
  unfold MessageRing.next
  split
  · omega
  · split <;> omega

/-- The ring is reset for a message that fits into it. -/
theorem le_of_afterReset {n : Nat} (h : room cfg d n = .afterReset) : n ≤ cfg.size := by
  unfold room at h
  dsimp only at h
  split at h
  · split at h
    · split at h
      · cases h
      · omega
    · cases h
  · cases h

theorem RingInv.requestWrite {size : UInt32} (h : RingInv cfg s)
    (hstep : ringStep cfg s (.requestWrite size) = some s') : RingInv cfg s' := by
  simp only [ringStep] at hstep
  split at hstep
  · split at hstep
    · rename_i d hreq
      obtain rfl := request_write_refused hreq
      cases hstep
      exact h
    · rename_i hnone d p hreq
      cases hstep
      by_cases hroom : room cfg s.desc (ROUNDUP32 size.toNat) = .afterReset
      · have hle := le_of_afterReset hroom
        have hrd0 := special_reset_rd s.desc
        have hwt0 := special_reset_wt s.desc
        unfold kshm_request_write at hreq
        split at hreq
        · cases hreq
        · dsimp only at hreq
          rw [hroom] at hreq
          cases hreq
          refine ⟨?_, ?_, ?_, h.reading⟩
          · rw [hrd0]
            exact ⟨cfg.size_pos, rfl⟩
          · rw [hwt0]
            exact ⟨cfg.size_pos, rfl⟩
          · intro n hn
            cases hn
            rw [hwt0]
            omega
      · obtain ⟨rfl, -, off, -, hfree⟩ := request_write_spec h.rd.1 h.wt.1 hroom hreq
        refine ⟨h.rd, h.wt, ?_, h.reading⟩
        intro n hn
        cases hn
        have hrd := h.rd.1
        cases hfree <;> omega
  · cases hstep

theorem RingInv.requestRead {size : UInt32} (h : RingInv cfg s)
    (hstep : ringStep cfg s (.requestRead size) = some s') : RingInv cfg s' := by
  simp only [ringStep] at hstep
  split at hstep
  · split at hstep
    · cases hstep
      exact h
    · rename_i p hreq
      cases hstep
      refine ⟨h.rd, h.wt, h.filling, ?_⟩
      intro n hn
      cases hn
      by_cases hzero : size.toNat = 0
      · rw [kshm_request_read, if_pos hzero] at hreq
        cases hreq
      · rw [request_read_eq hzero h.rd.1 h.wt.1] at hreq
        split at hreq
        · cases hreq
        · -- less than the whole ring is ever available
          rename_i hge
          have hrd := h.rd.1
          have hwt := h.wt.1
          unfold available at hge
          split at hge <;> omega
  · cases hstep

theorem ringInv_step (cfg : KshmCfg) (s : Ring) (a : RingAction) (s' : Ring)
    (h : RingInv cfg s) (hstep : ringStep cfg s a = some s') : RingInv cfg s' := by
  cases a with
  | requestWrite size => exact h.requestWrite hstep
  | requestRead size => exact h.requestRead hstep
  | updateReserved size =>
    cases hstep
    exact ⟨h.rd, h.wt, h.filling, h.reading⟩
  | updateWrite =>
    simp only [ringStep, Option.map_eq_some_iff] at hstep
    obtain ⟨n, hn, rfl⟩ := hstep
    have hfit := h.filling n hn
    by_cases hzero : n.toNat = 0
    · rw [kshm_update_write, if_pos hzero]
      exact ⟨h.rd, h.wt, by simp, h.reading⟩
    · rw [kshm_update_write_eq hzero h.wt.1 (by omega)]
      refine ⟨h.rd, ?_, by simp, h.reading⟩
      show AtLine cfg (Function.update s.desc.wt s.desc.index _ s.desc.index)
      rw [Function.update_self]
      exact h.wt.next hfit
  | updateRead =>
    simp only [ringStep, Option.map_eq_some_iff] at hstep
    obtain ⟨n, hn, rfl⟩ := hstep
    have hfit := h.reading n hn
    rw [kshm_update_read_eq h.rd.1 (by omega)]
    refine ⟨?_, h.wt, h.filling, by simp⟩
    show AtLine cfg (Function.update s.desc.rd s.desc.index _ s.desc.index)
    rw [Function.update_self]
    exact h.rd.next (.inl hfit)

/-- The indices are inside the ring after every run. -/
theorem ringInv_run {tr : List RingAction} (hrun : Lts.run (ringStep cfg) .init tr = some s) :
    RingInv cfg s :=
  Lts.run_invariant (ringStep cfg) (ringInv_step cfg) (ringInv_init cfg) hrun

/-! ### Sizes that are granted -/

/-- A write of `n` bytes is granted, and the ring is not reset for it. -/
def Grants (cfg : KshmCfg) (d : KshmDesc) (n : Nat) : Prop :=
  room cfg d (ROUNDUP32 n) ≠ .afterReset ∧ (kshm_request_write cfg d n).2.isSome

/-- The reported sizes are the largest that are granted. -/
def QueriesAgree (cfg : KshmCfg) (d : KshmDesc) (n : Nat) : Prop :=
  (Grants cfg d n ↔ n ≤ kshm_get_free_size cfg d) ∧
    ((kshm_request_read cfg d n).isSome ↔ n ≤ kshm_get_valid_size cfg d)

/-- The areas in front of and behind the unread messages. -/
theorem tailHead_aligned (hrd : AtLine cfg (d.rd d.index)) (hwt : AtLine cfg (d.wt d.index)) :
    (tailHead cfg d).1 % 32 = 0 ∧ (tailHead cfg d).2 % 32 = 0 ∧ 0 < (tailHead cfg d).1 ∧
      (tailHead cfg d).1 ≤ cfg.size ∧ (tailHead cfg d).2 < cfg.size := by
  have hsize := cfg.size_aligned
  obtain ⟨hrdlt, hrd32⟩ := hrd
  obtain ⟨hwtlt, hwt32⟩ := hwt
  rw [tailHead_eq hrdlt hwtlt]
  split
  · show (cfg.size - d.wt d.index) % 32 = 0 ∧ d.rd d.index % 32 = 0 ∧
      0 < cfg.size - d.wt d.index ∧ cfg.size - d.wt d.index ≤ cfg.size ∧ d.rd d.index < cfg.size
    omega
  · show (d.rd d.index - d.wt d.index) % 32 = 0 ∧ 0 % 32 = 0 ∧
      0 < d.rd d.index - d.wt d.index ∧ d.rd d.index - d.wt d.index ≤ cfg.size ∧ 0 < cfg.size
    omega

/-- With nothing reserved, a write is granted that is shorter than one of the areas, or as long
    as the tail when the head is not empty. -/
theorem grants_iff {n : Nat} (hrd : AtLine cfg (d.rd d.index)) (hwt : AtLine cfg (d.wt d.index))
    (hreserved : d.reserved d.index = 0) (hn : n ≠ 0) (hmax : n ≤ 2 ^ 32 - 32) :
    Grants cfg d n ↔ ROUNDUP32 n < max (tailHead cfg d).1 (tailHead cfg d).2 ∨
      (ROUNDUP32 n = (tailHead cfg d).1 ∧ 0 < (tailHead cfg d).2) := by
  have hs : ROUNDUP32 n < 2 ^ 32 := by
    rw [ROUNDUP32_eq hmax]
    omega
  have hareas := tailHead_aligned hrd hwt
  have hbase := cfg.base_end
  unfold Grants kshm_request_write
  rw [if_neg hn]
  dsimp only
  generalize ROUNDUP32 n = size at *
  have hroom : room cfg d size =
      if (tailHead cfg d).2 < size ∧ (tailHead cfg d).1 < size then
        if d.rd d.index = d.wt d.index then
          if size > cfg.size then .none else .afterReset
        else .none
      else .enough := by
    unfold room
    dsimp only
    rw [hreserved, add32_of_lt (show 0 + size < 2 ^ 32 by omega), Nat.zero_add]
  rw [hroom]
  generalize (tailHead cfg d).1 = tail at *
  generalize (tailHead cfg d).2 = head at *
  by_cases hsmall : head < size ∧ tail < size
  · rw [if_pos hsmall]
    constructor
    · -- what is not reset for is refused
      rintro ⟨hne, hsome⟩
      split at hsome
      · contradiction
      · exact absurd (by assumption) hne
      · rename_i henough
        split at henough
        · split at henough <;> cases henough
        · cases henough
    · omega
  · rw [if_neg hsmall]
    simp only [ne_eq, reduceCtorEq, not_false_eq_true, true_and]
    split
    · simp
      omega
    · split
      · simp
        omega
      · split
        · simp
          omega
        · simp
          omega

/-- Sizes that are rounded up without wrapping around, and if the rounded size is that of the
    larger area, the size is less than that exactly when the area is a tail before a nonempty
    head. -/
def SizesAgree (cfg : KshmCfg) (d : KshmDesc) (n : Nat) : Prop :=
  n ≤ 2 ^ 32 - 32 ∧
    (ROUNDUP32 n = max (tailHead cfg d).1 (tailHead cfg d).2 →
      (n < ROUNDUP32 n ↔ (tailHead cfg d).2 ≤ (tailHead cfg d).1 ∧ 0 < (tailHead cfg d).2))

/-- In every state of the ring in which nothing is reserved, the reported sizes agree with the
    requests exactly for these sizes. -/
theorem queries_agree_iff (cfg : KshmCfg) (tr : List RingAction) {s : Ring}
    (hrun : Lts.run (ringStep cfg) .init tr = some s)
    (hreserved : s.desc.reserved s.desc.index = 0) (n : UInt32) (hn : 0 < n.toNat) :
    QueriesAgree cfg s.desc n.toNat ↔ SizesAgree cfg s.desc n.toNat := by
  have hinv := ringInv_run hrun
  have hareas := tailHead_aligned hinv.rd hinv.wt
  have hsize := cfg.size_le
  have hn32 := n.toNat_lt
  have hread := @request_read_eq cfg s.desc n.toNat (by omega) hinv.rd.1 hinv.wt.1
  have hvalid : kshm_get_valid_size cfg s.desc =
      available cfg (s.desc.rd s.desc.index) (s.desc.wt s.desc.index) :=
    available_eq hinv.rd.1 hinv.wt.1
  have havail : available cfg (s.desc.rd s.desc.index) (s.desc.wt s.desc.index) ≤ cfg.size :=
    available_le hinv.wt.1
  have hfree : kshm_get_free_size cfg s.desc =
      max (tailHead cfg s.desc).1 (tailHead cfg s.desc).2 - 1 := by
    unfold kshm_get_free_size
    dsimp only
    rw [max_comm, sub32_of_le (by omega) (by omega)]
  unfold QueriesAgree SizesAgree
  rw [hvalid, hfree, hread]
  by_cases hmax : n.toNat ≤ 2 ^ 32 - 32
  · have hge := le_ROUNDUP32 hmax
    have hlt : ROUNDUP32 n.toNat < n.toNat + 32 := by
      rw [ROUNDUP32_eq hmax]
      omega
    have hs32 := ROUNDUP32_aligned n.toNat
    have havail32 : available cfg (s.desc.rd s.desc.index) (s.desc.wt s.desc.index) % 32 = 0 := by
      have h1 := hinv.rd.2
      have h2 := hinv.wt.2
      have h3 := cfg.size_aligned
      unfold available
      split <;> omega
    rw [grants_iff hinv.rd hinv.wt hreserved (by omega) hmax]
    -- what is available is a number of lines
    have hagree : (if available cfg (s.desc.rd s.desc.index) (s.desc.wt s.desc.index) <
        ROUNDUP32 n.toNat then none
        else some (cfg.base + place cfg.size (s.desc.rd s.desc.index)
          (ROUNDUP32 n.toNat))).isSome = true ↔
          n.toNat ≤ available cfg (s.desc.rd s.desc.index) (s.desc.wt s.desc.index) := by
      split
      · simp
        omega
      · simp
        omega
    rw [and_iff_left hagree]
    generalize (tailHead cfg s.desc).1 = tail at *
    generalize (tailHead cfg s.desc).2 = head at *
    omega
  · -- a size that wraps around is granted
    have hzero := ROUNDUP32_of_wrap (by omega) hn32
    rw [hzero, if_neg (by omega)]
    simp
    omega

/-- An empty ring of two lines reports 63 free bytes, and grants no more than 32. -/
theorem queries_agree_fails :
    ¬ ∀ (cfg : KshmCfg) (tr : List RingAction) (s : Ring),
      Lts.run (ringStep cfg) .init tr = some s → s.desc.reserved s.desc.index = 0 →
        ∀ n : UInt32, 0 < n.toNat → QueriesAgree cfg s.desc n.toNat := by
  intro h
  have hagree := (h twoLines [] .init rfl rfl 33 (by decide)).1
  have hgrants := (hagree.mpr (by decide)).2
  revert hgrants
  decide

/-- One line is written to the ring of two lines; 31 bytes more are both free and granted. -/
theorem queries_agree_iff_oneLine :
    QueriesAgree twoLines (kshm_update_write twoLines .init 32) 31 ↔
      SizesAgree twoLines (kshm_update_write twoLines .init 32) 31 :=
  queries_agree_iff twoLines [.requestWrite 32, .updateWrite]
    (s := ⟨kshm_update_write twoLines .init 32, none, none⟩) rfl rfl 31 (by decide)

/-! ### The reserved room -/

/-- What was reserved is left in the area behind or in front of a granted write. -/
theorem room_of_granted {n p : Nat} (hreq : (kshm_request_write cfg d n).2 = some p)
    (hroom : room cfg d (ROUNDUP32 n) ≠ .afterReset) :
    add32 (d.reserved d.index) (ROUNDUP32 n) ≤ (tailHead cfg d).1 ∨
      add32 (d.reserved d.index) (ROUNDUP32 n) ≤ (tailHead cfg d).2 := by
  by_contra hsmall
  have hnone : room cfg d (ROUNDUP32 n) = .none := by
    unfold room at hroom ⊢
    dsimp only at hroom ⊢
    rw [if_pos (by omega)] at hroom ⊢
    split at hroom
    · split at hroom
      · rename_i heq hgt
        rw [if_pos heq, if_pos hgt]
      · contradiction
    · rename_i hne
      rw [if_neg hne]
  unfold kshm_request_write at hreq
  dsimp only at hreq
  rw [hnone] at hreq
  split at hreq <;> cases hreq

/-- The free cells behind `wt`, and those at the start of the ring. -/
def areas (cap rd wt : Nat) : Nat × Nat := if rd ≤ wt then (cap - wt, rd) else (rd - wt, 0)

/-- The larger area after a message was put into a free place. -/
theorem areas_next {cap rd wt size off : Nat} (hfree : Free cap rd wt size off) (hrd : rd < cap)
    (hwt : wt < cap) :
    max (areas cap rd (next cap wt size)).1 (areas cap rd (next cap wt size)).2 + size ≤ cap ∧
      ∀ r, r + size ≤ (areas cap rd wt).1 ∨ r + size ≤ (areas cap rd wt).2 →
        r ≤ max (areas cap rd (next cap wt size)).1 (areas cap rd (next cap wt size)).2 := by
  unfold areas
  cases hfree with
  | behind hle hroom =>
    rw [if_pos hle]
    obtain hlt | ⟨hend, hpos⟩ := hroom
    · rw [next_of_lt hlt, if_pos (by omega)]
      exact ⟨by dsimp only; omega, fun r hr => by dsimp only at hr ⊢; omega⟩
    · -- the message ends where the ring does, so the tail was just long enough
      rw [next_of_eq hend, if_neg (by omega)]
      exact ⟨by dsimp only; omega, fun r hr => by dsimp only at hr ⊢; omega⟩
  | between hlt hroom =>
    rw [next_of_lt (by omega), if_neg (by omega), if_neg (by omega)]
    exact ⟨by dsimp only; omega, fun r hr => by dsimp only at hr ⊢; omega⟩
  | start hle hover hroom =>
    rw [next_of_gt hover, if_pos hle, if_neg (by omega)]
    exact ⟨by dsimp only; omega, fun r hr => by dsimp only at hr ⊢; omega⟩

/-- A write that is granted after `r` bytes were reserved leaves them when it is committed,
    exactly when neither the rounded sizes nor their sum wrap around. -/
theorem reserve_kept_iff (cfg : KshmCfg) (tr : List RingAction) {s : Ring}
    (hrun : Lts.run (ringStep cfg) .init tr = some s) (r n : UInt32) {d : KshmDesc} {p : Nat}
    (hroom : room cfg (kshm_update_reserved s.desc r.toNat) (ROUNDUP32 n.toNat) ≠ .afterReset)
    (hreq : kshm_request_write cfg (kshm_update_reserved s.desc r.toNat) n.toNat = (d, some p)) :
    r.toNat ≤ max (tailHead cfg (kshm_update_write cfg d n.toNat)).1
        (tailHead cfg (kshm_update_write cfg d n.toNat)).2 ↔
      r.toNat ≤ 2 ^ 32 - 32 ∧ ROUNDUP32 r.toNat + ROUNDUP32 n.toNat < 2 ^ 32 := by
  have hinv := ringInv_run hrun
  have hcap := cfg.size_le
  have hr32 := r.toNat_lt
  -- the indices and what is reserved when the write is requested
  have hrd : (kshm_update_reserved s.desc r.toNat).rd
      (kshm_update_reserved s.desc r.toNat).index < cfg.size := hinv.rd.1
  have hwt : (kshm_update_reserved s.desc r.toNat).wt
      (kshm_update_reserved s.desc r.toNat).index < cfg.size := hinv.wt.1
  have hreserved : (kshm_update_reserved s.desc r.toNat).reserved
      (kshm_update_reserved s.desc r.toNat).index = ROUNDUP32 r.toNat := Function.update_self ..
  generalize kshm_update_reserved s.desc r.toNat = e at *
  have henough := room_of_granted (p := p) (by rw [hreq]) hroom
  obtain ⟨rfl, hn, off, -, hfree⟩ := request_write_spec hrd hwt hroom hreq
  have hS : ROUNDUP32 n.toNat ≤ cfg.size :=
    Nat.le_trans (Nat.le_add_left _ _) (hfree.le_cap hrd)
  obtain ⟨hle, hleft⟩ := areas_next hfree hrd hwt
  have hafter : tailHead cfg (kshm_update_write cfg d n.toNat) = areas cfg.size (d.rd d.index)
      (next cfg.size (d.wt d.index) (ROUNDUP32 n.toNat)) := by
    rw [kshm_update_write_eq hn hwt hS, tailHead_eq]
    · simp [areas]
    · exact hrd
    · dsimp only
      rw [Function.update_self]
      exact hfree.next_lt hrd
  have hbefore : tailHead cfg d = areas cfg.size (d.rd d.index) (d.wt d.index) :=
    tailHead_eq hrd hwt
  rw [hreserved, hbefore] at henough
  rw [hafter]
  constructor
  · -- a sum that wraps around is more than the ring has room for
    intro hroom
    by_contra hwrap
    by_cases hmax : r.toNat ≤ 2 ^ 32 - 32
    · have hlt : ROUNDUP32 r.toNat < r.toNat + 32 := by
        rw [ROUNDUP32_eq hmax]
        omega
      omega
    · omega
  · rintro ⟨hmax, hsum⟩
    rw [add32_of_lt hsum] at henough
    exact Nat.le_trans (le_ROUNDUP32 hmax) (hleft _ henough)

theorem request_write_eq_some {n p : Nat} (h : (kshm_request_write cfg d n).2 = some p) :
    kshm_request_write cfg d n = ((kshm_request_write cfg d n).1, some p) := by
  rw [← h]

/-- The ring of four lines after one line was reserved and 40 bytes were requested. -/
def oneReserved : KshmDesc :=
  (kshm_request_write fourLines (kshm_update_reserved .init (32 : UInt32).toNat)
    (40 : UInt32).toNat).1

theorem reserve_kept_iff_oneReserved :
    (32 : UInt32).toNat ≤ max
        (tailHead fourLines (kshm_update_write fourLines oneReserved (40 : UInt32).toNat)).1
        (tailHead fourLines (kshm_update_write fourLines oneReserved (40 : UInt32).toNat)).2 ↔
      (32 : UInt32).toNat ≤ 2 ^ 32 - 32 ∧
        ROUNDUP32 (32 : UInt32).toNat + ROUNDUP32 (40 : UInt32).toNat < 2 ^ 32 :=
  reserve_kept_iff fourLines [] rfl 32 40 (by decide)
    (request_write_eq_some (p := 2 ^ 31) (by decide))

/-- When nearly `2 ^ 32` bytes are reserved, the sum with the size of a message wraps around and
    the message is granted. -/
theorem reserve_kept_fails :
    ¬ ∀ (cfg : KshmCfg) (tr : List RingAction) (s : Ring),
      Lts.run (ringStep cfg) .init tr = some s → ∀ (r n : UInt32) (d : KshmDesc) (p : Nat),
        room cfg (kshm_update_reserved s.desc r.toNat) (ROUNDUP32 n.toNat) ≠ .afterReset →
        kshm_request_write cfg (kshm_update_reserved s.desc r.toNat) n.toNat = (d, some p) →
          r.toNat ≤ max (tailHead cfg (kshm_update_write cfg d n.toNat)).1
            (tailHead cfg (kshm_update_write cfg d n.toNat)).2 := by
  intro h
  have hkept := h twoLines [] .init rfl 0xFFFFFFE0 32 _ (2 ^ 31) (by decide)
    (request_write_eq_some (by decide))
  revert hkept
  decide

end

end Hcrtos.Native.Kshm
