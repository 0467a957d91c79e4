import Hcrtos.Spec.KshmFifo

/-!
# A message ring that is read in arbitrary sizes

A reader that does not know the sizes of the messages asks for any number of bytes. What it is
handed is the oldest of what is committed and unread, except where the writer went on at the
start of the ring: then the cells between the last message and the end of the ring are handed
out as data, and messages are skipped.

## Key results

- `StreamInv.write`, `StreamInv.read`: what is unread, after each call
- `request_read_committed_iff`: when a request is handed committed data in the order of the
  writes
- `request_read_committed_fails`: a read that is handed cells that were never written
-/

namespace Hcrtos.Native.Kshm

open Word Memory MessageRing

/-- The ring and the memory, and the committed cells that no read consumed, in the order of the
    writes, with the bytes that were committed. -/
structure Stream where
  desc : KshmDesc
  mem : Mem
  unread : List (Nat × UInt8)

def Stream.init (m : Mem) : Stream := ⟨.init, m, []⟩

inductive StreamAction where
  /-- `kshm_write`; `xfer` is what `dma_copy` returns if it is called. -/
  | write (buf : Payload) (xfer : Int)
  /-- `kshm_read`. -/
  | read (size : UInt32)

/-- Where `kshm_write` puts the message that it commits. -/
def committed (cfg : KshmCfg) (d : KshmDesc) (buf : List UInt8) (xfer : Int) : Option Nat :=
  if buf.length < 512 ∨ cfg.dma_ch = -1 ∨ xfer ≠ -1 then
    (kshm_request_write cfg d buf.length).2
  else none

/-- One call. A message is committed with the cells it is rounded up to. -/
def streamStep (cfg : KshmCfg) (s : Stream) : StreamAction → Option Stream
  | .write buf xfer =>
    let (d, m, _) := kshm_write cfg s.desc s.mem buf.bytes xfer
    let new := match committed cfg s.desc buf.bytes xfer with
      | none => []
      | some p => cellsAt m p (ROUNDUP32 buf.bytes.length)
    some ⟨d, m, s.unread ++ new⟩
  | .read size =>
    match kshm_read cfg s.desc s.mem size.toNat with
    | (d, none) => some { s with desc := d }
    | (d, some _) =>
      some { s with desc := d, unread := s.unread.drop (ROUNDUP32 size.toNat) }

/-- The `n` cells at `p` are the oldest committed ones that no read consumed. -/
def HandsOut (s : Stream) (p n : Nat) : Prop :=
  n ≤ s.unread.length ∧ cellsAt s.mem p n = s.unread.take n

/-- The size is rounded up without wrapping around, and when the writer went on at the start of
    the ring, the read ends with or before the messages in front of that, or those are read and
    the rest of the ring is too short for it. -/
def InOrder (cfg : KshmCfg) (s : Stream) (n : Nat) : Prop :=
  n ≤ 2 ^ 32 - 32 ∧ (s.desc.rd s.desc.index ≤ s.desc.wt s.desc.index ∨
    ROUNDUP32 n + s.desc.wt s.desc.index ≤ s.unread.length ∨
    (s.unread.length = s.desc.wt s.desc.index ∧
      cfg.size < s.desc.rd s.desc.index + ROUNDUP32 n))

/-- The side condition of a step: reads that are granted are in order, and no write fills an
    empty ring, which is then reset to its start, to the last byte. -/
def StaysInOrder (cfg : KshmCfg) (s : Stream) : StreamAction → Prop
  | .write buf _ => ¬ (ROUNDUP32 buf.bytes.length = cfg.size ∧
      s.desc.rd s.desc.index = s.desc.wt s.desc.index ∧ s.desc.rd s.desc.index ≠ 0)
  | .read size =>
    kshm_request_read cfg s.desc size.toNat = none ∨ InOrder cfg s size.toNat

/-- The unread cells: one row behind `rd`, or one up to the message `last` in front of the end
    of the ring and one at its start. -/
inductive Unread (cfg : KshmCfg) (rd wt : Nat) (m : Mem) : List (Nat × UInt8) → Prop where
  | straight (hle : rd ≤ wt) : Unread cfg rd wt m (cellsAt m (cfg.base + rd) (wt - rd))
  | wrapped {last : Nat} (hlt : wt < rd) (hrd : rd ≤ last) (hlast : last ≤ cfg.size)
      (haligned : last % 32 = 0) :
      Unread cfg rd wt m (cellsAt m (cfg.base + rd) (last - rd) ++ cellsAt m cfg.base wt)

/-- The invariant of the ring. -/
structure StreamInv (cfg : KshmCfg) (s : Stream) : Prop where
  rd_lt : s.desc.rd s.desc.index < cfg.size
  wt_lt : s.desc.wt s.desc.index < cfg.size
  rd_aligned : s.desc.rd s.desc.index % 32 = 0
  wt_aligned : s.desc.wt s.desc.index % 32 = 0
  reserved_eq : ∀ i, s.desc.reserved i = 0
  unread : Unread cfg (s.desc.rd s.desc.index) (s.desc.wt s.desc.index) s.mem s.unread

theorem streamInv_init (cfg : KshmCfg) (m : Mem) : StreamInv cfg (.init m) where
  rd_lt := cfg.size_pos
  wt_lt := cfg.size_pos
  rd_aligned := rfl
  wt_aligned := rfl
  reserved_eq := fun _ => rfl
  unread := .straight (Nat.le_refl 0)

/-! ### Unread cells -/

section

variable {cfg : KshmCfg} {rd wt s off : Nat} {m m' : Mem} {u : List (Nat × UInt8)}

/-- An empty ring holds no unread cells. -/
theorem Unread.nil_of_eq (h : Unread cfg rd wt m u) (heq : rd = wt) : u = [] := by
  cases h with
  | straight hle => simp [cellsAt, heq]
  | wrapped hlt => omega

/-- Writes beside the unread cells do not matter. -/
theorem Unread.congr (h : Unread cfg rd wt m u)
    (hsame : ∀ c, Live cfg.size rd wt c → m' (cfg.base + c) = m (cfg.base + c)) :
    Unread cfg rd wt m' u := by
  have hcells : ∀ a n, (∀ c, a ≤ c → c < a + n → Live cfg.size rd wt c) →
      cellsAt m (cfg.base + a) n = cellsAt m' (cfg.base + a) n := by
    intro a n hlive
    refine (cellsAt_congr fun x hx hlt => ?_).symm
    obtain ⟨c, rfl⟩ := Nat.exists_eq_add_of_le (show cfg.base ≤ x by omega)
    exact hsame c (hlive c (by omega) (by omega))
  cases h with
  | straight hle =>
    rw [hcells rd (wt - rd) fun c hc hlt => .inl ⟨hle, hc, by omega⟩]
    exact .straight hle
  | wrapped hlt hrd hlast haligned =>
    have hstart := hcells 0 wt fun c _ hc => .inr ⟨hlt, .inl (by omega)⟩
    rw [hcells rd _ fun c hc hc' => .inr ⟨hlt, .inr ⟨hc, by omega⟩⟩]
    rw [Nat.add_zero] at hstart
    rw [hstart]
    exact .wrapped hlt hrd hlast haligned

/-- Committing a message in a free place. -/
theorem Unread.push (h : Unread cfg rd wt m u) (hfree : Free cfg.size rd wt s off)
    (hwt : wt < cfg.size) (haligned : wt % 32 = 0) (hsize : cfg.size % 32 = 0) :
    Unread cfg rd (next cfg.size wt s) m (u ++ cellsAt m (cfg.base + off) s) := by
  cases hfree with
  | behind hle hroom =>
    cases h with
    | wrapped hlt => omega
    | straight =>
      have hrow : cellsAt m (cfg.base + rd) (wt - rd) ++ cellsAt m (cfg.base + wt) s =
          cellsAt m (cfg.base + rd) (wt + s - rd) := by
        rw [show cfg.base + wt = cfg.base + rd + (wt - rd) by omega, cellsAt_append,
          show wt - rd + s = wt + s - rd by omega]
      rw [hrow]
      obtain hlt | ⟨hend, hpos⟩ := hroom
      · rw [next_of_lt hlt]
        exact .straight (by omega)
      · -- the message ends where the ring does
        rw [next_of_eq hend, hend, ← List.append_nil (cellsAt m _ _)]
        exact .wrapped hpos (by omega) (Nat.le_refl _) hsize
  | between hlt hroom =>
    cases h with
    | straight hle => omega
    | wrapped _ hrd hlast hlast32 =>
      rw [next_of_lt (by omega), List.append_assoc, cellsAt_append]
      exact .wrapped hroom hrd hlast hlast32
  | start hle hover hroom =>
    cases h with
    | wrapped hlt => omega
    | straight =>
      rw [next_of_gt hover, Nat.add_zero]
      exact .wrapped hroom hle (by omega) haligned

end

/-! ### Writes -/

section

variable {cfg : KshmCfg} {s : Stream}

/-- A granted request points to a free place of the ring, which is empty if it was reset. -/
theorem StreamInv.granted {d : KshmDesc} {n p : Nat} (h : StreamInv cfg s) (hmax : n < 2 ^ 31)
    (hfull : ¬ (ROUNDUP32 n = cfg.size ∧ s.desc.rd s.desc.index = s.desc.wt s.desc.index ∧
      s.desc.rd s.desc.index ≠ 0))
    (hreq : kshm_request_write cfg s.desc n = (d, some p)) :
    n ≠ 0 ∧ StreamInv cfg { s with desc := d } ∧ ∃ off, p = cfg.base + off ∧
      Free cfg.size (d.rd d.index) (d.wt d.index) (ROUNDUP32 n) off := by
  by_cases hroom : room cfg s.desc (ROUNDUP32 n) = .afterReset
  · have hs : ROUNDUP32 n < 2 ^ 32 := by
      rw [ROUNDUP32_eq (by omega)]
      omega
    obtain ⟨heq, hne, hle⟩ :=
      room_afterReset h.rd_lt h.wt_lt (h.reserved_eq s.desc.index) hs hroom
    have hrd0 := special_reset_rd s.desc
    have hwt0 := special_reset_wt s.desc
    have hnil := h.unread.nil_of_eq heq
    unfold kshm_request_write at hreq
    split at hreq
    · cases hreq
    · rename_i hn
      dsimp only at hreq
      rw [hroom] at hreq
      cases hreq
      refine ⟨hn, ?_, 0, rfl, ?_⟩
      · constructor
        · rw [hrd0]
          exact cfg.size_pos
        · rw [hwt0]
          exact cfg.size_pos
        · rw [hrd0]
        · rw [hwt0]
        · intro i
          show Function.update s.desc.reserved (1 - s.desc.index) 0 i = 0
          rw [Function.update_apply, h.reserved_eq i, ite_self]
        · rw [hrd0, hwt0]
          show Unread cfg 0 0 s.mem s.unread
          rw [hnil]
          exact .straight (Nat.le_refl 0)
      · -- the message is shorter than the ring
        have hlt : ROUNDUP32 n < cfg.size :=
          Nat.lt_of_le_of_ne hle fun hfit => hfull ⟨hfit, heq, hne⟩
        rw [hrd0, hwt0]
        exact .behind (Nat.le_refl 0) (.inl (by omega))
  · obtain ⟨rfl, hn, off, hp, hfree⟩ := request_write_spec h.rd_lt h.wt_lt hroom hreq
    exact ⟨hn, h, off, hp, hfree⟩

/-- The copy and the commit of a message. -/
theorem StreamInv.commit {buf : List UInt8} {off : Nat} (h : StreamInv cfg s)
    (hn : buf.length ≠ 0) (hmax : buf.length < 2 ^ 31)
    (hfree : Free cfg.size (s.desc.rd s.desc.index) (s.desc.wt s.desc.index)
      (ROUNDUP32 buf.length) off) :
    StreamInv cfg ⟨kshm_update_write cfg s.desc buf.length, memcpy s.mem (cfg.base + off) buf,
      s.unread ++ cellsAt (memcpy s.mem (cfg.base + off) buf) (cfg.base + off)
        (ROUNDUP32 buf.length)⟩ := by
  have hlen := le_ROUNDUP32 (n := buf.length) (by omega)
  have hs : ROUNDUP32 buf.length ≤ cfg.size :=
    Nat.le_trans (Nat.le_add_left _ _) (hfree.le_cap h.rd_lt)
  rw [kshm_update_write_eq hn h.wt_lt hs]
  have hnext := hfree.next_lt h.rd_lt
  constructor
  · exact h.rd_lt
  · show Function.update s.desc.wt s.desc.index _ s.desc.index < cfg.size
    rw [Function.update_self]
    exact hnext
  · exact h.rd_aligned
  · show Function.update s.desc.wt s.desc.index _ s.desc.index % 32 = 0
    rw [Function.update_self]
    exact next_aligned h.wt_aligned (ROUNDUP32_aligned _)
  · exact h.reserved_eq
  · show Unread cfg _ (Function.update s.desc.wt s.desc.index _ s.desc.index) _ _
    rw [Function.update_self]
    -- the free place has no live cell, so what is unread is not overwritten
    refine (h.unread.congr fun c hc => memcpy_apply_of_outside ?_).push hfree h.wt_lt
      h.wt_aligned cfg.size_aligned
    by_contra hin
    exact hfree.not_live (by omega) (by omega) hc

/-- The bookkeeping of a transfer does not touch the ring. -/
theorem StreamInv.congr {d : KshmDesc} (h : StreamInv cfg s) (hindex : d.index = s.desc.index)
    (hrd : d.rd = s.desc.rd) (hwt : d.wt = s.desc.wt) (hreserved : d.reserved = s.desc.reserved) :
    StreamInv cfg { s with desc := d } := by
  constructor
  · rw [hrd, hindex]
    exact h.rd_lt
  · rw [hwt, hindex]
    exact h.wt_lt
  · rw [hrd, hindex]
    exact h.rd_aligned
  · rw [hwt, hindex]
    exact h.wt_aligned
  · rw [hreserved]
    exact h.reserved_eq
  · rw [hrd, hwt, hindex]
    exact h.unread

/-- `kshm_write`. -/
theorem StreamInv.write {s' : Stream} {buf : Payload} {xfer : Int} (h : StreamInv cfg s)
    (hstays : StaysInOrder cfg s (.write buf xfer))
    (hstep : streamStep cfg s (.write buf xfer) = some s') : StreamInv cfg s' := by
  have hmax := buf.fits
  simp only [streamStep, committed] at hstep
  by_cases hn : buf.bytes.length = 0
  · have hreq : (kshm_request_write cfg s.desc buf.bytes.length).2 = none := by
      rw [kshm_request_write, if_pos hn]
    rw [hreq, ite_self] at hstep
    rw [kshm_write, if_pos hn] at hstep
    cases hstep
    rw [List.append_nil]
    exact h
  · rcases hreq : kshm_request_write cfg s.desc buf.bytes.length with ⟨d, ptr⟩
    rw [hreq] at hstep
    cases ptr with
    | none =>
      obtain rfl := request_write_refused hreq
      rw [ite_self, kshm_write_refused hn hreq] at hstep
      cases hstep
      rw [List.append_nil]
      exact h
    | some p =>
      obtain ⟨-, hd, off, rfl, hfree⟩ := h.granted hmax hstays hreq
      by_cases hcopy : buf.bytes.length < 512 ∨ cfg.dma_ch = -1
      · -- the payload is copied by the processor
        rw [if_pos (hcopy.imp_right .inl), kshm_write_memcpy xfer hn hreq hcopy] at hstep
        cases hstep
        exact hd.commit hn hmax hfree
      · by_cases hxfer : xfer = -1
        · -- nothing was copied, and nothing is committed
          have hnot : ¬ (buf.bytes.length < 512 ∨ cfg.dma_ch = -1 ∨ xfer ≠ -1) := by
            rintro (hlt | hch | hne)
            · exact hcopy (.inl hlt)
            · exact hcopy (.inr hch)
            · exact hne hxfer
          rw [if_neg hnot, hxfer, kshm_write_dma_fails hn hreq hcopy] at hstep
          cases hstep
          rw [List.append_nil]
          exact hd.congr rfl rfl rfl rfl
        · rw [if_pos (.inr (.inr hxfer)), kshm_write_dma hn hreq hcopy hxfer] at hstep
          cases hstep
          have hcommit := hd.commit hn hmax hfree
          unfold kshm_update_write at hcommit ⊢
          rw [if_neg hn] at hcommit ⊢
          exact hcommit.congr rfl rfl rfl rfl

end

/-! ### Reads -/

section

variable {cfg : KshmCfg} {s : Stream}

theorem Unread.length_le {rd wt : Nat} {m : Mem} {u : List (Nat × UInt8)}
    (h : Unread cfg rd wt m u) (hwt : wt < cfg.size) : u.length ≤ cfg.size := by
  cases h with
  | straight hle =>
    rw [length_cellsAt]
    omega
  | wrapped hlt hrd hlast haligned =>
    rw [List.length_append, length_cellsAt, length_cellsAt]
    omega

/-- A read of `n` cells that stays in order is handed the first `n` unread ones, and leaves the
    others. -/
theorem Unread.read {rd wt n : Nat} {m : Mem} {u : List (Nat × UInt8)} (h : Unread cfg rd wt m u)
    (hrd : rd < cfg.size) (hwt : wt < cfg.size)
    (havail : n ≤ available cfg rd wt)
    (hfits : rd ≤ wt ∨ n + wt ≤ u.length ∨ (u.length = wt ∧ cfg.size < rd + n)) :
    n ≤ u.length ∧ u.take n = cellsAt m (cfg.base + place cfg.size rd n) n ∧
      next cfg.size rd n < cfg.size ∧ Unread cfg (next cfg.size rd n) wt m (u.drop n) := by
  unfold available at havail
  cases h with
  | straight hle =>
    rw [if_pos hle] at havail
    rw [length_cellsAt, place_of_le (by omega), next_of_lt (by omega), take_cellsAt havail,
      drop_cellsAt havail]
    refine ⟨havail, rfl, by omega, ?_⟩
    rw [show cfg.base + rd + n = cfg.base + (rd + n) by omega,
      show wt - rd - n = wt - (rd + n) by omega]
    exact .straight (by omega)
  | @wrapped last hlt hle hlast haligned =>
    rw [if_neg (by omega)] at havail
    rw [List.length_append, length_cellsAt, length_cellsAt] at hfits ⊢
    by_cases hfront : n ≤ last - rd
    · -- the read ends in front of the end of the ring
      have hlen : n ≤ (cellsAt m (cfg.base + rd) (last - rd)).length := by
        rw [length_cellsAt]
        exact hfront
      rw [place_of_le (by omega), List.take_append_of_le_length hlen,
        List.drop_append_of_le_length hlen, take_cellsAt hfront, drop_cellsAt hfront]
      refine ⟨by omega, rfl, ?_⟩
      by_cases hend : rd + n = cfg.size
      · rw [next_of_eq hend, show last - rd - n = 0 by omega]
        exact ⟨by omega, .straight (Nat.zero_le wt)⟩
      · rw [next_of_lt (by omega), show cfg.base + rd + n = cfg.base + (rd + n) by omega,
          show last - rd - n = last - (rd + n) by omega]
        exact ⟨by omega, .wrapped (by omega) (by omega) hlast haligned⟩
    · -- the messages there are read, and the read goes on at the start
      obtain ⟨rfl, hover⟩ : last = rd ∧ cfg.size < rd + n := by omega
      have hnwt : n ≤ wt := by omega
      have hnil : cellsAt m (cfg.base + last) (last - last) = [] := by simp [cellsAt]
      rw [hnil, List.nil_append, place_of_gt hover, next_of_gt hover, take_cellsAt hnwt,
        drop_cellsAt hnwt, Nat.add_zero]
      exact ⟨by omega, rfl, by omega, .straight hnwt⟩

/-- `kshm_read`. -/
theorem StreamInv.read {s' : Stream} {size : UInt32} (h : StreamInv cfg s)
    (hstays : StaysInOrder cfg s (.read size))
    (hstep : streamStep cfg s (.read size) = some s') : StreamInv cfg s' := by
  simp only [streamStep] at hstep
  by_cases hn : size.toNat = 0
  · rw [kshm_read, if_pos hn] at hstep
    cases hstep
    exact h
  · rw [kshm_read, if_neg hn] at hstep
    cases hreq : kshm_request_read cfg s.desc size.toNat with
    | none =>
      rw [hreq] at hstep
      cases hstep
      exact h
    | some p =>
      rw [hreq] at hstep
      cases hstep
      obtain ⟨hmax, hfits⟩ := hstays.resolve_left (by rw [hreq]; simp)
      rw [request_read_eq hn h.rd_lt h.wt_lt] at hreq
      split at hreq
      · cases hreq
      · rename_i havail
        obtain ⟨hle, -, hlt, hrest⟩ :=
          h.unread.read h.rd_lt h.wt_lt (Nat.le_of_not_lt havail) hfits
        have hlen := h.unread.length_le h.wt_lt
        rw [kshm_update_read_eq h.rd_lt (by omega)]
        constructor
        · show Function.update s.desc.rd s.desc.index _ s.desc.index < cfg.size
          rw [Function.update_self]
          exact hlt
        · exact h.wt_lt
        · show Function.update s.desc.rd s.desc.index _ s.desc.index % 32 = 0
          rw [Function.update_self]
          exact next_aligned h.rd_aligned (ROUNDUP32_aligned _)
        · exact h.wt_aligned
        · exact h.reserved_eq
        · show Unread cfg (Function.update s.desc.rd s.desc.index _ s.desc.index) _ _ _
          rw [Function.update_self]
          exact hrest

theorem streamInv_step (cfg : KshmCfg) (s : Stream) (a : StreamAction) (s' : Stream)
    (h : StreamInv cfg s) (hstays : StaysInOrder cfg s a) (hstep : streamStep cfg s a = some s') :
    StreamInv cfg s' := by
  cases a with
  | write buf xfer => exact h.write hstays hstep
  | read size => exact h.read hstays hstep

/-! ### Requests -/

/-- What a read that stays in order is handed. -/
theorem StreamInv.handsOut {n p : Nat} (h : StreamInv cfg s) (horder : InOrder cfg s n)
    (hreq : kshm_request_read cfg s.desc n = some p) : HandsOut s p n := by
  obtain ⟨hmax, hfits⟩ := horder
  by_cases hn : n = 0
  · rw [kshm_request_read, if_pos hn] at hreq
    cases hreq
  · rw [request_read_eq hn h.rd_lt h.wt_lt] at hreq
    split at hreq
    · cases hreq
    · rename_i havail
      cases hreq
      have hlen := le_ROUNDUP32 hmax
      obtain ⟨hle, htake, -, -⟩ :=
        h.unread.read h.rd_lt h.wt_lt (Nat.le_of_not_lt havail) hfits
      refine ⟨by omega, ?_⟩
      have hprefix := congrArg (List.take n) htake
      rw [List.take_take, Nat.min_eq_left hlen, take_cellsAt hlen] at hprefix
      exact hprefix.symm

/-- A read that does not stay in order is handed other cells. -/
theorem StreamInv.not_handsOut {n p : Nat} (h : StreamInv cfg s) (hn32 : n < 2 ^ 32)
    (horder : ¬ InOrder cfg s n) (hreq : kshm_request_read cfg s.desc n = some p) :
    ¬ HandsOut s p n := by
  rintro ⟨hle, hcells⟩
  have hlen := h.unread.length_le h.wt_lt
  have hsize := cfg.size_le
  have hrd32 := h.rd_aligned
  -- no more than the ring is unread
  have hmax : n ≤ 2 ^ 32 - 32 := by omega
  obtain ⟨hn, hs⟩ : n ≠ 0 ∧ ROUNDUP32 n < n + 32 := by
    refine ⟨?_, ?_⟩
    · rintro rfl
      cases hreq
    · rw [ROUNDUP32_eq hmax]
      omega
  have hge := le_ROUNDUP32 hmax
  have hs32 := ROUNDUP32_aligned n
  rw [request_read_eq hn h.rd_lt h.wt_lt] at hreq
  split at hreq
  · cases hreq
  cases hreq
  unfold InOrder at horder
  have hat : ∀ i < n, s.unread[i]? =
      some (cfg.base + place cfg.size (s.desc.rd s.desc.index) (ROUNDUP32 n) + i,
        s.mem (cfg.base + place cfg.size (s.desc.rd s.desc.index) (ROUNDUP32 n) + i)) := by
    intro i hi
    rw [← getElem?_cellsAt hi, hcells, List.getElem?_take_of_lt hi]
  have hunread := h.unread
  generalize s.unread = u at *
  generalize s.desc.rd s.desc.index = rd at *
  generalize s.desc.wt s.desc.index = wt at *
  cases hunread with
  | straight hle' => exact horder ⟨hmax, .inl hle'⟩
  | @wrapped last hlt hrd hlast haligned =>
    rw [List.length_append, length_cellsAt, length_cellsAt] at horder hle
    by_cases hover : cfg.size < rd + ROUNDUP32 n
    · -- messages in front of the end of the ring are skipped
      have hfirst := hat 0 (by omega)
      rw [place_of_gt hover, List.getElem?_append_left (by rw [length_cellsAt]; omega),
        getElem?_cellsAt (by omega)] at hfirst
      have := congrArg Prod.fst (Option.some.inj hfirst)
      dsimp only at this
      omega
    · -- the cell behind those messages is not the first one of the ring
      have hgap := hat (last - rd) (by omega)
      rw [place_of_le (by omega), List.getElem?_append_right (by rw [length_cellsAt]),
        length_cellsAt, Nat.sub_self, getElem?_cellsAt (by omega)] at hgap
      have := congrArg Prod.fst (Option.some.inj hgap)
      dsimp only at this
      omega

/-- In every run whose reads stay in order, a request is handed the oldest unread cells exactly
    when it does, too. -/
theorem request_read_committed_iff (cfg : KshmCfg) (m : Mem) (tr : List StreamAction)
    {s : Stream} (hrun : Lts.run (streamStep cfg) (.init m) tr = some s)
    (hmeets : Lts.Meets (streamStep cfg) (StaysInOrder cfg) (.init m) tr) (n : UInt32) {p : Nat}
    (hreq : kshm_request_read cfg s.desc n.toNat = some p) :
    HandsOut s p n.toNat ↔ InOrder cfg s n.toNat := by
  have hinv := Lts.run_invariant_of_meets (streamStep cfg) (streamInv_step cfg)
    (streamInv_init cfg m) hmeets hrun
  constructor
  · intro hands
    by_contra horder
    exact hinv.not_handsOut n.toNat_lt horder hreq hands
  · intro horder
    exact hinv.handsOut horder hreq

/-- A message of `n` sevens. -/
def sevens (n : Fin 128) : Payload where
  bytes := List.replicate n 7
  fits := by
    rw [List.length_replicate]
    omega

/-- The ring that holds one message of 40 bytes. -/
def oneMessage : Stream where
  desc := kshm_update_write fourLines .init 40
  mem := memcpy (fun _ => 0) (2 ^ 31) (List.replicate 40 7)
  unread := cellsAt (memcpy (fun _ => 0) (2 ^ 31) (List.replicate 40 7)) (2 ^ 31) 64

theorem request_read_committed_iff_oneMessage :
    HandsOut oneMessage (2 ^ 31) 20 ↔ InOrder fourLines oneMessage 20 :=
  request_read_committed_iff fourLines (fun _ => 0) [.write (sevens 40) 0] rfl
    ⟨fun hfull => absurd hfull.2.2 (by decide), fun _ _ => trivial⟩ 20 rfl

/-- The last message in front of the end of the ring ends a line before it, and the reader that
    asks for a line is handed that one. -/
theorem request_read_committed_fails :
    ¬ ∀ (cfg : KshmCfg) (m : Mem) (tr : List StreamAction) (s : Stream),
      Lts.run (streamStep cfg) (.init m) tr = some s → ∀ (n : UInt32) (p : Nat),
        kshm_request_read cfg s.desc n.toNat = some p → HandsOut s p n.toNat := by
  intro h
  have hrun : ∃ s, Lts.run (streamStep fourLines) (.init fun _ => 0)
      [.write (sevens 96) 0, .read 96, .write (sevens 64) 0] = some s ∧
        kshm_request_read fourLines s.desc 32 = some (2 ^ 31 + 96) ∧
        s.unread.head? = some (2 ^ 31, 7) := ⟨_, rfl, rfl, rfl⟩
  obtain ⟨s, hrun, hreq, hfirst⟩ := hrun
  obtain ⟨-, hcells⟩ := h fourLines _ _ s hrun 32 _ hreq
  have hhead := congrArg List.head? hcells
  rw [List.head?_take, if_neg (by decide), hfirst] at hhead
  have haddr : 2 ^ 31 + 96 = 2 ^ 31 := congrArg Prod.fst (Option.some.inj hhead)
  omega

end

end Hcrtos.Native.Kshm
