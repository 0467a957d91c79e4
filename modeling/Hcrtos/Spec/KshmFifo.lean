import Hcrtos.ForStd.Lts
import Hcrtos.Spec.KshmLayout

/-!
# A message ring is a queue of payloads

`kshm_write` and `kshm_read` one after the other, each read asking for the size of the oldest
unread message. The messages stand in the memory as the layout of the ring says, and reading
on from any state returns them in order, unless a write reported success for a message that
it did not put into the ring.

## Key results

- `write_cases`: a write fails, appends its payload, or loses it
- `Stored.read`: a read returns the oldest payload
- `always_delivers_iff`: the ring delivers in every state of a run exactly when no write of
  the run loses its payload
- `delivers_fails`: a failing `dma_copy` is reported as success
-/

namespace Hcrtos.Native.Kshm

open Word Memory MessageRing

/-- The bytes of an object in memory; it is shorter than half of the address space. -/
structure Payload where
  bytes : List UInt8
  fits : bytes.length < 2 ^ 31

/-- The ring, the memory, the payloads of the writes that returned their size, and those that
    reads returned. -/
structure Fifo where
  desc : KshmDesc
  mem : Mem
  written : List (List UInt8)
  got : List (List UInt8)

def Fifo.init (m : Mem) : Fifo := ⟨.init, m, [], []⟩

/-- The written payloads that were not read yet. -/
def Fifo.unread (s : Fifo) : List (List UInt8) := s.written.drop s.got.length

inductive FifoAction where
  /-- `kshm_write`; `xfer` is what `dma_copy` returns if it is called. -/
  | write (buf : Payload) (xfer : Int)
  /-- `kshm_read` of the size of the oldest unread message. -/
  | read

/-- One call. -/
def fifoStep (cfg : KshmCfg) (s : Fifo) : FifoAction → Option Fifo
  | .write buf xfer =>
    let (d, m, ok) := kshm_write cfg s.desc s.mem buf.bytes xfer
    some { s with
      desc := d
      mem := m
      written := if ok then s.written ++ [buf.bytes] else s.written }
  | .read =>
    match s.unread with
    | [] => none
    | buf :: _ =>
      match kshm_read cfg s.desc s.mem buf.length with
      | (d, none) => some { s with desc := d }
      | (d, some bytes) => some { s with desc := d, got := s.got ++ [bytes] }

/-- Reading on returns what was written: with the reads so far, exactly the payloads of the
    successful writes, in order. -/
def Delivers (cfg : KshmCfg) (s : Fifo) : Prop :=
  ∃ t, Lts.run (fifoStep cfg) s (List.replicate s.unread.length .read) = some t ∧
    t.got = s.written

/-- A write of `n` bytes keeps its payload: `dma_copy` does not fail in it, or is not reached
    because there is no room, and it does not fill an empty ring, which is then reset to its
    start, to the last byte. -/
def Keeps (cfg : KshmCfg) (d : KshmDesc) (n : Nat) (xfer : Int) : Prop :=
  (n < 512 ∨ cfg.dma_ch = -1 ∨ xfer ≠ -1 ∨ (kshm_request_write cfg d n).2 = none) ∧
    ¬ (ROUNDUP32 n = cfg.size ∧ d.rd d.index = d.wt d.index ∧ d.rd d.index ≠ 0)

/-- The side condition of a step. -/
def KeepsPayload (cfg : KshmCfg) (s : Fifo) : FifoAction → Prop
  | .write buf xfer => Keeps cfg s.desc buf.bytes.length xfer
  | .read => True

/-- The messages stand between the indices of `d`, and nothing is reserved. -/
structure Stored (cfg : KshmCfg) (d : KshmDesc) (m : Mem) (msgs : List (List UInt8)) :
    Prop where
  holds : Holds cfg d (msgs.map List.length)
  reserved_eq : ∀ i, d.reserved i = 0
  bytes_eq : ∀ p ∈ (places cfg.size (d.rd d.index)
    ((msgs.map List.length).map ROUNDUP32)).zip msgs,
      bytesAt m (cfg.base + p.1) p.2.length = p.2

theorem stored_init (cfg : KshmCfg) (m : Mem) : Stored cfg .init m [] where
  holds := holds_init cfg
  reserved_eq := fun _ => rfl
  bytes_eq := by intro p hp; cases hp

variable {cfg : KshmCfg} {d : KshmDesc} {m : Mem} {msgs : List (List UInt8)}

theorem Stored.congr {d' : KshmDesc} (h : Stored cfg d m msgs) (hindex : d'.index = d.index)
    (hrd : d'.rd = d.rd) (hwt : d'.wt = d.wt) (hreserved : d'.reserved = d.reserved) :
    Stored cfg d' m msgs where
  holds := h.holds.congr (by rw [hrd, hindex]) (by rw [hwt, hindex])
  reserved_eq := by rw [hreserved]; exact h.reserved_eq
  bytes_eq := by rw [hrd, hindex]; exact h.bytes_eq

/-- An empty ring does not depend on the memory. -/
theorem Stored.nil_mem (h : Stored cfg d m []) (m' : Mem) : Stored cfg d m' [] where
  holds := h.holds
  reserved_eq := h.reserved_eq
  bytes_eq := by intro p hp; cases hp

/-- A message in memory occupies live cells only. -/
theorem Stored.live_of_mem (h : Stored cfg d m msgs) {p : Nat × List UInt8}
    (hp : p ∈ (places cfg.size (d.rd d.index) ((msgs.map List.length).map ROUNDUP32)).zip msgs)
    {c : Nat} (hc : p.1 ≤ c) (hc' : c < p.1 + p.2.length) :
    Live cfg.size (d.rd d.index) (d.wt d.index) c := by
  have hmsg : p.2 ∈ msgs := (List.of_mem_zip hp).2
  obtain ⟨-, hmax, -⟩ := h.holds.size_le p.2.length (List.mem_map_of_mem hmsg)
  have hlen := le_ROUNDUP32 hmax
  have hmem : (p.1, ROUNDUP32 p.2.length) ∈
      (places cfg.size (d.rd d.index) ((msgs.map List.length).map ROUNDUP32)).zip
        ((msgs.map List.length).map ROUNDUP32) := by
    have hmap := List.mem_map_of_mem (f := Prod.map id fun msg => ROUNDUP32 msg.length) hp
    rw [← List.zip_map_right] at hmap
    simpa [List.map_map, Function.comp_def, Prod.map] using hmap
  exact h.holds.layout.live_of_mem hmem hc (by omega)

/-! ### Reads -/

/-- A read returns the oldest payload. -/
theorem Stored.read {msg : List UInt8} (h : Stored cfg d m (msg :: msgs)) :
    ∃ d', kshm_read cfg d m msg.length = (d', some msg) ∧ Stored cfg d' m msgs := by
  have hholds := h.holds
  rw [List.map_cons] at hholds
  obtain ⟨hn, -, hs⟩ := hholds.size_le msg.length List.mem_cons_self
  have hbytes : bytesAt m (cfg.base +
      place cfg.size (d.rd d.index) (ROUNDUP32 msg.length)) msg.length = msg :=
    h.bytes_eq (_, msg) List.mem_cons_self
  have hupdate := kshm_update_read_eq hholds.layout.rd_lt hs
  refine ⟨kshm_update_read cfg d msg.length, ?_, hholds.update_read, ?_, ?_⟩
  · unfold kshm_read
    rw [if_neg hn, hholds.request_read]
    dsimp only
    rw [hbytes]
  · rw [hupdate]
    exact h.reserved_eq
  · intro p hp
    rw [hupdate] at hp
    simp only [Function.update_self] at hp
    exact h.bytes_eq p (List.mem_cons_of_mem _ hp)

/-- A read from the empty ring fails. -/
theorem Stored.read_nil (h : Stored cfg d m []) {n : Nat} (hn : n ≠ 0)
    (hmax : n ≤ 2 ^ 32 - 32) : kshm_read cfg d m n = (d, none) := by
  have hrefused := h.holds.request_read_nil hn hmax
  unfold kshm_read
  rw [if_neg hn, hrefused]

/-! ### Writes -/

/-- Copying a payload into a free place and committing it appends it. -/
theorem Stored.push (h : Stored cfg d m msgs) {buf : List UInt8} {off : Nat}
    (hn : buf.length ≠ 0) (hmax : buf.length ≤ 2 ^ 32 - 32)
    (hfree : Free cfg.size (d.rd d.index) (d.wt d.index) (ROUNDUP32 buf.length) off) :
    Stored cfg (kshm_update_write cfg d buf.length) (memcpy m (cfg.base + off) buf)
      (msgs ++ [buf]) := by
  have hrd := h.holds.layout.rd_lt
  have hlen := le_ROUNDUP32 hmax
  have hs : ROUNDUP32 buf.length ≤ cfg.size :=
    Nat.le_trans (Nat.le_add_left _ _) (hfree.le_cap hrd)
  have hupdate := kshm_update_write_eq hn h.holds.layout.wt_lt hs
  have hplace : place cfg.size (d.wt d.index) (ROUNDUP32 buf.length) = off :=
    hfree.place_eq hrd
  constructor
  · rw [List.map_append]
    exact h.holds.update_write hn hmax hfree
  · rw [hupdate]
    exact h.reserved_eq
  · intro p hp
    rw [hupdate] at hp
    simp only [List.map_append, List.map_cons, List.map_nil] at hp
    rw [places_append, h.holds.layout.walk_eq, List.zip_append (by simp)] at hp
    obtain hold | hnew := List.mem_append.mp hp
    · -- the free place has no live cell, so the older messages are not overwritten
      have hsame := h.bytes_eq p hold
      rw [bytesAt_memcpy_of_disjoint]
      · exact hsame
      · rintro x hx hx' ⟨hd, hd'⟩
        have hlive := h.live_of_mem (c := x - cfg.base) hold (by omega) (by omega)
        exact hfree.not_live (by omega) (by omega) hlive
    · simp only [places, hplace, List.zip_cons_cons, List.zip_nil_left,
        List.mem_singleton] at hnew
      cases hnew
      exact bytesAt_memcpy_self m (cfg.base + off) buf

/-- The ring after a granted request: unless it was reset for a message as large as itself,
    the pointer is a free place. -/
structure Granted (cfg : KshmCfg) (d d' : KshmDesc) (m : Mem) (msgs : List (List UInt8))
    (n p : Nat) : Prop where
  stored : Stored cfg d' m msgs
  place : (¬ (ROUNDUP32 n = cfg.size ∧ d.rd d.index = d.wt d.index ∧ d.rd d.index ≠ 0) ∧
      ∃ off, p = cfg.base + off ∧
        Free cfg.size (d'.rd d'.index) (d'.wt d'.index) (ROUNDUP32 n) off) ∨
    (ROUNDUP32 n = cfg.size ∧ d.rd d.index = d.wt d.index ∧ d.rd d.index ≠ 0 ∧ msgs = [] ∧
      d'.wt d'.index = 0 ∧ d'.rd d'.index = 0)

/-- Resetting the empty ring leaves it empty. -/
theorem Stored.special_reset (h : Stored cfg d m []) :
    Stored cfg (kshm_special_reset d) m [] where
  holds := by
    have hrd := special_reset_rd d
    have hwt := special_reset_wt d
    exact (holds_init cfg).congr hrd hwt
  reserved_eq := by
    intro i
    show Function.update d.reserved (1 - d.index) 0 i = 0
    rw [Function.update_apply, h.reserved_eq i, ite_self]
  bytes_eq := by intro p hp; cases hp

/-- An empty ring that is not at its start is reset for a message as large as itself. -/
theorem room_of_full (h : Stored cfg d m msgs) (heq : d.rd d.index = d.wt d.index)
    (hne : d.rd d.index ≠ 0) : room cfg d cfg.size = .afterReset := by
  have hrd := h.holds.layout.rd_lt
  have hwt := h.holds.layout.wt_lt
  have hsize := cfg.size_le
  have hadd : add32 (d.reserved d.index) cfg.size = cfg.size := by
    rw [h.reserved_eq d.index, add32_of_lt (by omega), Nat.zero_add]
  have hareas := tailHead_eq hrd hwt
  rw [if_pos (Nat.le_of_eq heq)] at hareas
  unfold room
  rw [hareas]
  dsimp only
  rw [hadd, if_pos (by omega), if_pos heq, if_neg (Nat.lt_irrefl _)]

/-- A refused request leaves the descriptor alone, and was not made to an empty ring that
    could be reset for it. -/
theorem Stored.refused {d' : KshmDesc} {n : Nat} (h : Stored cfg d m msgs) (hn : n ≠ 0)
    (hreq : kshm_request_write cfg d n = (d', none)) :
    d' = d ∧ ¬ (ROUNDUP32 n = cfg.size ∧ d.rd d.index = d.wt d.index ∧
      d.rd d.index ≠ 0) := by
  refine ⟨request_write_refused hreq, ?_⟩
  rintro ⟨hfull, heq, hne⟩
  unfold kshm_request_write at hreq
  rw [if_neg hn] at hreq
  dsimp only at hreq
  rw [hfull, room_of_full h heq hne] at hreq
  cases hreq

/-- A granted request, whether it resets the ring or not. -/
theorem Stored.granted {d' : KshmDesc} {n p : Nat} (h : Stored cfg d m msgs)
    (hmax : n < 2 ^ 31) (hreq : kshm_request_write cfg d n = (d', some p)) :
    Granted cfg d d' m msgs n p := by
  have hrd := h.holds.layout.rd_lt
  have hwt := h.holds.layout.wt_lt
  by_cases hroom : room cfg d (ROUNDUP32 n) = .afterReset
  · have hs : ROUNDUP32 n < 2 ^ 32 := by
      rw [ROUNDUP32_eq (by omega)]
      omega
    obtain ⟨heq, hne, hle⟩ := room_afterReset hrd hwt (h.reserved_eq d.index) hs hroom
    have hnil : msgs = [] := List.map_eq_nil_iff.mp (h.holds.nil_of_eq heq)
    subst hnil
    unfold kshm_request_write at hreq
    split at hreq
    · cases hreq
    · dsimp only at hreq
      rw [hroom] at hreq
      cases hreq
      have hrd0 := special_reset_rd d
      have hwt0 := special_reset_wt d
      refine ⟨h.special_reset, ?_⟩
      by_cases hfull : ROUNDUP32 n = cfg.size
      · exact .inr ⟨hfull, heq, hne, rfl, hwt0, hrd0⟩
      · refine .inl ⟨fun hc => hfull hc.1, 0, rfl, ?_⟩
        rw [hrd0, hwt0]
        exact .behind (Nat.le_refl 0) (.inl (by omega))
  · obtain ⟨rfl, -, off, hp, hfree⟩ := request_write_spec hrd hwt hroom hreq
    refine ⟨h, .inl ⟨?_, off, hp, hfree⟩⟩
    rintro ⟨hfull, heq, hne⟩
    rw [hfull, heq] at hfree
    cases hfree with
    | behind hle hspace => omega
    | between hlt hspace => omega
    | start hle hover hspace => omega

/-- Committing a message as large as the ring leaves it empty. -/
theorem Stored.update_full {n : Nat} (h : Stored cfg d m []) (hn : n ≠ 0)
    (hfull : ROUNDUP32 n = cfg.size) (hwt0 : d.wt d.index = 0) (hrd0 : d.rd d.index = 0) :
    Stored cfg (kshm_update_write cfg d n) m [] := by
  have hupdate := kshm_update_write_eq hn h.holds.layout.wt_lt (Nat.le_of_eq hfull)
  have hnext : next cfg.size (d.wt d.index) (ROUNDUP32 n) = 0 := by
    rw [hwt0, hfull]
    exact next_of_eq (Nat.zero_add _)
  rw [hnext] at hupdate
  have hrd' : (kshm_update_write cfg d n).rd (kshm_update_write cfg d n).index = 0 := by
    rw [hupdate]
    exact hrd0
  have hwt' : (kshm_update_write cfg d n).wt (kshm_update_write cfg d n).index = 0 := by
    rw [hupdate]
    exact Function.update_self ..
  refine ⟨(holds_init cfg).congr hrd' hwt', ?_, ?_⟩
  · rw [hupdate]
    exact h.reserved_eq
  · intro p hp
    cases hp

/-- The part of `kshm_write` after the request: the copy and the commit. -/
theorem Granted.commit {d' : KshmDesc} {p : Nat} {buf : List UInt8}
    (h : Granted cfg d d' m msgs buf.length p) (hn : buf.length ≠ 0)
    (hmax : buf.length < 2 ^ 31) :
    (¬ (ROUNDUP32 buf.length = cfg.size ∧ d.rd d.index = d.wt d.index ∧
        d.rd d.index ≠ 0) ∧
      Stored cfg (kshm_update_write cfg d' buf.length) (memcpy m p buf) (msgs ++ [buf])) ∨
    ((ROUNDUP32 buf.length = cfg.size ∧ d.rd d.index = d.wt d.index ∧ d.rd d.index ≠ 0) ∧
      Stored cfg (kshm_update_write cfg d' buf.length) (memcpy m p buf) msgs) := by
  obtain ⟨hsize, off, rfl, hfree⟩ | ⟨hfull, heq, hne, rfl, hwt0, hrd0⟩ := h.place
  · exact .inl ⟨hsize, h.stored.push hn (by omega) hfree⟩
  · exact .inr ⟨⟨hfull, heq, hne⟩, (h.stored.update_full hn hfull hwt0 hrd0).nil_mem _⟩

section

variable {d' : KshmDesc} {buf : List UInt8} {xfer : Int} {p : Nat}

theorem kshm_write_refused (hn : buf.length ≠ 0)
    (hreq : kshm_request_write cfg d buf.length = (d', none)) :
    kshm_write cfg d m buf xfer = (d', m, false) := by
  simp [kshm_write, hn, hreq]

theorem kshm_write_memcpy (xfer : Int) (hn : buf.length ≠ 0)
    (hreq : kshm_request_write cfg d buf.length = (d', some p))
    (hcopy : buf.length < 512 ∨ cfg.dma_ch = -1) :
    kshm_write cfg d m buf xfer =
      (kshm_update_write cfg d' buf.length, memcpy m p buf, true) := by
  simp only [kshm_write, if_neg hn, hreq, if_pos hcopy]

theorem kshm_write_dma (hn : buf.length ≠ 0)
    (hreq : kshm_request_write cfg d buf.length = (d', some p))
    (hcopy : ¬ (buf.length < 512 ∨ cfg.dma_ch = -1)) (hxfer : xfer ≠ -1) :
    kshm_write cfg d m buf xfer =
      ({ kshm_update_write cfg { d' with
          dma_xfer_id := xfer, update_write_size := buf.length } buf.length with
        dma_xfer_id := -1 }, memcpy m p buf, true) := by
  simp only [kshm_write, if_neg hn, hreq, if_neg hcopy, if_pos hxfer]

/-- The copy failed, and success is returned all the same. -/
theorem kshm_write_dma_fails (hn : buf.length ≠ 0)
    (hreq : kshm_request_write cfg d buf.length = (d', some p))
    (hcopy : ¬ (buf.length < 512 ∨ cfg.dma_ch = -1)) :
    kshm_write cfg d m buf (-1) =
      ({ d' with dma_xfer_id := -1, update_write_size := buf.length }, m, true) := by
  simp only [kshm_write, if_neg hn, hreq, if_neg hcopy, ne_eq, not_true_eq_false, if_false]

/-- The bookkeeping of the transfer does not touch the ring. -/
theorem Stored.of_dma (hn : buf.length ≠ 0)
    (h : Stored cfg (kshm_update_write cfg d' buf.length) m msgs) :
    Stored cfg { kshm_update_write cfg { d' with
      dma_xfer_id := xfer, update_write_size := buf.length } buf.length with
        dma_xfer_id := -1 } m msgs := by
  unfold kshm_update_write at h ⊢
  rw [if_neg hn] at h ⊢
  exact h.congr rfl rfl rfl rfl

end

/-- A write fails and changes nothing, or it reports success and appends its payload if it
    keeps it. -/
theorem write_cases (h : Stored cfg d m msgs) (buf : Payload) (xfer : Int) :
    (∃ d' m', kshm_write cfg d m buf.bytes xfer = (d', m', false) ∧
      Keeps cfg d buf.bytes.length xfer ∧ Stored cfg d' m' msgs) ∨
    (∃ d' m', kshm_write cfg d m buf.bytes xfer = (d', m', true) ∧
      Keeps cfg d buf.bytes.length xfer ∧ Stored cfg d' m' (msgs ++ [buf.bytes])) ∨
    (∃ d' m', kshm_write cfg d m buf.bytes xfer = (d', m', true) ∧
      ¬ Keeps cfg d buf.bytes.length xfer ∧ buf.bytes.length ≠ 0 ∧
        Stored cfg d' m' msgs) := by
  have hmax := buf.fits
  by_cases hn : buf.bytes.length = 0
  · -- nothing to write
    refine .inl ⟨d, m, ?_, ⟨.inl (by omega), ?_⟩, h⟩
    · unfold kshm_write
      rw [if_pos hn]
    · rintro ⟨hfull, -⟩
      have hsize := cfg.size_pos
      rw [hn] at hfull
      have : ROUNDUP32 0 = 0 := by decide
      omega
  · cases hreq : kshm_request_write cfg d buf.bytes.length with
    | mk d' ptr =>
      cases ptr with
      | none =>
        obtain ⟨rfl, hsize⟩ := h.refused hn hreq
        have hrefused : (kshm_request_write cfg d' buf.bytes.length).2 = none := by rw [hreq]
        exact .inl ⟨d', m, kshm_write_refused hn hreq,
          ⟨.inr (.inr (.inr hrefused)), hsize⟩, h⟩
      | some p =>
        have hgranted := h.granted hmax hreq
        have hcommit := hgranted.commit hn hmax
        by_cases hcopy : buf.bytes.length < 512 ∨ cfg.dma_ch = -1
        · -- the payload is copied by the processor
          have hwrite := kshm_write_memcpy (m := m) xfer hn hreq hcopy
          obtain ⟨hsize, hstored⟩ | ⟨hfull, hstored⟩ := hcommit
          · have hdma : buf.bytes.length < 512 ∨ cfg.dma_ch = -1 ∨ xfer ≠ -1 ∨
                (kshm_request_write cfg d buf.bytes.length).2 = none :=
              hcopy.imp_right .inl
            exact .inr (.inl ⟨_, _, hwrite, ⟨hdma, hsize⟩, hstored⟩)
          · exact .inr (.inr ⟨_, _, hwrite, fun hk => hk.2 hfull, hn, hstored⟩)
        · by_cases hxfer : xfer = -1
          · subst hxfer
            have hwrite := kshm_write_dma_fails (m := m) hn hreq hcopy
            refine .inr (.inr ⟨_, _, hwrite, ?_, hn, hgranted.stored.congr rfl rfl rfl rfl⟩)
            rintro ⟨hshort | hch | hok | hrefused, -⟩
            · exact hcopy (.inl hshort)
            · exact hcopy (.inr hch)
            · exact hok rfl
            · rw [hreq] at hrefused
              cases hrefused
          · have hwrite := kshm_write_dma (m := m) hn hreq hcopy hxfer
            obtain ⟨hsize, hstored⟩ | ⟨hfull, hstored⟩ := hcommit
            · exact .inr (.inl ⟨_, _, hwrite, ⟨.inr (.inr (.inl hxfer)), hsize⟩,
                hstored.of_dma hn⟩)
            · exact .inr (.inr ⟨_, _, hwrite, fun hk => hk.2 hfull, hn, hstored.of_dma hn⟩)

/-! ### Runs -/

/-- What was read is the beginning of what was written, and the ring holds the rest. -/
def FifoInv (cfg : KshmCfg) (s : Fifo) : Prop :=
  s.written = s.got ++ s.unread ∧ Stored cfg s.desc s.mem s.unread

theorem fifoInv_init (cfg : KshmCfg) (m : Mem) : FifoInv cfg (.init m) :=
  ⟨rfl, stored_init cfg m⟩

theorem unread_eq {s : Fifo} {u : List (List UInt8)} (h : s.written = s.got ++ u) :
    s.unread = u := by
  unfold Fifo.unread
  rw [h, List.drop_left]

/-- Reading the messages in the ring returns their payloads. -/
theorem run_reads {cfg : KshmCfg} {u lost : List (List UInt8)} {s : Fifo}
    (hwritten : s.written = s.got ++ (u ++ lost)) (hstored : Stored cfg s.desc s.mem u) :
    ∃ t, Lts.run (fifoStep cfg) s (List.replicate u.length .read) = some t ∧
      t.got = s.got ++ u ∧ t.written = s.written ∧ Stored cfg t.desc t.mem [] := by
  induction u generalizing s with
  | nil => exact ⟨s, rfl, (List.append_nil _).symm, rfl, hstored⟩
  | cons msg u ih =>
    obtain ⟨d', hread, hstored'⟩ := hstored.read
    have hunread := unread_eq hwritten
    have hstep : fifoStep cfg s .read =
        some { s with desc := d', got := s.got ++ [msg] } := by
      simp only [fifoStep, hunread, List.cons_append, hread]
    obtain ⟨t, hrun, hgot, hwritten', hnil⟩ := ih
      (s := { s with desc := d', got := s.got ++ [msg] })
      (by rw [hwritten]; simp) hstored'
    refine ⟨t, (Lts.run_cons_some _).mpr ⟨_, hstep, hrun⟩, ?_, hwritten', hnil⟩
    rw [hgot, List.append_assoc]
    rfl

theorem FifoInv.delivers {cfg : KshmCfg} {s : Fifo} (h : FifoInv cfg s) : Delivers cfg s := by
  obtain ⟨hwritten, hstored⟩ := h
  have hnothing : s.written = s.got ++ (s.unread ++ []) := by
    rw [List.append_nil]
    exact hwritten
  obtain ⟨t, hrun, hgot, -⟩ := run_reads hnothing hstored
  exact ⟨t, hrun, by rw [hgot, ← hwritten]⟩

/-- A message that is not in the ring is not delivered. -/
theorem not_delivers {cfg : KshmCfg} {s : Fifo} {u : List (List UInt8)} {lost : List UInt8}
    (hwritten : s.written = s.got ++ (u ++ [lost])) (hstored : Stored cfg s.desc s.mem u)
    (hn : lost.length ≠ 0) (hmax : lost.length ≤ 2 ^ 32 - 32) : ¬ Delivers cfg s := by
  rintro ⟨t, hrun, hgot⟩
  obtain ⟨t', hrun', hgot', hwritten', hnil⟩ := run_reads hwritten hstored
  have hunread : t'.unread = [lost] := by
    apply unread_eq
    rw [hwritten', hwritten, hgot', List.append_assoc]
  -- the last read finds the ring empty
  have hlast : fifoStep cfg t' .read = some t' := by
    simp only [fifoStep, hunread, hnil.read_nil hn hmax]
  have hlen : s.unread.length = u.length + 1 := by
    rw [unread_eq hwritten]
    simp
  have hall : Lts.run (fifoStep cfg) s (List.replicate s.unread.length .read) = some t' := by
    rw [hlen, List.replicate_succ', Lts.run_concat_some]
    exact ⟨t', hrun', hlast⟩
  rw [hall] at hrun
  cases hrun
  rw [hgot', hwritten] at hgot
  have := congrArg List.length hgot
  simp at this

theorem fifoInv_step (cfg : KshmCfg) (s : Fifo) (a : FifoAction) (s' : Fifo)
    (h : FifoInv cfg s) (hkeeps : KeepsPayload cfg s a) (hstep : fifoStep cfg s a = some s') :
    FifoInv cfg s' := by
  obtain ⟨hwritten, hstored⟩ := h
  cases a with
  | write buf xfer =>
    simp only [fifoStep] at hstep
    obtain ⟨d, m, hw, -, hs⟩ | ⟨d, m, hw, -, hs⟩ | ⟨d, m, hw, hlost, -⟩ :=
      write_cases hstored buf xfer
    · rw [hw] at hstep
      cases hstep
      exact ⟨hwritten, hs⟩
    · rw [hw] at hstep
      cases hstep
      have happend : s.written ++ [buf.bytes] = s.got ++ (s.unread ++ [buf.bytes]) := by
        rw [← List.append_assoc, ← hwritten]
      have hunread : Fifo.unread
          { s with desc := d, mem := m, written := s.written ++ [buf.bytes] } =
          s.unread ++ [buf.bytes] := unread_eq happend
      unfold FifoInv
      rw [if_pos rfl, hunread]
      exact ⟨happend, hs⟩
    · exact absurd hkeeps hlost
  | read =>
    simp only [fifoStep] at hstep
    split at hstep
    · cases hstep
    · rename_i msg rest hunread
      rw [hunread] at hwritten hstored
      obtain ⟨d', hread, hs⟩ := hstored.read
      rw [hread] at hstep
      cases hstep
      have hshift : s.written = (s.got ++ [msg]) ++ rest := by
        rw [hwritten, List.append_assoc]
        rfl
      have hunread' : Fifo.unread { s with desc := d', got := s.got ++ [msg] } = rest :=
        unread_eq hshift
      unfold FifoInv
      rw [hunread']
      exact ⟨hshift, hs⟩

theorem not_delivers_of_not_keeps {cfg : KshmCfg} {s : Fifo} {a : FifoAction}
    (h : FifoInv cfg s) (hloses : ¬ KeepsPayload cfg s a) :
    ∃ s', fifoStep cfg s a = some s' ∧ ¬ Delivers cfg s' := by
  obtain ⟨hwritten, hstored⟩ := h
  cases a with
  | write buf xfer =>
    have hmax := buf.fits
    obtain ⟨d, m, -, hk, -⟩ | ⟨d, m, -, hk, -⟩ | ⟨d, m, hw, -, hn, hs⟩ :=
      write_cases hstored buf xfer
    · exact absurd hk hloses
    · exact absurd hk hloses
    · have hstep : fifoStep cfg s (.write buf xfer) =
          some { s with desc := d, mem := m, written := s.written ++ [buf.bytes] } := by
        simp only [fifoStep, hw, if_true]
      have happend : s.written ++ [buf.bytes] = s.got ++ (s.unread ++ [buf.bytes]) := by
        rw [← List.append_assoc, ← hwritten]
      exact ⟨_, hstep, not_delivers happend hs hn (by omega)⟩
  | read => exact absurd trivial hloses

/-- The ring delivers in every state of a run exactly when every write keeps its payload. -/
theorem always_delivers_iff (cfg : KshmCfg) (m : Mem) (tr : List FifoAction) :
    Lts.Always (fifoStep cfg) (Delivers cfg) (.init m) tr ↔
      Lts.Meets (fifoStep cfg) (KeepsPayload cfg) (.init m) tr :=
  Lts.always_iff_meets (fifoStep cfg) (fun _ h => h.delivers) (fifoInv_step cfg)
    (fun _ _ h hloses => not_delivers_of_not_keeps h hloses) (fifoInv_init cfg m)

/-- A ring of 1 KiB with a DMA channel. -/
def dmaRing : KshmCfg where
  base := 2 ^ 31
  size := 1024
  dma_ch := 0
  size_pos := by decide
  size_aligned := by decide
  base_kernel := kernel_start
  base_end := by decide

/-- The write of 512 bytes whose `dma_copy` fails returns its size. -/
theorem delivers_fails :
    ¬ Lts.Always (fifoStep dmaRing) (Delivers dmaRing) (.init fun _ => 0)
      [.write ⟨List.replicate 512 7, by rw [List.length_replicate]; decide⟩ (-1)] := by
  intro h
  have hloses : ¬ KeepsPayload dmaRing (.init fun _ => 0)
      (.write ⟨List.replicate 512 7, by rw [List.length_replicate]; decide⟩ (-1)) := by
    rintro ⟨hshort | hch | hok | hrefused, -⟩
    · rw [List.length_replicate] at hshort
      omega
    · cases hch
    · exact hok rfl
    · rw [List.length_replicate] at hrefused
      cases hrefused
  obtain ⟨s', hstep, hnot⟩ := not_delivers_of_not_keeps (fifoInv_init dmaRing _) hloses
  exact hnot (h.2 s' hstep)

end Hcrtos.Native.Kshm
