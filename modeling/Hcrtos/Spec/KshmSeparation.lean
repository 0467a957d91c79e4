import Hcrtos.ForStd.Lts
import Hcrtos.Spec.KshmLayout

/-!
# Producer and consumer of a message ring are separated

One producer requests a region, fills it and commits it; one consumer requests the oldest
message, uses it and gives it back. Each call is one step, and the two interleave freely.

## Key results

- `always_separated_iff`: the region of the producer stays inside the buffer and overlaps
  nothing in use exactly in the runs whose granted requests do not wrap around when rounded
- `separated_fails`: a request of nearly `2 ^ 32` bytes is granted
-/

namespace Hcrtos.Native.Kshm

open Word MessageRing

/-- A region of memory: its first address and its length. -/
structure Region where
  ptr : Nat
  len : Nat

def Region.Mem (x : Nat) (r : Region) : Prop := r.ptr ≤ x ∧ x < r.ptr + r.len

/-- The ring, the region handed to the producer, the committed unread messages, oldest first,
    and the region handed to the consumer. -/
structure Pipe where
  desc : KshmDesc
  filling : Option Region
  unread : List Region
  reading : Option Region

def Pipe.init : Pipe := ⟨.init, none, [], none⟩

inductive PipeAction where
  | requestWrite (size : UInt32)
  | updateWrite
  | requestRead
  | updateRead
  | updateReserved (size : UInt32)

/-- One call. A request that would reset the ring is not taken. -/
def pipeStep (cfg : KshmCfg) (s : Pipe) : PipeAction → Option Pipe
  | .requestWrite size =>
    if s.filling ≠ none ∨
        (size.toNat ≠ 0 ∧ room cfg s.desc (ROUNDUP32 size.toNat) = .afterReset) then none
    else
      match kshm_request_write cfg s.desc size.toNat with
      | (_, none) => some s
      | (d, some p) => some { s with desc := d, filling := some ⟨p, size.toNat⟩ }
  | .updateWrite =>
    match s.filling with
    | none => none
    | some r =>
      some { s with
        desc := kshm_update_write cfg s.desc r.len
        filling := none
        unread := s.unread ++ [r] }
  | .requestRead =>
    match s.reading, s.unread with
    | none, r :: _ =>
      match kshm_request_read cfg s.desc r.len with
      | none => some s
      | some p => some { s with reading := some ⟨p, r.len⟩ }
    | _, _ => none
  | .updateRead =>
    match s.reading with
    | none => none
    | some r =>
      some { s with
        desc := kshm_update_read cfg s.desc r.len
        unread := s.unread.tail
        reading := none }
  | .updateReserved size => some { s with desc := kshm_update_reserved s.desc size.toNat }

/-- The indices are aligned and inside the buffer, and so is the region handed to the
    producer, which overlaps neither an unread message nor the region handed to the
    consumer. -/
structure Separated (cfg : KshmCfg) (s : Pipe) : Prop where
  rd_aligned : s.desc.rd s.desc.index % 32 = 0
  rd_lt : s.desc.rd s.desc.index < cfg.size
  wt_aligned : s.desc.wt s.desc.index % 32 = 0
  wt_lt : s.desc.wt s.desc.index < cfg.size
  inside : ∀ r, s.filling = some r → cfg.base ≤ r.ptr ∧ r.ptr + r.len ≤ cfg.base + cfg.size
  unread : ∀ r, s.filling = some r → ∀ q ∈ s.unread, ∀ x, r.Mem x → ¬ q.Mem x
  reading : ∀ r, s.filling = some r → ∀ q, s.reading = some q → ∀ x, r.Mem x → ¬ q.Mem x

/-- A granted request does not wrap around when it is rounded up; one that is too large for
    the reserved size is refused before that matters. -/
def DoesNotWrap (cfg : KshmCfg) (s : Pipe) : PipeAction → Prop
  | .requestWrite size =>
    s.filling = none → size.toNat ≤ 2 ^ 32 - 32 ∨
      ((tailHead cfg s.desc).1 < s.desc.reserved s.desc.index ∧
        (tailHead cfg s.desc).2 < s.desc.reserved s.desc.index)
  | _ => True

/-- The invariant: the regions are where the layout of the ring says. -/
structure PipeInv (cfg : KshmCfg) (s : Pipe) : Prop where
  holds : Holds cfg s.desc (s.unread.map Region.len)
  reserved_lt : ∀ i, s.desc.reserved i < 2 ^ 32
  ptrs : s.unread.map Region.ptr =
    (places cfg.size (s.desc.rd s.desc.index)
      ((s.unread.map Region.len).map ROUNDUP32)).map (cfg.base + ·)
  filling : ∀ r, s.filling = some r → r.len ≠ 0 ∧ r.len ≤ 2 ^ 32 - 32 ∧
    ∃ off, r.ptr = cfg.base + off ∧
      Free cfg.size (s.desc.rd s.desc.index) (s.desc.wt s.desc.index) (ROUNDUP32 r.len) off
  reading : ∀ q, s.reading = some q → ∃ rest, s.unread = q :: rest

theorem pipeInv_init (cfg : KshmCfg) : PipeInv cfg .init where
  holds := holds_init cfg
  reserved_lt := by intro i; exact Nat.two_pow_pos 32
  ptrs := rfl
  filling := by intro r h; cases h
  reading := by intro q h; cases h

/-! ### The invariant separates -/

/-- An unread message stands at its place in the layout. -/
theorem PipeInv.place_of_mem {cfg : KshmCfg} {s : Pipe} (h : PipeInv cfg s) {q : Region}
    (hq : q ∈ s.unread) :
    ∃ off, q.ptr = cfg.base + off ∧
      (off, ROUNDUP32 q.len) ∈ (places cfg.size (s.desc.rd s.desc.index)
        ((s.unread.map Region.len).map ROUNDUP32)).zip
          ((s.unread.map Region.len).map ROUNDUP32) := by
  obtain ⟨i, hi, rfl⟩ := List.mem_iff_getElem.mp hq
  have hptr : (s.unread.map Region.ptr)[i]? = some s.unread[i].ptr := by
    rw [List.getElem?_map, List.getElem?_eq_getElem hi, Option.map_some]
  rw [h.ptrs, List.getElem?_map, Option.map_eq_some_iff] at hptr
  obtain ⟨off, hoff, hbase⟩ := hptr
  refine ⟨off, hbase.symm, List.mem_of_getElem? (i := i) ?_⟩
  rw [List.getElem?_zip_eq_some]
  refine ⟨hoff, ?_⟩
  simp [hi]

/-- A cell of an unread message is live. -/
theorem PipeInv.live_of_mem {cfg : KshmCfg} {s : Pipe} (h : PipeInv cfg s) {q : Region}
    (hq : q ∈ s.unread) {x : Nat} (hx : q.Mem x) :
    ∃ c, x = cfg.base + c ∧
      Live cfg.size (s.desc.rd s.desc.index) (s.desc.wt s.desc.index) c := by
  obtain ⟨off, hptr, hmem⟩ := h.place_of_mem hq
  obtain ⟨-, hmax, -⟩ := h.holds.size_le q.len (List.mem_map_of_mem hq)
  have hlen := le_ROUNDUP32 hmax
  obtain ⟨hle, hlt⟩ := hx
  refine ⟨x - cfg.base, by omega, ?_⟩
  exact h.holds.layout.live_of_mem hmem (by omega) (by omega)

/-- The region handed to the producer overlaps no unread message. -/
theorem PipeInv.disjoint {cfg : KshmCfg} {s : Pipe} (h : PipeInv cfg s) {r q : Region}
    (hr : s.filling = some r) (hq : q ∈ s.unread) {x : Nat} (hx : r.Mem x) : ¬ q.Mem x := by
  intro hxq
  obtain ⟨c, rfl, hlive⟩ := h.live_of_mem hq hxq
  obtain ⟨-, hmax, off, hptr, hfree⟩ := h.filling r hr
  have hlen := le_ROUNDUP32 hmax
  obtain ⟨hle, hlt⟩ := hx
  exact hfree.not_live (by omega) (by omega) hlive

theorem PipeInv.separated {cfg : KshmCfg} {s : Pipe} (h : PipeInv cfg s) :
    Separated cfg s where
  rd_aligned := h.holds.rd_aligned
  rd_lt := h.holds.layout.rd_lt
  wt_aligned := h.holds.wt_aligned
  wt_lt := h.holds.layout.wt_lt
  inside := by
    intro r hr
    obtain ⟨-, hmax, off, hptr, hfree⟩ := h.filling r hr
    have hlen := le_ROUNDUP32 hmax
    have hcap := hfree.le_cap h.holds.layout.rd_lt
    omega
  unread := fun r hr q hq x hx => h.disjoint hr hq hx
  reading := by
    intro r hr q hq x hx
    obtain ⟨rest, hrest⟩ := h.reading q hq
    have hmem : q ∈ s.unread := by
      rw [hrest]
      exact List.mem_cons_self
    exact h.disjoint hr hmem hx

/-! ### One step -/

/-- Above the reserved size, a request that wraps around is refused. -/
theorem room_of_wrap {cfg : KshmCfg} {d : KshmDesc} (hres : ∀ i, d.reserved i < 2 ^ 32) :
    room cfg d 0 = .enough ↔ ¬ ((tailHead cfg d).1 < d.reserved d.index ∧
      (tailHead cfg d).2 < d.reserved d.index) := by
  have hadd : add32 (d.reserved d.index) 0 = d.reserved d.index := by
    rw [add32_of_lt (hres d.index), Nat.add_zero]
  unfold room
  dsimp only
  rw [hadd]
  by_cases hsmall : (tailHead cfg d).2 < d.reserved d.index ∧
      (tailHead cfg d).1 < d.reserved d.index
  · rw [if_pos hsmall]
    have hnot : ¬ ¬ ((tailHead cfg d).1 < d.reserved d.index ∧
        (tailHead cfg d).2 < d.reserved d.index) := fun h => h hsmall.symm
    split
    · split <;> simp [hsmall]
    · simp [hsmall]
  · rw [if_neg hsmall]
    simp only [true_iff]
    exact fun h => hsmall h.symm

theorem PipeInv.requestWrite {cfg : KshmCfg} {s s' : Pipe} {size : UInt32}
    (h : PipeInv cfg s) (hfits : DoesNotWrap cfg s (.requestWrite size))
    (hstep : pipeStep cfg s (.requestWrite size) = some s') : PipeInv cfg s' := by
  simp only [pipeStep] at hstep
  split at hstep
  · cases hstep
  · rename_i hguard
    push Not at hguard
    obtain ⟨hnone, hroom⟩ := hguard
    split at hstep
    · cases hstep
      exact h
    · rename_i d p hreq
      cases hstep
      have hsize : size.toNat ≠ 0 := by
        intro hzero
        rw [kshm_request_write, if_pos hzero] at hreq
        cases hreq
      obtain ⟨rfl, -, off, hp, hfree⟩ := request_write_spec h.holds.layout.rd_lt
        h.holds.layout.wt_lt (hroom hsize) hreq
      have hmax : size.toNat ≤ 2 ^ 32 - 32 := by
        obtain hmax | hreserved := hfits hnone
        · exact hmax
        · -- the request was granted, so it was not refused for the reserved size
          by_contra hwrap
          have hzero := ROUNDUP32_of_wrap (by omega) size.toNat_lt
          have hne : room cfg s.desc 0 ≠ .enough := fun he =>
            (room_of_wrap h.reserved_lt).mp he hreserved
          have hroom' := hroom hsize
          rw [hzero] at hroom'
          rw [kshm_request_write, if_neg hsize] at hreq
          dsimp only at hreq
          rw [hzero] at hreq
          cases hr : room cfg s.desc 0 with
          | enough => exact hne hr
          | afterReset => exact hroom' hr
          | none => simp [hr] at hreq
      refine ⟨h.holds, h.reserved_lt, h.ptrs, ?_, h.reading⟩
      intro r hr
      cases hr
      exact ⟨hsize, hmax, off, hp, hfree⟩

/-- The commit of a region appends it to the unread messages. -/
theorem PipeInv.updateWrite {cfg : KshmCfg} {s s' : Pipe} (h : PipeInv cfg s)
    (hstep : pipeStep cfg s .updateWrite = some s') : PipeInv cfg s' := by
  simp only [pipeStep] at hstep
  split at hstep
  · cases hstep
  · rename_i r hr
    cases hstep
    obtain ⟨hn, hmax, off, hptr, hfree⟩ := h.filling r hr
    have hrd := h.holds.layout.rd_lt
    have hs : ROUNDUP32 r.len ≤ cfg.size :=
      Nat.le_trans (Nat.le_add_left _ _) (hfree.le_cap hrd)
    have hupdate := kshm_update_write_eq hn h.holds.layout.wt_lt hs
    have hholds := h.holds.update_write hn hmax hfree
    constructor
    · show Holds cfg _ ((s.unread ++ [r]).map Region.len)
      rw [List.map_append]
      exact hholds
    · show ∀ i, (kshm_update_write cfg s.desc r.len).reserved i < 2 ^ 32
      rw [hupdate]
      exact h.reserved_lt
    · -- the reader will look for the new message where the producer put it
      have hplace : place cfg.size (s.desc.wt s.desc.index) (ROUNDUP32 r.len) = off :=
        hfree.place_eq hrd
      show (s.unread ++ [r]).map Region.ptr = (places cfg.size
        ((kshm_update_write cfg s.desc r.len).rd (kshm_update_write cfg s.desc r.len).index)
        (((s.unread ++ [r]).map Region.len).map ROUNDUP32)).map (cfg.base + ·)
      rw [hupdate]
      simp only [List.map_append, List.map_cons, List.map_nil]
      rw [places_append, h.holds.layout.walk_eq, List.map_append, ← h.ptrs]
      simp only [places, List.map_cons, List.map_nil, hplace, hptr]
    · intro r' hr'
      cases hr'
    · intro q hq
      obtain ⟨rest, hrest⟩ := h.reading q hq
      refine ⟨rest ++ [r], ?_⟩
      show s.unread ++ [r] = _
      rw [hrest, List.cons_append]

/-- The consumer is handed the oldest message. -/
theorem PipeInv.requestRead {cfg : KshmCfg} {s s' : Pipe} (h : PipeInv cfg s)
    (hstep : pipeStep cfg s .requestRead = some s') : PipeInv cfg s' := by
  simp only [pipeStep] at hstep
  split at hstep
  · rename_i r rest hreading hunread
    have hholds := h.holds
    rw [hunread, List.map_cons] at hholds
    rw [hholds.request_read] at hstep
    cases hstep
    refine ⟨h.holds, h.reserved_lt, h.ptrs, h.filling, ?_⟩
    intro q hq
    cases hq
    have hptrs := h.ptrs
    rw [hunread] at hptrs
    have hptr : r.ptr = cfg.base +
        place cfg.size (s.desc.rd s.desc.index) (ROUNDUP32 r.len) := (List.cons.inj hptrs).1
    refine ⟨rest, ?_⟩
    rw [← hptr]
    exact hunread
  · cases hstep

/-- Giving the oldest message back makes room, and keeps the producer's region free. -/
theorem PipeInv.updateRead {cfg : KshmCfg} {s s' : Pipe} (h : PipeInv cfg s)
    (hstep : pipeStep cfg s .updateRead = some s') : PipeInv cfg s' := by
  simp only [pipeStep] at hstep
  split at hstep
  · cases hstep
  · rename_i r hr
    cases hstep
    obtain ⟨rest, hrest⟩ := h.reading r hr
    have hholds := h.holds
    have hptrs := h.ptrs
    rw [hrest, List.map_cons] at hholds hptrs
    obtain ⟨-, -, hs⟩ := hholds.size_le r.len List.mem_cons_self
    have hupdate := kshm_update_read_eq hholds.layout.rd_lt hs
    constructor
    · show Holds cfg _ (s.unread.tail.map Region.len)
      rw [hrest]
      exact hholds.update_read
    · show ∀ i, (kshm_update_read cfg s.desc r.len).reserved i < 2 ^ 32
      rw [hupdate]
      exact h.reserved_lt
    · show s.unread.tail.map Region.ptr = (places cfg.size
        ((kshm_update_read cfg s.desc r.len).rd (kshm_update_read cfg s.desc r.len).index)
        ((s.unread.tail.map Region.len).map ROUNDUP32)).map (cfg.base + ·)
      rw [hupdate, hrest]
      simp only [Function.update_self]
      exact (List.cons.inj hptrs).2
    · intro p hp
      obtain ⟨hn, hmax, off, hptr, hfree⟩ := h.filling p hp
      refine ⟨hn, hmax, off, hptr, ?_⟩
      show Free cfg.size
        ((kshm_update_read cfg s.desc r.len).rd (kshm_update_read cfg s.desc r.len).index)
        ((kshm_update_read cfg s.desc r.len).wt (kshm_update_read cfg s.desc r.len).index) _ _
      rw [hupdate]
      simp only [Function.update_self]
      exact hfree.pop hholds.layout
    · intro q hq
      cases hq

theorem PipeInv.updateReserved {cfg : KshmCfg} {s : Pipe} (h : PipeInv cfg s)
    (size : UInt32) :
    PipeInv cfg { s with desc := kshm_update_reserved s.desc size.toNat } where
  holds := h.holds.congr rfl rfl
  reserved_lt := by
    intro i
    show Function.update s.desc.reserved s.desc.index (ROUNDUP32 size.toNat) i < 2 ^ 32
    rw [Function.update_apply]
    split
    · have := add32_lt size.toNat 31
      unfold ROUNDUP32
      omega
    · exact h.reserved_lt i
  ptrs := h.ptrs
  filling := h.filling
  reading := h.reading

theorem pipeInv_step (cfg : KshmCfg) (s : Pipe) (a : PipeAction) (s' : Pipe)
    (h : PipeInv cfg s) (hfits : DoesNotWrap cfg s a) (hstep : pipeStep cfg s a = some s') :
    PipeInv cfg s' := by
  cases a with
  | requestWrite size => exact h.requestWrite hfits hstep
  | updateWrite => exact h.updateWrite hstep
  | requestRead => exact h.requestRead hstep
  | updateRead => exact h.updateRead hstep
  | updateReserved size =>
    cases hstep
    exact h.updateReserved size

/-- A request that wraps around is granted, and its region does not fit into the buffer. -/
theorem not_separated_of_wrap {cfg : KshmCfg} {s : Pipe} {a : PipeAction} (h : PipeInv cfg s)
    (hwrap : ¬ DoesNotWrap cfg s a) :
    ∃ s', pipeStep cfg s a = some s' ∧ ¬ Separated cfg s' := by
  cases a with
  | requestWrite size =>
    simp only [DoesNotWrap, Classical.not_imp, not_or] at hwrap
    obtain ⟨hnone, hlarge, hreserved⟩ := hwrap
    have hsize : size.toNat ≠ 0 := by omega
    have hzero : ROUNDUP32 size.toNat = 0 := ROUNDUP32_of_wrap (by omega) size.toNat_lt
    have hroom : room cfg s.desc 0 = .enough := (room_of_wrap h.reserved_lt).mpr hreserved
    have hrd := h.holds.layout.rd_lt
    have hwt := h.holds.layout.wt_lt
    have hbase := cfg.base_end
    have hcap := cfg.size_le
    have htail : (tailHead cfg s.desc).1 > 0 := by
      rw [tailHead_eq hrd hwt]
      split
      · show cfg.size - s.desc.wt s.desc.index > 0
        omega
      · show s.desc.rd s.desc.index - s.desc.wt s.desc.index > 0
        omega
    have hreq : kshm_request_write cfg s.desc size.toNat =
        (s.desc, some (cfg.base + s.desc.wt s.desc.index)) := by
      unfold kshm_request_write
      rw [if_neg hsize]
      dsimp only
      rw [hzero, hroom]
      dsimp only
      rw [if_pos htail, add32_of_lt (by omega)]
    have hstep : pipeStep cfg s (.requestWrite size) = some { s with
        filling := some ⟨cfg.base + s.desc.wt s.desc.index, size.toNat⟩ } := by
      simp only [pipeStep]
      rw [hreq, if_neg (by simp [hnone, hzero, hroom])]
    refine ⟨_, hstep, ?_⟩
    intro hsep
    have hinside := (hsep.inside _ rfl).2
    simp only at hinside
    omega
  | updateWrite => exact absurd trivial hwrap
  | requestRead => exact absurd trivial hwrap
  | updateRead => exact absurd trivial hwrap
  | updateReserved size => exact absurd trivial hwrap

/-- Producer and consumer are separated in every state of a run exactly when no granted
    request wraps around. -/
theorem always_separated_iff (cfg : KshmCfg) (tr : List PipeAction) :
    Lts.Always (pipeStep cfg) (Separated cfg) .init tr ↔
      Lts.Meets (pipeStep cfg) (DoesNotWrap cfg) .init tr :=
  Lts.always_iff_meets (pipeStep cfg) (fun _ h => h.separated) (pipeInv_step cfg)
    (fun _ _ h hwrap => not_separated_of_wrap h hwrap) (pipeInv_init cfg)

/-- A request for `2 ^ 32 - 1` bytes on a ring of 64 bytes is granted. -/
theorem separated_fails :
    ¬ Lts.Always (pipeStep twoLines) (Separated twoLines) .init
      [.requestWrite 0xFFFFFFFF] := by
  intro h
  have hgranted : pipeStep twoLines .init (.requestWrite 0xFFFFFFFF) =
      some { Pipe.init with filling := some ⟨2 ^ 31, 2 ^ 32 - 1⟩ } := by rfl
  have hsep : Separated twoLines { Pipe.init with filling := some ⟨2 ^ 31, 2 ^ 32 - 1⟩ } :=
    h.2 _ hgranted
  have hinside := (hsep.inside _ rfl).2
  exact absurd hinside (by decide)

end Hcrtos.Native.Kshm
