import Mathlib.Data.List.Forall2
import Hcrtos.ForStd.Mealy
import Hcrtos.Native.IrNec

/-!
# Messages of a NEC remote control

What a remote control sends, as a list of messages, and the waveforms of a message: the durations
are multiples of a unit, each within its tolerance.

## Key results

- `decode_session`: the decoder makes the call of each message of a session, and no other
-/

namespace Hcrtos.Native.Rc.Nec

open Mealy

/-! ### Waveforms -/

/-- The parts of a message. -/
inductive Sym where
  /-- The first pulse; the short one is that of the variant. -/
  | header (short : Bool)
  | space
  | repeatSpace
  | mark
  /-- The space behind the mark of a bit. -/
  | bit (b : Bool)
  /-- The space behind a message. -/
  | gap

namespace Sym

def isPulse : Sym → Bool
  | .header _ | .mark => true
  | .space | .repeatSpace | .bit _ | .gap => false

/-- Microseconds. -/
def nominal : Sym → Nat
  | .header false => 16 * 563
  | .header true | .space => 8 * 563
  | .repeatSpace => 4 * 563
  | .bit true => 3 * 563
  | .mark | .bit false => 563
  | .gap => 10 * 563

def tolerance : Sym → Nat
  | .header false => 2 * 563
  | .space => 563
  | .header true | .repeatSpace | .mark | .bit _ | .gap => 281

/-- A gap may be of any length. -/
def bounded : Sym → Bool
  | .gap => false
  | _ => true

end Sym

/-- The duration of the event is that of the part. -/
def Near (ev : RawEvent) (sym : Sym) : Prop :=
  sym.nominal < ev.duration.toNat + sym.tolerance ∧
    (sym.bounded = true → ev.duration.toNat < sym.nominal + sym.tolerance)

instance (ev : RawEvent) (sym : Sym) : Decidable (Near ev sym) :=
  inferInstanceAs (Decidable (_ ∧ (_ → _)))

/-- The event is the part of a message. -/
def Matches (sym : Sym) (ev : RawEvent) : Prop :=
  ev.is_timing_event = true ∧ ev.pulse = sym.isPulse ∧ Near ev sym

instance (sym : Sym) (ev : RawEvent) : Decidable (Matches sym ev) :=
  inferInstanceAs (Decidable (_ ∧ _ ∧ _))

/-- The events are those parts, with reports on the carrier between them. -/
def Conforms (syms : List Sym) (evs : List RawEvent) : Prop :=
  (∀ ev ∈ evs, ev.reset = false) ∧
    List.Forall₂ Matches syms (evs.filter RawEvent.is_timing_event)

theorem conforms_one {sym : Sym} {ev : RawEvent} (h : Matches sym ev) : Conforms [sym] [ev] := by
  have ht := h.1
  simp only [RawEvent.is_timing_event, Bool.and_eq_true, Bool.not_eq_true'] at ht
  constructor
  · simpa using ht.2
  · rw [List.filter_cons_of_pos h.1]
    exact .cons h .nil

theorem Conforms.append {syms syms' : List Sym} {evs evs' : List RawEvent}
    (h : Conforms syms evs) (h' : Conforms syms' evs') :
    Conforms (syms ++ syms') (evs ++ evs') := by
  constructor
  · intro ev hev
    rcases List.mem_append.mp hev with hev | hev
    · exact h.1 ev hev
    · exact h'.1 ev hev
  · rw [List.filter_append]
    exact List.rel_append h.2 h'.2

/-- The event of a part that is as long as it is meant to be. -/
def Sym.exact (sym : Sym) : RawEvent :=
  { RawEvent.zero with pulse := sym.isPulse, duration := BitVec.ofNat 32 sym.nominal }

theorem matches_exact (sym : Sym) : Matches sym sym.exact := by
  cases sym with
  | header short => cases short <;> decide
  | bit b => cases b <;> decide
  | _ => decide

theorem conforms_exact (syms : List Sym) : Conforms syms (syms.map Sym.exact) := by
  induction syms with
  | nil => exact ⟨nofun, .nil⟩
  | cons sym syms ih => exact (conforms_one (matches_exact sym)).append ih

/-- What a remote control sends. -/
inductive Msg where
  /-- The 32 bits of a key, the lowest one first. -/
  | frame (short : Bool) (raw : BitVec 32)
  | rep (short : Bool)
  /-- The variant repeats a message with its first bit only. -/
  | repX (b : Bool)

/-- The bits of a word, the lowest one first. -/
def wireBits (raw : BitVec 32) : List Bool := (List.range 32).map raw.getLsbD

/-- The marks and spaces of some bits. -/
def bitSyms (bs : List Bool) : List Sym := bs.flatMap fun b => [.mark, .bit b]

namespace Msg

def syms : Msg → List Sym
  | .frame short raw => [.header short, .space] ++ bitSyms (wireBits raw) ++ [.mark, .gap]
  | .rep short => [.header short, .repeatSpace, .mark, .gap]
  | .repX b => [.header true, .space] ++ bitSyms [b] ++ [.mark, .gap]

/-- What the message means: address and command are sent with a byte behind each. -/
def call : Msg → Call
  | .frame _ raw =>
    let key := ir_nec_bytes_to_scancode (raw.setWidth 8) ((raw >>> 8).setWidth 8)
      ((raw >>> 16).setWidth 8) ((raw >>> 24).setWidth 8)
    .rc_keydown key.1 key.2 0
  | .rep _ | .repX _ => .rc_repeat

/-- Whether the variant's repeat may follow, after a message that came when it might or might
    not. -/
def arms : Msg → Bool → Bool
  | .frame short _, _ => short
  | .rep short, armed => short && armed
  | .repX _, armed => armed

/-- The repeat of the variant needs a message of the variant in front of it. -/
def Allowed : Msg → Bool → Prop
  | .repX _, armed => armed = true
  | _, _ => True

end Msg

/-- The messages of a session come one after the other, with any events between them that do not
    begin a message. -/
inductive Session : Bool → List Msg → List RawEvent → Prop where
  | nil (armed : Bool) : Session armed [] []
  | noise {armed : Bool} {ms : List Msg} {ev : RawEvent} {evs : List RawEvent}
      (hev : ∀ short, ¬ Matches (.header short) ev) (hrest : Session armed ms evs) :
      Session armed ms (ev :: evs)
  | cons {armed : Bool} {m : Msg} {ms : List Msg} {w evs : List RawEvent}
      (hallowed : m.Allowed armed) (hw : Conforms m.syms w) (hrest : Session (m.arms armed) ms evs) :
      Session armed (m :: ms) (w ++ evs)

/-! ### Steps -/

/-- A step of the decoder, with its call. -/
def step (data : Dec) (ev : RawEvent) : Dec × List Call :=
  ((ir_nec_decode data ev).1, (ir_nec_decode data ev).2.1.toList)

/-- The margins are those of the tolerances. -/
theorem eq_margin_iff {d1 d2 margin : BitVec 32} (hle : margin.toNat ≤ d2.toNat)
    (hlt : d2.toNat + margin.toNat < 2 ^ 32) :
    eq_margin d1 d2 margin = true ↔
      d2.toNat < d1.toNat + margin.toNat ∧ d1.toNat < d2.toNat + margin.toNat := by
  have hsub : (d2 - margin).toNat = d2.toNat - margin.toNat := BitVec.toNat_sub_of_le hle
  have hadd : (d2 + margin).toNat = d2.toNat + margin.toNat := by
    rw [BitVec.toNat_add, Nat.mod_eq_of_lt hlt]
  simp only [eq_margin, Bool.and_eq_true, decide_eq_true_eq, gt_iff_lt, BitVec.lt_def, hsub, hadd]
  omega

theorem geq_margin_iff {d1 d2 margin : BitVec 32} (hle : margin.toNat ≤ d2.toNat) :
    geq_margin d1 d2 margin = true ↔ d2.toNat < d1.toNat + margin.toNat := by
  have hsub : (d2 - margin).toNat = d2.toNat - margin.toNat := BitVec.toNat_sub_of_le hle
  simp only [geq_margin, decide_eq_true_eq, gt_iff_lt, BitVec.lt_def, hsub]
  omega

theorem near_of_bounded {ev : RawEvent} {sym : Sym} (h : sym.bounded = true) : Near ev sym ↔
    sym.nominal < ev.duration.toNat + sym.tolerance ∧
      ev.duration.toNat < sym.nominal + sym.tolerance := by
  simp [Near, h]

/-- The margins of a part with a bounded length. -/
theorem eq_margin_eq (ev : RawEvent) (sym : Sym) {d2 margin : BitVec 32} (hb : sym.bounded = true)
    (hnominal : d2.toNat = sym.nominal) (htolerance : margin.toNat = sym.tolerance)
    (hle : margin.toNat ≤ d2.toNat) (hlt : d2.toNat + margin.toNat < 2 ^ 32) :
    eq_margin ev.duration d2 margin = decide (Near ev sym) := by
  rw [Bool.eq_iff_iff, decide_eq_true_eq, eq_margin_iff hle hlt, near_of_bounded hb, hnominal,
    htolerance]

theorem eq_margin_header (ev : RawEvent) :
    eq_margin ev.duration HEADER_PULSE (UNIT * 2) = decide (Near ev (.header false)) :=
  eq_margin_eq ev (.header false) rfl (by decide) (by decide) (by decide) (by decide)

theorem eq_margin_header_short (ev : RawEvent) :
    eq_margin ev.duration X_HEADER_PULSE (UNIT / 2) = decide (Near ev (.header true)) :=
  eq_margin_eq ev (.header true) rfl (by decide) (by decide) (by decide) (by decide)

theorem eq_margin_space (ev : RawEvent) :
    eq_margin ev.duration HEADER_SPACE UNIT = decide (Near ev .space) :=
  eq_margin_eq ev .space rfl (by decide) (by decide) (by decide) (by decide)

theorem eq_margin_repeatSpace (ev : RawEvent) :
    eq_margin ev.duration REPEAT_SPACE (UNIT / 2) = decide (Near ev .repeatSpace) :=
  eq_margin_eq ev .repeatSpace rfl (by decide) (by decide) (by decide) (by decide)

theorem eq_margin_mark (ev : RawEvent) :
    eq_margin ev.duration BIT_PULSE (UNIT / 2) = decide (Near ev .mark) :=
  eq_margin_eq ev .mark rfl (by decide) (by decide) (by decide) (by decide)

theorem eq_margin_trailer (ev : RawEvent) :
    eq_margin ev.duration TRAILER_PULSE (UNIT / 2) = decide (Near ev .mark) :=
  eq_margin_eq ev .mark rfl (by decide) (by decide) (by decide) (by decide)

theorem eq_margin_bit_true (ev : RawEvent) :
    eq_margin ev.duration BIT_1_SPACE (UNIT / 2) = decide (Near ev (.bit true)) :=
  eq_margin_eq ev (.bit true) rfl (by decide) (by decide) (by decide) (by decide)

theorem eq_margin_bit_false (ev : RawEvent) :
    eq_margin ev.duration BIT_0_SPACE (UNIT / 2) = decide (Near ev (.bit false)) :=
  eq_margin_eq ev (.bit false) rfl (by decide) (by decide) (by decide) (by decide)

theorem geq_margin_gap (ev : RawEvent) :
    geq_margin ev.duration TRAILER_SPACE (UNIT / 2) = decide (Near ev .gap) := by
  rw [Bool.eq_iff_iff, decide_eq_true_eq, geq_margin_iff (by decide)]
  simp only [Near, Sym.bounded]
  exact ⟨fun h => ⟨h, nofun⟩, fun h => h.1⟩

theorem matches_iff {ev : RawEvent} (h : ev.is_timing_event = true) (sym : Sym) :
    Matches sym ev ↔ ev.pulse = sym.isPulse ∧ Near ev sym := by
  simp [Matches, h]

/-- The word after one more bit. -/
def shiftIn (bits : BitVec 32) (b : Bool) : BitVec 32 := bits <<< 1 ||| if b then 1 else 0

/-- The decoder after one more bit. -/
def Dec.withBit (data : Dec) (b : Bool) : Dec :=
  { data with
    state := if data.count + 1 = NBITS then .TRAILER_PULSE else .BIT_PULSE
    count := data.count + 1
    bits := shiftIn data.bits b
    necx_repeat := if data.count > X_REPEAT_BITS then false else data.necx_repeat }

/-- A report on the carrier is passed over. -/
theorem step_report {data : Dec} {ev : RawEvent} (h : ev.is_timing_event = false)
    (hreset : ev.reset = false) : step data ev = (data, []) := by
  simp [step, ir_nec_decode, h, hreset]

theorem step_reset {data : Dec} {ev : RawEvent} (hreset : ev.reset = true) :
    step data ev = ({ data with state := .INACTIVE }, []) := by
  simp [step, ir_nec_decode, RawEvent.is_timing_event, hreset]

section Timing

variable {data : Dec} {ev : RawEvent} (ht : ev.is_timing_event = true)
include ht

theorem step_INACTIVE (hs : data.state = .INACTIVE) : step data ev =
    if Matches (.header false) ev then
      ({ data with state := .HEADER_SPACE, count := 0, is_nec_x := false, necx_repeat := false },
        [])
    else if Matches (.header true) ev then
      ({ data with state := .HEADER_SPACE, count := 0, is_nec_x := true }, [])
    else ({ data with state := .INACTIVE }, []) := by
  simp only [step, ir_nec_decode, ht, hs, matches_iff ht, eq_margin_header, eq_margin_header_short]
  cases hp : ev.pulse with
  | false => simp [Sym.isPulse, fail]
  | true =>
    simp only [Sym.isPulse]
    split_ifs <;> simp_all [fail, next]

theorem step_HEADER_SPACE (hs : data.state = .HEADER_SPACE) : step data ev =
    if Matches .space ev then ({ data with state := .BIT_PULSE }, [])
    else if Matches .repeatSpace ev then ({ data with state := .TRAILER_PULSE }, [])
    else ({ data with state := .INACTIVE }, []) := by
  simp only [step, ir_nec_decode, ht, hs, matches_iff ht, eq_margin_space, eq_margin_repeatSpace]
  cases hp : ev.pulse with
  | true => simp [Sym.isPulse, fail]
  | false =>
    simp only [Sym.isPulse]
    split_ifs <;> simp_all [fail, next]

theorem step_BIT_PULSE (hs : data.state = .BIT_PULSE) : step data ev =
    if Matches .mark ev then ({ data with state := .BIT_SPACE }, [])
    else ({ data with state := .INACTIVE }, []) := by
  simp only [step, ir_nec_decode, ht, hs, matches_iff ht, eq_margin_mark]
  cases hp : ev.pulse with
  | false => simp [Sym.isPulse, fail]
  | true =>
    simp only [Sym.isPulse]
    split_ifs <;> simp_all [fail, next]

theorem step_BIT_SPACE (hs : data.state = .BIT_SPACE) : step data ev =
    if ev.pulse = true then ({ data with state := .INACTIVE }, [])
    else if data.necx_repeat = true ∧ data.count = X_REPEAT_BITS ∧ Matches .gap ev then
      ({ data with state := .INACTIVE }, [.rc_repeat])
    else if Matches (.bit true) ev then (data.withBit true, [])
    else if Matches (.bit false) ev then (data.withBit false, [])
    else ({ data.withBit false with state := .INACTIVE, count := data.count }, []) := by
  simp only [step, ir_nec_decode, ht, hs, matches_iff ht, eq_margin_bit_true, eq_margin_bit_false,
    geq_margin_gap]
  cases hp : ev.pulse with
  | true => simp [fail]
  | false =>
    simp only [Sym.isPulse]
    split_ifs <;> simp_all [fail, next, done, Dec.withBit, shiftIn]

theorem step_TRAILER_PULSE (hs : data.state = .TRAILER_PULSE) : step data ev =
    if Matches .mark ev then ({ data with state := .TRAILER_SPACE }, [])
    else ({ data with state := .INACTIVE }, []) := by
  simp only [step, ir_nec_decode, ht, hs, matches_iff ht, eq_margin_trailer]
  cases hp : ev.pulse with
  | false => simp [Sym.isPulse, fail]
  | true =>
    simp only [Sym.isPulse]
    split_ifs <;> simp_all [fail, next]

theorem step_TRAILER_SPACE (hs : data.state = .TRAILER_SPACE) : step data ev =
    if Matches .gap ev then
      if data.count = NBITS then
        ({ data with state := .INACTIVE, necx_repeat := data.is_nec_x || data.necx_repeat },
          [.rc_keydown (scancode data.bits).1 (scancode data.bits).2 0])
      else ({ data with state := .INACTIVE }, [.rc_repeat])
    else ({ data with state := .INACTIVE }, []) := by
  simp only [step, ir_nec_decode, ht, hs, matches_iff ht, geq_margin_gap]
  cases hp : ev.pulse with
  | true => simp [Sym.isPulse, fail]
  | false =>
    simp only [Sym.isPulse]
    cases hx : data.is_nec_x <;> split_ifs <;> simp_all [fail, done]

end Timing

/-! ### A message -/

/-- The tolerances keep two parts of different lengths apart. -/
theorem Matches.not_longer {sym longer : Sym} {ev : RawEvent} (h : Matches sym ev)
    (hbounded : sym.bounded = true)
    (hapart : sym.nominal + sym.tolerance + longer.tolerance ≤ longer.nominal) :
    ¬ Matches longer ev := by
  intro hlonger
  have hhigh := h.2.2.2 hbounded
  have hlow := hlonger.2.2.1
  omega

/-- The decoder after the first pulse of a message. -/
def Dec.withHeader (data : Dec) (short : Bool) : Dec :=
  { data with
    state := .HEADER_SPACE
    count := 0
    is_nec_x := short
    necx_repeat := short && data.necx_repeat }

theorem step_header {data : Dec} {ev : RawEvent} {short : Bool} (hs : data.state = .INACTIVE)
    (h : Matches (.header short) ev) : step data ev = (data.withHeader short, []) := by
  rw [step_INACTIVE h.1 hs]
  cases short with
  | false => simp [h, Dec.withHeader]
  | true =>
    have hlong : ¬ Matches (.header false) ev := h.not_longer rfl (by decide)
    simp [h, hlong, Dec.withHeader]

theorem step_repeatSpace {data : Dec} {ev : RawEvent} (hs : data.state = .HEADER_SPACE)
    (h : Matches .repeatSpace ev) :
    step data ev = ({ data with state := .TRAILER_PULSE }, []) := by
  have hlong : ¬ Matches .space ev := h.not_longer rfl (by decide)
  rw [step_HEADER_SPACE h.1 hs, if_neg hlong, if_pos h]

theorem step_bit {data : Dec} {ev : RawEvent} {b : Bool} (hs : data.state = .BIT_SPACE)
    (h : Matches (.bit b) ev) : step data ev = (data.withBit b, []) := by
  have hpulse : ¬ ev.pulse = true := by
    rw [h.2.1]
    exact Bool.false_ne_true
  -- a bit is too short to be the gap of a repeat
  have hgap : ¬ Matches .gap ev := by
    cases b with
    | true => exact h.not_longer rfl (by decide)
    | false => exact h.not_longer rfl (by decide)
  rw [step_BIT_SPACE h.1 hs, if_neg hpulse, if_neg fun hx => hgap hx.2.2]
  cases b with
  | true => rw [if_pos h]
  | false =>
    have hlong : ¬ Matches (.bit true) ev := h.not_longer rfl (by decide)
    rw [if_neg hlong, if_pos h]

/-- The bits of a message. -/
theorem answers_bits {data : Dec} {bs : List Bool} {evs : List RawEvent}
    (hs : bs ≠ [] → data.state = .BIT_PULSE) (hcount : data.count + bs.length ≤ NBITS)
    (h : List.Forall₂ Matches (bitSyms bs) evs) :
    Answers step data evs [] (bs.foldl Dec.withBit data) := by
  induction bs generalizing data evs with
  | nil =>
    cases h
    exact answers_nil data
  | cons b bs ih =>
    -- a mark and a space, then the other bits
    have h : List.Forall₂ Matches (.mark :: .bit b :: bitSyms bs) evs := h
    obtain ⟨mark, evs', hmark, hevs, rfl⟩ := List.forall₂_cons_left_iff.mp h
    obtain ⟨space, evs, hspace, hbits, rfl⟩ := List.forall₂_cons_left_iff.mp hevs
    have hm : step data mark = ({ data with state := .BIT_SPACE }, []) := by
      rw [step_BIT_PULSE hmark.1 (hs (List.cons_ne_nil b bs)), if_pos hmark]
    have hb : step { data with state := .BIT_SPACE } space = (data.withBit b, []) :=
      step_bit rfl hspace
    rw [List.length_cons] at hcount
    have hrest : Answers step (data.withBit b) evs [] (bs.foldl Dec.withBit (data.withBit b)) := by
      refine ih (fun hne => ?_) ?_ hbits
      · have hlen := List.length_pos_of_ne_nil hne
        exact if_neg (by omega)
      · show data.count + 1 + bs.length ≤ NBITS
        omega
    exact answers_cons hm (answers_cons hb hrest)

/-- The decoder after some bits. -/
theorem foldl_withBit (data : Dec) (bs : List Bool) (b : Bool) :
    (bs ++ [b]).foldl Dec.withBit data =
      { state := if data.count + bs.length + 1 = NBITS then .TRAILER_PULSE else .BIT_PULSE
        count := data.count + bs.length + 1
        bits := (bs ++ [b]).foldl shiftIn data.bits
        is_nec_x := data.is_nec_x
        necx_repeat :=
          if data.count + bs.length > X_REPEAT_BITS then false else data.necx_repeat } := by
  induction bs using List.reverseRecOn generalizing b with
  | nil => rfl
  | append_singleton bs b' ih =>
    rw [List.foldl_append, ih b']
    simp only [List.foldl_cons, List.foldl_nil, Dec.withBit, List.foldl_append, List.length_append,
      List.length_singleton, Nat.add_assoc]
    -- what the earlier bits have made of the repeat no longer counts
    have hrep : (if data.count + (bs.length + 1) > X_REPEAT_BITS then false else
        if data.count + bs.length > X_REPEAT_BITS then false else data.necx_repeat) =
        if data.count + (bs.length + 1) > X_REPEAT_BITS then false else data.necx_repeat := by
      split
      · rfl
      · exact if_neg (by omega)
    rw [hrep]

/-- What stands behind the bits of a message. -/
theorem answers_trailer {data : Dec} {mark gap : RawEvent} (hs : data.state = .TRAILER_PULSE)
    (hmark : Matches .mark mark) (hgap : Matches .gap gap) :
    Answers step data [mark, gap]
      [if data.count = NBITS then .rc_keydown (scancode data.bits).1 (scancode data.bits).2 0
        else .rc_repeat]
      (if data.count = NBITS then
        { data with state := .INACTIVE, necx_repeat := data.is_nec_x || data.necx_repeat }
        else { data with state := .INACTIVE }) := by
  have hm : step data mark = ({ data with state := .TRAILER_SPACE }, []) := by
    rw [step_TRAILER_PULSE hmark.1 hs, if_pos hmark]
  have hg := @step_TRAILER_SPACE { data with state := .TRAILER_SPACE } gap hgap.1 rfl
  rw [if_pos hgap] at hg
  by_cases hc : data.count = NBITS
  · rw [if_pos hc] at hg ⊢
    rw [if_pos hc]
    exact answers_cons hm (answers_cons hg (answers_nil _))
  · rw [if_neg hc] at hg ⊢
    rw [if_neg hc]
    exact answers_cons hm (answers_cons hg (answers_nil _))

/-! ### The word of a message -/

theorem getLsbD_shiftIn (bits : BitVec 32) (b : Bool) {i : Nat} (hi : i < 32) :
    (shiftIn bits b).getLsbD i = if i = 0 then b else bits.getLsbD (i - 1) := by
  cases i with
  | zero => cases b <;> simp [shiftIn]
  | succ i =>
    have hi' : i < 32 := by omega
    cases b <;> simp [shiftIn, hi, BitVec.getLsbD_eq_getElem hi']

/-- The bits are shifted in from below. -/
theorem getLsbD_foldl_shiftIn (bits : BitVec 32) (bs : List Bool) {i : Nat} (hi : i < 32) :
    (bs.foldl shiftIn bits).getLsbD i =
      if h : i < bs.length then bs[bs.length - 1 - i] else bits.getLsbD (i - bs.length) := by
  induction bs using List.reverseRecOn generalizing i with
  | nil => rfl
  | append_singleton bs b ih =>
    rw [List.foldl_append, List.foldl_cons, List.foldl_nil, getLsbD_shiftIn _ _ hi]
    cases i with
    | zero => simp
    | succ i =>
      rw [if_neg (Nat.succ_ne_zero i), Nat.succ_sub_one, ih (by omega)]
      by_cases hlt : i < bs.length
      · have hlt' : bs.length - i - 1 < bs.length := by omega
        simp [hlt, Nat.sub_add_eq, Nat.sub_right_comm, List.getElem_append_left hlt']
      · simp [hlt]

/-- The first bit that comes in ends up as the highest one. -/
theorem foldl_shiftIn_wireBits (bits raw : BitVec 32) :
    (wireBits raw).foldl shiftIn bits = raw.reverse := by
  apply BitVec.eq_of_getLsbD_eq
  intro i hi
  rw [getLsbD_foldl_shiftIn bits _ hi, BitVec.getLsbD_reverse]
  simp [wireBits, hi, BitVec.getMsbD]

/-- A byte of the word is the one that was sent in its place. -/
theorem bitrev8_reverse (raw : BitVec 32) {n : Nat} (hn : n ≤ 24) :
    bitrev8 ((raw.reverse >>> (24 - n)).setWidth 8) = (raw >>> n).setWidth 8 := by
  apply BitVec.eq_of_getLsbD_eq
  intro i hi
  have hi' : 8 - 1 - i < 8 := by omega
  have hlt : 24 - n + (8 - 1 - i) < 32 := by omega
  have hidx : 32 - 1 - (24 - n + (8 - 1 - i)) = n + i := by omega
  simp only [bitrev8, BitVec.getLsbD_reverse, BitVec.getMsbD, BitVec.getLsbD_setWidth,
    BitVec.getLsbD_ushiftRight, hi, hi', hlt, hidx, decide_true, Bool.true_and]

theorem scancode_reverse (short : Bool) (raw : BitVec 32) :
    .rc_keydown (scancode raw.reverse).1 (scancode raw.reverse).2 0 =
      (Msg.frame short raw).call := by
  have h0 := bitrev8_reverse raw (Nat.zero_le 24)
  have h1 := bitrev8_reverse raw (show 8 ≤ 24 by decide)
  have h2 := bitrev8_reverse raw (show 16 ≤ 24 by decide)
  have h3 := bitrev8_reverse raw (le_refl 24)
  simp only [Nat.sub_zero, Nat.reduceSub, BitVec.ushiftRight_zero] at h0 h1 h2 h3
  simp only [scancode, Msg.call, BitVec.ushiftRight_zero, h0, h1, h2, h3]

/-! ### Sessions -/

/-- The decoder waits for a message, with the variant's repeat allowed or not. -/
def Waits (armed : Bool) (data : Dec) : Prop :=
  data.state = .INACTIVE ∧ data.necx_repeat = armed

/-- Events that stand for two lists of parts, one behind the other. -/
theorem forall₂_append {syms syms' : List Sym} {evs : List RawEvent}
    (h : List.Forall₂ Matches (syms ++ syms') evs) :
    ∃ l l', evs = l ++ l' ∧ List.Forall₂ Matches syms l ∧ List.Forall₂ Matches syms' l' := by
  have hflip := h.flip
  refine ⟨evs.take syms.length, evs.drop syms.length, (List.take_append_drop _ _).symm, ?_, ?_⟩
  · exact (List.forall₂_take_append evs syms syms' hflip).flip
  · exact (List.forall₂_drop_append evs syms syms' hflip).flip

/-- The start of a message with bits. -/
theorem answers_start {data : Dec} {armed short : Bool} {evs : List RawEvent}
    (hw : Waits armed data) (h : List.Forall₂ Matches [.header short, .space] evs) :
    Answers step data evs [] { data.withHeader short with state := .BIT_PULSE } := by
  obtain ⟨header, evs', hheader, hevs, rfl⟩ := List.forall₂_cons_left_iff.mp h
  obtain ⟨space, evs, hspace, hnil, rfl⟩ := List.forall₂_cons_left_iff.mp hevs
  cases hnil
  have hh := step_header hw.1 hheader
  have hs := @step_HEADER_SPACE (data.withHeader short) space hspace.1 rfl
  rw [if_pos hspace] at hs
  exact answers_cons hh (answers_cons hs (answers_nil _))

/-- The 32 bits of a message. -/
theorem answers_wireBits {data : Dec} {raw : BitVec 32} {evs : List RawEvent}
    (hs : data.state = .BIT_PULSE) (hc : data.count = 0)
    (h : List.Forall₂ Matches (bitSyms (wireBits raw)) evs) :
    Answers step data evs []
      { state := .TRAILER_PULSE
        count := NBITS
        bits := raw.reverse
        is_nec_x := data.is_nec_x
        necx_repeat := false } := by
  have hbits := answers_bits (fun _ => hs) (by simp [hc, wireBits, NBITS]) h
  -- the bit with the highest index comes last
  have hlast : wireBits raw = (List.range 31).map raw.getLsbD ++ [raw.getLsbD 31] := by
    simp [wireBits, List.range_succ]
  have hdata := foldl_withBit data ((List.range 31).map raw.getLsbD) (raw.getLsbD 31)
  rw [← hlast, foldl_shiftIn_wireBits] at hdata
  rw [hdata] at hbits
  simpa [hc, NBITS, X_REPEAT_BITS] using hbits

theorem answers_frame {data : Dec} {armed short : Bool} {raw : BitVec 32} {evs : List RawEvent}
    (hw : Waits armed data) (h : List.Forall₂ Matches (Msg.frame short raw).syms evs) :
    ∃ data', Answers step data evs [(Msg.frame short raw).call] data' ∧ Waits short data' := by
  obtain ⟨l, l₃, rfl, h12, h3⟩ := forall₂_append h
  obtain ⟨l₁, l₂, rfl, h1, h2⟩ := forall₂_append h12
  obtain ⟨mark, l₄, hmark, h4, rfl⟩ := List.forall₂_cons_left_iff.mp h3
  obtain ⟨gap, l₅, hgap, hnil, rfl⟩ := List.forall₂_cons_left_iff.mp h4
  cases hnil
  have hstart := answers_start hw h1
  have hbits := answers_trans hstart (answers_wireBits rfl rfl h2)
  have hall := answers_trans hbits (answers_trailer rfl hmark hgap)
  rw [if_pos rfl, if_pos rfl, scancode_reverse short] at hall
  exact ⟨_, hall, rfl, Bool.or_false short⟩

theorem answers_rep {data : Dec} {armed short : Bool} {evs : List RawEvent}
    (hw : Waits armed data) (h : List.Forall₂ Matches (Msg.rep short).syms evs) :
    ∃ data', Answers step data evs [.rc_repeat] data' ∧ Waits (short && armed) data' := by
  obtain ⟨header, l₁, hheader, h1, rfl⟩ := List.forall₂_cons_left_iff.mp h
  obtain ⟨space, l₂, hspace, h2, rfl⟩ := List.forall₂_cons_left_iff.mp h1
  obtain ⟨mark, l₃, hmark, h3, rfl⟩ := List.forall₂_cons_left_iff.mp h2
  obtain ⟨gap, l₄, hgap, hnil, rfl⟩ := List.forall₂_cons_left_iff.mp h3
  cases hnil
  have hh := step_header hw.1 hheader
  have hs := @step_repeatSpace (data.withHeader short) space rfl hspace
  have ht := @answers_trailer { data.withHeader short with state := .TRAILER_PULSE } mark gap rfl
    hmark hgap
  -- no bit has been counted
  have hc : ¬ 0 = NBITS := by decide
  refine ⟨_, answers_cons hh (answers_cons hs ht), ?_⟩
  simp [Dec.withHeader, hc, Waits, hw.2]

theorem answers_repX {data : Dec} {armed b : Bool} {evs : List RawEvent}
    (hw : Waits armed data) (harmed : armed = true)
    (h : List.Forall₂ Matches (Msg.repX b).syms evs) :
    ∃ data', Answers step data evs [.rc_repeat] data' ∧ Waits armed data' := by
  obtain ⟨l, l₃, rfl, h12, h3⟩ := forall₂_append h
  obtain ⟨l₁, l₂, rfl, h1, h2⟩ := forall₂_append h12
  obtain ⟨mark, l₄, hmark, h4, rfl⟩ := List.forall₂_cons_left_iff.mp h3
  obtain ⟨gap, l₅, hgap, hnil, rfl⟩ := List.forall₂_cons_left_iff.mp h4
  cases hnil
  have hstart := answers_start hw h1
  have hbit := @answers_bits { data.withHeader true with state := .BIT_PULSE } [b] l₂
    (fun _ => rfl) (by simp [Dec.withHeader, NBITS]) h2
  have hm := @step_BIT_PULSE
    ({ data.withHeader true with state := .BIT_PULSE }.withBit b) mark hmark.1 rfl
  rw [if_pos hmark] at hm
  -- the gap comes where the second bit would stand
  have hg : step { ({ data.withHeader true with state := .BIT_PULSE } : Dec).withBit b with
      state := .BIT_SPACE } gap =
      ({ ({ data.withHeader true with state := .BIT_PULSE } : Dec).withBit b with
        state := .INACTIVE }, [.rc_repeat]) := by
    have hpulse : ¬ gap.pulse = true := by
      rw [hgap.2.1]
      exact Bool.false_ne_true
    rw [step_BIT_SPACE hgap.1 rfl, if_neg hpulse, if_pos]
    simp [Dec.withBit, Dec.withHeader, hw.2, harmed, X_REPEAT_BITS, hgap]
  have hend := answers_cons hm (answers_cons hg (answers_nil _))
  refine ⟨_, answers_trans (answers_trans hstart hbit) hend, rfl, ?_⟩
  simp [Dec.withBit, Dec.withHeader, hw.2, harmed, X_REPEAT_BITS]

/-- One message, with reports on the carrier inside it. -/
theorem answers_msg {data : Dec} {armed : Bool} {m : Msg} {w : List RawEvent}
    (hw : Waits armed data) (hallowed : m.Allowed armed) (h : Conforms m.syms w) :
    ∃ data', Answers step data w [m.call] data' ∧ Waits (m.arms armed) data' := by
  obtain ⟨hreset, hsyms⟩ := h
  have hmsg : ∃ data', Answers step data (w.filter RawEvent.is_timing_event) [m.call] data' ∧
      Waits (m.arms armed) data' := by
    cases m with
    | frame short raw => exact answers_frame hw hsyms
    | rep short => exact answers_rep hw hsyms
    | repX b => exact answers_repX hw hallowed hsyms
  obtain ⟨data', ⟨hafter, hout⟩, hw'⟩ := hmsg
  have hall : Answers step data w (outputs step data (w.filter RawEvent.is_timing_event))
      (after step data (w.filter RawEvent.is_timing_event)) :=
    answers_filter data fun s ev hev ht => step_report ht (hreset ev hev)
  rw [hafter, hout] at hall
  exact ⟨data', hall, hw'⟩

/-- An event that does not begin a message leaves the decoder waiting. -/
theorem step_noise {data : Dec} {armed : Bool} {ev : RawEvent} (hw : Waits armed data)
    (hev : ∀ short, ¬ Matches (.header short) ev) :
    (step data ev).2 = [] ∧ Waits armed (step data ev).1 := by
  cases ht : ev.is_timing_event with
  | true =>
    rw [step_INACTIVE ht hw.1, if_neg (hev false), if_neg (hev true)]
    exact ⟨rfl, rfl, hw.2⟩
  | false =>
    cases hr : ev.reset with
    | true =>
      rw [step_reset hr]
      exact ⟨rfl, rfl, hw.2⟩
    | false =>
      rw [step_report ht hr]
      exact ⟨rfl, hw⟩

/-- The decoder makes the call of each message of a session, and no other. -/
theorem decode_session {armed : Bool} {ms : List Msg} {evs : List RawEvent} {data : Dec}
    (hs : Session armed ms evs) (hw : Waits armed data) :
    outputs step data evs = ms.map Msg.call := by
  induction hs generalizing data with
  | nil armed => rfl
  | noise hev hrest ih =>
    obtain ⟨hout, hw'⟩ := step_noise hw hev
    rw [outputs_cons, hout, ih hw', List.nil_append]
  | cons hallowed hmsg hrest ih =>
    obtain ⟨data', ⟨rfl, hout⟩, hw'⟩ := answers_msg hw hallowed hmsg
    rw [outputs_append, hout, ih hw']
    rfl

end Hcrtos.Native.Rc.Nec
