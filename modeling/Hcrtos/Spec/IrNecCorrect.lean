import Hcrtos.ForStd.Bits
import Hcrtos.Spec.IrNecFrames

/-!
# Round trip of NEC scancodes, and what the decoder reports at all

## Key results

- `decode_keys_iff`: which scancodes come out of the decoder as they were encoded
- `decode_sound`: every call of the decoder answers a message of its own
-/

namespace Hcrtos.Native.Rc.Nec

open Mealy

/-! ### Bytes of a word -/

/-- A word of four bytes. -/
def word (d3 d2 d1 d0 : BitVec 8) : BitVec 32 :=
  d3.setWidth 32 <<< 24 ||| d2.setWidth 32 <<< 16 ||| d1.setWidth 32 <<< 8 ||| d0.setWidth 32

/-- A byte of a word. -/
def byte (x : BitVec 32) (n : Nat) : BitVec 8 := (x >>> n).setWidth 8

theorem toNat_byte (x : BitVec 32) (n : Nat) : (byte x n).toNat = x.toNat / 2 ^ n % 2 ^ 8 := by
  rw [byte, BitVec.toNat_setWidth, BitVec.toNat_ushiftRight, Nat.shiftRight_eq_div_pow]

theorem toNat_shifted (d : BitVec 8) {n : Nat} (hn : n ≤ 24) :
    (d.setWidth 32 <<< n).toNat = d.toNat * 2 ^ n := by
  have hd := d.isLt
  have hpow : 2 ^ n ≤ 2 ^ 24 := Nat.pow_le_pow_right (by decide) hn
  have hmul : d.toNat * 2 ^ n ≤ 255 * 2 ^ 24 := Nat.mul_le_mul (by omega) hpow
  rw [BitVec.toNat_shiftLeft, BitVec.toNat_setWidth, Nat.shiftLeft_eq,
    Nat.mod_eq_of_lt (by omega : d.toNat < 2 ^ 32), Nat.mod_eq_of_lt (by omega)]

theorem toNat_word (d3 d2 d1 d0 : BitVec 8) : (word d3 d2 d1 d0).toNat =
    d3.toNat * 2 ^ 24 + d2.toNat * 2 ^ 16 + d1.toNat * 2 ^ 8 + d0.toNat := by
  have h0 : (d0.setWidth 32).toNat = d0.toNat := by
    have hd := d0.isLt
    rw [BitVec.toNat_setWidth, Nat.mod_eq_of_lt (by omega)]
  have hd2 := d2.isLt
  have hd1 := d1.isLt
  have hd0 := d0.isLt
  simp only [word, BitVec.toNat_or, h0, toNat_shifted _ (le_refl 24),
    toNat_shifted _ (show 16 ≤ 24 by decide), toNat_shifted _ (show 8 ≤ 24 by decide)]
  -- no part reaches into the one above it
  have h32 : d3.toNat * 2 ^ 24 ||| d2.toNat * 2 ^ 16 = d3.toNat * 2 ^ 24 + d2.toNat * 2 ^ 16 :=
    @Bits.or_eq_add _ _ 24 (by omega) (by omega)
  have h321 : (d3.toNat * 2 ^ 24 + d2.toNat * 2 ^ 16) ||| d1.toNat * 2 ^ 8 =
      d3.toNat * 2 ^ 24 + d2.toNat * 2 ^ 16 + d1.toNat * 2 ^ 8 :=
    @Bits.or_eq_add _ _ 16 (by omega) (by omega)
  rw [h32, h321]
  exact @Bits.or_eq_add _ _ 8 (by omega) (by omega)

/-- The bytes that a word has been put together from. -/
theorem byte_word (d3 d2 d1 d0 : BitVec 8) :
    byte (word d3 d2 d1 d0) 0 = d0 ∧ byte (word d3 d2 d1 d0) 8 = d1 ∧
      byte (word d3 d2 d1 d0) 16 = d2 ∧ byte (word d3 d2 d1 d0) 24 = d3 := by
  have hd0 := d0.isLt
  have hd1 := d1.isLt
  have hd2 := d2.isLt
  have hd3 := d3.isLt
  refine ⟨?_, ?_, ?_, ?_⟩
  all_goals
    apply BitVec.eq_of_toNat_eq
    rw [toNat_byte, toNat_word]
    omega

theorem word_byte (x : BitVec 32) : word (byte x 24) (byte x 16) (byte x 8) (byte x 0) = x := by
  apply BitVec.eq_of_toNat_eq
  have hx := x.isLt
  rw [toNat_word, toNat_byte, toNat_byte, toNat_byte, toNat_byte]
  omega

theorem and_ff (x : BitVec 32) (n : Nat) : x >>> n &&& 0xff = (byte x n).setWidth 32 := by
  apply BitVec.eq_of_toNat_eq
  have hmask : (0xff : BitVec 32).toNat = 2 ^ 8 - 1 := rfl
  rw [BitVec.toNat_and, hmask, Nat.and_two_pow_sub_one_eq_mod, BitVec.toNat_ushiftRight,
    BitVec.toNat_setWidth, toNat_byte, Nat.shiftRight_eq_div_pow]
  omega

theorem xor_ff (d : BitVec 8) : d.setWidth 32 ^^^ 0xff = (~~~d).setWidth 32 := by
  have hones : (0xff : BitVec 32) = (BitVec.allOnes 8).setWidth 32 := rfl
  rw [hones, ← BitVec.setWidth_xor, BitVec.xor_allOnes]

/-- A byte and its complement differ in every bit. -/
theorem xor_not_self (d : BitVec 8) : d ^^^ ~~~d = 0xff#8 := by
  have hones : 0xff#8 = BitVec.allOnes 8 := rfl
  rw [hones]
  apply BitVec.eq_of_getLsbD_eq
  intro i hi
  rw [BitVec.getLsbD_xor, BitVec.getLsbD_not, BitVec.getLsbD_allOnes]
  simp [hi]

/-! ### Round trip -/

theorem setWidth_eq_byte (x : BitVec 32) : x.setWidth 8 = byte x 0 := by
  rw [byte, BitVec.ushiftRight_zero]

theorem ir_nec_scancode_to_raw_eq (p : RcProto) (s : BitVec 32) :
    ir_nec_scancode_to_raw p s =
      if p = .NEC32 then word (byte s 8) (byte s 0) (byte s 24) (byte s 16)
      else if p = .NECX then word (~~~byte s 0) (byte s 0) (byte s 8) (byte s 16)
      else word (~~~byte s 0) (byte s 0) (~~~byte s 8) (byte s 8) := by
  have h0 : s &&& 0xff = (byte s 0).setWidth 32 := by
    have h := and_ff s 0
    rwa [BitVec.ushiftRight_zero] at h
  simp only [ir_nec_scancode_to_raw, h0, and_ff, xor_ff, word]

theorem ir_nec_bytes_to_scancode_eq (a na c nc : BitVec 8) :
    ir_nec_bytes_to_scancode a na c nc =
      if c ^^^ nc ≠ 0xff#8 then (.NEC32, word na a nc c)
      else if a ^^^ na ≠ 0xff#8 then (.NECX, word 0#8 a na c)
      else (.NEC, word 0#8 0#8 a c) := by
  simp [ir_nec_bytes_to_scancode, word]

/-- The scancodes that the protocol has a message of its own for. -/
def Canonical : RcProto → BitVec 32 → Prop
  | .NEC, s => s.toNat < 2 ^ 16
  | .NECX, s => s.toNat < 2 ^ 24 ∧ byte s 16 ^^^ byte s 8 ≠ 0xff#8
  | .NEC32, s => byte s 0 ^^^ byte s 8 ≠ 0xff#8
  | _, _ => False

/-- The message of a scancode. -/
def frameOf (short : Bool) (p : RcProto) (s : BitVec 32) : Msg :=
  .frame short (ir_nec_scancode_to_raw p s)

theorem call_frame_word (short : Bool) (d3 d2 d1 d0 : BitVec 8) :
    (Msg.frame short (word d3 d2 d1 d0)).call =
      .rc_keydown (ir_nec_bytes_to_scancode d0 d1 d2 d3).1
        (ir_nec_bytes_to_scancode d0 d1 d2 d3).2 0 := by
  obtain ⟨h0, h8, h16, h24⟩ := byte_word d3 d2 d1 d0
  rw [← setWidth_eq_byte] at h0
  rw [byte] at h8 h16 h24
  simp only [Msg.call, h0, h8, h16, h24]

theorem word_eq_iff (s : BitVec 32) (d3 d2 : BitVec 8) :
    word d3 d2 (byte s 8) (byte s 0) = s ↔ d3 = byte s 24 ∧ d2 = byte s 16 := by
  constructor
  · intro h
    obtain ⟨-, -, h16, h24⟩ := byte_word d3 d2 (byte s 8) (byte s 0)
    rw [h] at h16 h24
    exact ⟨h24.symm, h16.symm⟩
  · intro h
    rw [h.1, h.2, word_byte]

theorem byte_24_eq_zero_iff (s : BitVec 32) : 0#8 = byte s 24 ↔ s.toNat < 2 ^ 24 := by
  have hs := s.isLt
  rw [BitVec.toNat_inj.symm, toNat_byte]
  show 0 = s.toNat / 2 ^ 24 % 2 ^ 8 ↔ _
  omega

theorem byte_16_eq_zero_iff (s : BitVec 32) :
    0#8 = byte s 24 ∧ 0#8 = byte s 16 ↔ s.toNat < 2 ^ 16 := by
  have hs := s.isLt
  rw [BitVec.toNat_inj.symm, BitVec.toNat_inj.symm, toNat_byte, toNat_byte]
  show 0 = s.toNat / 2 ^ 24 % 2 ^ 8 ∧ 0 = s.toNat / 2 ^ 16 % 2 ^ 8 ↔ _
  omega

theorem call_frameOf_iff (short : Bool) (p : RcProto) (s : BitVec 32) :
    (frameOf short p s).call = .rc_keydown p s 0 ↔ Canonical p s := by
  have hself := xor_not_self (byte s 0)
  rw [frameOf, ir_nec_scancode_to_raw_eq]
  by_cases h32 : p = .NEC32
  · -- all four bytes are sent
    subst h32
    rw [if_pos rfl, call_frame_word, ir_nec_bytes_to_scancode_eq, word_byte]
    by_cases hc : byte s 0 ^^^ byte s 8 = 0xff#8
    · by_cases ha : byte s 16 ^^^ byte s 24 = 0xff#8 <;> simp [hc, ha, Canonical]
    · simp [hc, Canonical]
  · rw [if_neg h32]
    by_cases hx : p = .NECX
    · subst hx
      rw [if_pos rfl, call_frame_word, ir_nec_bytes_to_scancode_eq]
      by_cases ha : byte s 16 ^^^ byte s 8 = 0xff#8
      · simp [hself, ha, Canonical]
      · simp [hself, ha, Canonical, word_eq_iff, byte_24_eq_zero_iff]
    · rw [if_neg hx, call_frame_word, ir_nec_bytes_to_scancode_eq]
      cases p <;>
        simp_all [xor_not_self, Canonical, word_eq_iff, byte_16_eq_zero_iff]

/-- The keys of a session come out of the decoder as they were encoded exactly if the protocols
    have messages of their own for them. -/
theorem decode_keys_iff {armed : Bool} {keys : List (Bool × RcProto × BitVec 32)}
    {evs : List RawEvent} {data : Dec}
    (hs : Session armed (keys.map fun k => frameOf k.1 k.2.1 k.2.2) evs) (hw : Waits armed data) :
    outputs step data evs = keys.map (fun k => .rc_keydown k.2.1 k.2.2 0) ↔
      ∀ k ∈ keys, Canonical k.2.1 k.2.2 := by
  rw [decode_session hs hw, List.map_map, List.map_inj_left]
  exact forall₂_congr fun k _ => call_frameOf_iff k.1 k.2.1 k.2.2

theorem decode_keys_example : outputs step init
    ((frameOf false .NEC 0x1234).syms.map Sym.exact ++ []) = [.rc_keydown .NEC 0x1234 0] :=
  (@decode_keys_iff false [(false, .NEC, 0x1234)] _ init
    (.cons trivial (conforms_exact _) (.nil _)) ⟨rfl, rfl⟩).mpr (by simp [Canonical])

/-! ### Every call has its message -/

/-- What the events are made of: messages with their calls, and whatever stands between them. The
    repeat of the variant needs a message of the variant somewhere before it. -/
inductive Parse : List RawEvent → List Call → Bool → Prop where
  | nil : Parse [] [] false
  | noise {evs : List RawEvent} {calls : List Call} {armed : Bool} (l : List RawEvent)
      (h : Parse evs calls armed) : Parse (evs ++ l) calls armed
  | msg {evs w : List RawEvent} {calls : List Call} {armed : Bool} {m : Msg}
      (h : Parse evs calls armed) (hallowed : m.Allowed armed) (hw : Conforms m.syms w) :
      Parse (evs ++ w) (calls ++ [m.call]) (armed || m.arms armed)

theorem Conforms.report {syms : List Sym} {evs : List RawEvent} {ev : RawEvent}
    (h : Conforms syms evs) (ht : ev.is_timing_event = false) (hr : ev.reset = false) :
    Conforms syms (evs ++ [ev]) := by
  have hev : Conforms [] [ev] := by
    constructor
    · simpa using hr
    · rw [List.filter_cons_of_neg (by simp [ht])]
      exact .nil
  simpa using h.append hev

/-- What the decoder has seen of the message that it is in. -/
def Partial (data : Dec) (cur : List RawEvent) : Prop :=
  match data.state with
  | .INACTIVE => True
  | .HEADER_SPACE => data.count = 0 ∧ Conforms [.header data.is_nec_x] cur
  | .BIT_PULSE => ∃ bs bits, bs.length = data.count ∧ data.count < NBITS ∧
      data.bits = bs.foldl shiftIn bits ∧
      Conforms ([.header data.is_nec_x, .space] ++ bitSyms bs) cur
  | .BIT_SPACE => ∃ bs bits, bs.length = data.count ∧ data.count < NBITS ∧
      data.bits = bs.foldl shiftIn bits ∧
      Conforms ([.header data.is_nec_x, .space] ++ bitSyms bs ++ [.mark]) cur
  | .TRAILER_PULSE => ∃ syms, Body data syms ∧ Conforms syms cur
  | .TRAILER_SPACE => ∃ syms, Body data syms ∧ Conforms (syms ++ [.mark]) cur
where
  /-- A message without its last mark. -/
  Body (data : Dec) (syms : List Sym) : Prop :=
    (data.count = 0 ∧ syms = [.header data.is_nec_x, .repeatSpace]) ∨
      ∃ bs bits, bs.length = NBITS ∧ data.count = NBITS ∧ data.bits = bs.foldl shiftIn bits ∧
        syms = [.header data.is_nec_x, .space] ++ bitSyms bs

/-- What is known of the decoder inside a message, behind events that are parsed already. -/
structure Inside (data : Dec) (evs cur : List RawEvent) (calls : List Call) (armed : Bool) :
    Prop where
  parse : Parse evs calls armed
  part : Partial data cur
  repeats : data.necx_repeat = true → armed = true
  variant : data.state ≠ .INACTIVE → data.necx_repeat = true → data.is_nec_x = true

/-- What is known of the decoder after some events. -/
def Sound (data : Dec) (evs : List RawEvent) (calls : List Call) : Prop :=
  ∃ evs' cur armed, evs' ++ cur = evs ∧ Inside data evs' cur calls armed

theorem sound_init : Sound init [] [] :=
  ⟨[], [], false, rfl, .nil, trivial, nofun, nofun⟩

section Steps

variable {data data' : Dec} {evs cur : List RawEvent} {calls : List Call} {armed : Bool}
  {ev : RawEvent}

/-- The decoder goes back to wait for a message. -/
theorem Inside.giveUp (h : Inside data evs cur calls armed) (hs : data'.state = .INACTIVE)
    (hr : data'.necx_repeat = true → data.necx_repeat = true) :
    Sound data' (evs ++ cur ++ [ev]) (calls ++ []) := by
  refine ⟨evs, cur ++ [ev], armed, (List.append_assoc ..).symm, ?_⟩
  rw [List.append_nil]
  exact ⟨h.parse, by simp [Partial, hs], fun hx => h.repeats (hr hx), fun hne => absurd hs hne⟩

/-- The decoder goes on inside the message. -/
theorem Inside.goOn (h : Inside data evs cur calls armed) (hp : Partial data' (cur ++ [ev]))
    (hs : data.state ≠ .INACTIVE) (hx : data'.is_nec_x = data.is_nec_x)
    (hr : data'.necx_repeat = true → data.necx_repeat = true) :
    Sound data' (evs ++ cur ++ [ev]) (calls ++ []) := by
  refine ⟨evs, cur ++ [ev], armed, (List.append_assoc ..).symm, ?_⟩
  rw [List.append_nil]
  exact ⟨h.parse, hp, fun hrep => h.repeats (hr hrep),
    fun _ hrep => hx.trans (h.variant hs (hr hrep))⟩

/-- The decoder takes the message. -/
theorem Inside.take (h : Inside data evs cur calls armed) {m : Msg} (hallowed : m.Allowed armed)
    (hw : Conforms m.syms (cur ++ [ev])) (hs : data'.state = .INACTIVE)
    (hr : data'.necx_repeat = true → (armed || m.arms armed) = true) :
    Sound data' (evs ++ cur ++ [ev]) (calls ++ [m.call]) := by
  refine ⟨evs ++ (cur ++ [ev]), [], armed || m.arms armed, ?_, h.parse.msg hallowed hw, ?_, hr, ?_⟩
  · rw [List.append_nil, List.append_assoc]
  · simp [Partial, hs]
  · exact fun hne => absurd hs hne

/-- The first pulse of a message. -/
theorem Inside.start (h : Inside data evs cur calls armed) {short : Bool}
    (hev : Matches (.header short) ev) (hs : data'.state = .HEADER_SPACE) (hc : data'.count = 0)
    (hx : data'.is_nec_x = short)
    (hr : data'.necx_repeat = true → short = true ∧ data.necx_repeat = true) :
    Sound data' (evs ++ cur ++ [ev]) (calls ++ []) := by
  refine ⟨evs ++ cur, [ev], armed, rfl, ?_⟩
  rw [List.append_nil]
  refine ⟨h.parse.noise cur, ?_, fun hrep => h.repeats (hr hrep).2, fun _ hrep => ?_⟩
  · simp only [Partial, hs, hc, hx, true_and]
    exact conforms_one hev
  · exact hx.trans (hr hrep).1

/-- A report on the carrier inside a message. -/
theorem Partial.report (h : Partial data cur) (ht : ev.is_timing_event = false)
    (hr : ev.reset = false) : Partial data (cur ++ [ev]) := by
  unfold Partial at h ⊢
  split at h
  · trivial
  · exact ⟨h.1, h.2.report ht hr⟩
  · obtain ⟨bs, bits, hlen, hlt, hbits, hcur⟩ := h
    exact ⟨bs, bits, hlen, hlt, hbits, hcur.report ht hr⟩
  · obtain ⟨bs, bits, hlen, hlt, hbits, hcur⟩ := h
    exact ⟨bs, bits, hlen, hlt, hbits, hcur.report ht hr⟩
  · obtain ⟨syms, hbody, hcur⟩ := h
    exact ⟨syms, hbody, hcur.report ht hr⟩
  · obtain ⟨syms, hbody, hcur⟩ := h
    exact ⟨syms, hbody, hcur.report ht hr⟩

/-- What a step makes of the events, the calls and the decoder. -/
def Keeps (data : Dec) (evs cur : List RawEvent) (calls : List Call) (ev : RawEvent) : Prop :=
  Sound (step data ev).1 (evs ++ cur ++ [ev]) (calls ++ (step data ev).2)

variable (h : Inside data evs cur calls armed)
include h

theorem Inside.keeps_other (ht : ev.is_timing_event = false) : Keeps data evs cur calls ev := by
  unfold Keeps
  cases hr : ev.reset with
  | true =>
    rw [step_reset hr]
    exact h.giveUp rfl id
  | false =>
    rw [step_report ht hr]
    refine ⟨evs, cur ++ [ev], armed, (List.append_assoc ..).symm, ?_⟩
    rw [List.append_nil]
    exact ⟨h.parse, h.part.report ht hr, h.repeats, h.variant⟩

variable (ht : ev.is_timing_event = true)
include ht

theorem Inside.keeps_INACTIVE (hs : data.state = .INACTIVE) : Keeps data evs cur calls ev := by
  unfold Keeps
  rw [step_INACTIVE ht hs]
  split
  · next hev => exact h.start hev rfl rfl rfl nofun
  · split
    · next hev => exact h.start hev rfl rfl rfl fun hr => ⟨rfl, hr⟩
    · exact h.giveUp rfl id

theorem Inside.keeps_HEADER_SPACE (hs : data.state = .HEADER_SPACE) :
    Keeps data evs cur calls ev := by
  have hpart := h.part
  simp only [Partial, hs] at hpart
  obtain ⟨hcount, hcur⟩ := hpart
  have hne : data.state ≠ .INACTIVE := by simp [hs]
  unfold Keeps
  rw [step_HEADER_SPACE ht hs]
  split
  · next hev =>
    -- no bit so far
    refine h.goOn ?_ hne rfl id
    refine ⟨[], data.bits, hcount.symm, ?_, rfl, hcur.append (conforms_one hev)⟩
    show data.count < NBITS
    rw [hcount]
    decide
  · split
    · next hev =>
      refine h.goOn ?_ hne rfl id
      exact ⟨_, .inl ⟨hcount, rfl⟩, hcur.append (conforms_one hev)⟩
    · exact h.giveUp rfl id

theorem Inside.keeps_BIT_PULSE (hs : data.state = .BIT_PULSE) : Keeps data evs cur calls ev := by
  have hpart := h.part
  simp only [Partial, hs] at hpart
  obtain ⟨bs, bits, hlen, hlt, hbits, hcur⟩ := hpart
  have hne : data.state ≠ .INACTIVE := by simp [hs]
  unfold Keeps
  rw [step_BIT_PULSE ht hs]
  split
  · next hev =>
    refine h.goOn ?_ hne rfl id
    exact ⟨bs, bits, hlen, hlt, hbits, hcur.append (conforms_one hev)⟩
  · exact h.giveUp rfl id

omit h ht in
theorem bitSyms_concat (bs : List Bool) (b : Bool) :
    bitSyms (bs ++ [b]) = bitSyms bs ++ [.mark] ++ [.bit b] := by
  simp [bitSyms]

omit h ht in
/-- The decoder after one more bit of a message. -/
theorem partial_withBit {b : Bool} {bs : List Bool} {bits : BitVec 32}
    (hlen : bs.length = data.count) (hlt : data.count < NBITS)
    (hbits : data.bits = bs.foldl shiftIn bits)
    (hcur : Conforms ([.header data.is_nec_x, .space] ++ bitSyms bs ++ [.mark]) cur)
    (hev : Matches (.bit b) ev) : Partial (data.withBit b) (cur ++ [ev]) := by
  have hlen' : (bs ++ [b]).length = data.count + 1 := by simp [hlen]
  have hbits' : shiftIn data.bits b = (bs ++ [b]).foldl shiftIn bits := by simp [hbits]
  have hcur' : Conforms ([.header data.is_nec_x, .space] ++ bitSyms (bs ++ [b])) (cur ++ [ev]) := by
    have happ := hcur.append (conforms_one hev)
    rwa [List.append_assoc, List.append_assoc, ← List.append_assoc (bitSyms bs),
      ← bitSyms_concat] at happ
  by_cases hfull : data.count + 1 = NBITS
  · have hs : (data.withBit b).state = .TRAILER_PULSE := if_pos hfull
    simp only [Partial, hs]
    exact ⟨_, .inr ⟨bs ++ [b], bits, hlen'.trans hfull, hfull, hbits', rfl⟩, hcur'⟩
  · have hs : (data.withBit b).state = .BIT_PULSE := if_neg hfull
    simp only [Partial, hs]
    refine ⟨bs ++ [b], bits, hlen', ?_, hbits', hcur'⟩
    show data.count + 1 < NBITS
    omega

omit h ht in
theorem necx_repeat_withBit (b : Bool) (hr : (data.withBit b).necx_repeat = true) :
    data.necx_repeat = true := by
  simp only [Dec.withBit] at hr
  split at hr
  · cases hr
  · exact hr

theorem Inside.keeps_BIT_SPACE (hs : data.state = .BIT_SPACE) : Keeps data evs cur calls ev := by
  have hpart := h.part
  simp only [Partial, hs] at hpart
  obtain ⟨bs, bits, hlen, hlt, hbits, hcur⟩ := hpart
  have hne : data.state ≠ .INACTIVE := by simp [hs]
  unfold Keeps
  rw [step_BIT_SPACE ht hs]
  split
  · exact h.giveUp rfl id
  · split
    · next hrep =>
      -- the only bit so far, in a message of the variant
      obtain ⟨hr, hcount, hev⟩ := hrep
      obtain ⟨b, rfl⟩ : ∃ b, bs = [b] := List.length_eq_one_iff.mp (hlen.trans hcount)
      rw [h.variant hne hr] at hcur
      have hmsg : Conforms (Msg.repX b).syms (cur ++ [ev]) := by
        have happ := hcur.append (conforms_one hev)
        rwa [List.append_assoc] at happ
      have hallowed : (Msg.repX b).Allowed armed := h.repeats hr
      refine h.take hallowed hmsg rfl fun _ => ?_
      rw [h.repeats hr, Bool.true_or]
    · split
      · next hev =>
        exact h.goOn (partial_withBit hlen hlt hbits hcur hev) hne rfl (necx_repeat_withBit true)
      · split
        · next hev =>
          exact h.goOn (partial_withBit hlen hlt hbits hcur hev) hne rfl (necx_repeat_withBit false)
        · exact h.giveUp rfl (necx_repeat_withBit false)

theorem Inside.keeps_TRAILER_PULSE (hs : data.state = .TRAILER_PULSE) :
    Keeps data evs cur calls ev := by
  have hpart := h.part
  simp only [Partial, hs] at hpart
  obtain ⟨syms, hbody, hcur⟩ := hpart
  have hne : data.state ≠ .INACTIVE := by simp [hs]
  unfold Keeps
  rw [step_TRAILER_PULSE ht hs]
  split
  · next hev =>
    refine h.goOn ?_ hne rfl id
    exact ⟨syms, hbody, hcur.append (conforms_one hev)⟩
  · exact h.giveUp rfl id

omit h ht in
/-- The bits of a full word are those that were shifted in. -/
theorem wireBits_reverse_foldl {bs : List Bool} (bits : BitVec 32) (hlen : bs.length = NBITS) :
    wireBits (bs.foldl shiftIn bits).reverse = bs := by
  have hlen' : bs.length = 32 := hlen
  apply List.ext_getElem
  · simp [wireBits, hlen']
  · intro i hi hi'
    have hlt : i < 32 := by omega
    have hflip : 31 - i < 32 := by omega
    have hidx : bs.length - 1 - (31 - i) = i := by omega
    simp only [wireBits, List.getElem_map, List.getElem_range, BitVec.getLsbD_reverse,
      BitVec.getMsbD, hlt, decide_true, Bool.true_and, Nat.add_one_sub_one]
    rw [getLsbD_foldl_shiftIn bits bs hflip, dif_pos (by omega)]
    simp only [hidx]

theorem Inside.keeps_TRAILER_SPACE (hs : data.state = .TRAILER_SPACE) :
    Keeps data evs cur calls ev := by
  have hpart := h.part
  simp only [Partial, hs] at hpart
  obtain ⟨syms, hbody, hcur⟩ := hpart
  have hne : data.state ≠ .INACTIVE := by simp [hs]
  unfold Keeps
  rw [step_TRAILER_SPACE ht hs]
  split
  · next hev =>
    have hall : Conforms (syms ++ [.mark, .gap]) (cur ++ [ev]) := by
      have happ := hcur.append (conforms_one hev)
      rwa [List.append_assoc] at happ
    rcases hbody with ⟨hcount, rfl⟩ | ⟨bs, bits, hlen, hcount, hbits, rfl⟩
    · -- a repeat has no bits
      have hcount' : ¬ data.count = NBITS := by
        rw [hcount]
        decide
      rw [if_neg hcount']
      refine @Inside.take _ _ _ _ _ _ _ h (.rep data.is_nec_x) trivial hall rfl fun hr => ?_
      rw [h.repeats hr, Bool.true_or]
    · rw [if_pos hcount]
      have hraw : wireBits data.bits.reverse = bs := by
        rw [hbits, wireBits_reverse_foldl bits hlen]
      have hmsg : Conforms (Msg.frame data.is_nec_x data.bits.reverse).syms (cur ++ [ev]) := by
        rw [Msg.syms, hraw]
        exact hall
      have hcall := scancode_reverse data.is_nec_x data.bits.reverse
      rw [BitVec.reverse_reverse_eq] at hcall
      rw [hcall]
      refine h.take trivial hmsg rfl fun hr => ?_
      -- the variant's repeat is allowed after this message or was before it
      rcases (Bool.or_eq_true _ _).mp hr with hx | hr
      · exact (Bool.or_eq_true _ _).mpr (.inr hx)
      · exact (Bool.or_eq_true _ _).mpr (.inl (h.repeats hr))
  · exact h.giveUp rfl id

end Steps

theorem Sound.step {data : Dec} {evs : List RawEvent} {calls : List Call} (h : Sound data evs calls)
    (ev : RawEvent) :
    Sound (step data ev).1 (evs ++ [ev]) (calls ++ (step data ev).2) := by
  obtain ⟨evs, cur, armed, rfl, h⟩ := h
  cases ht : ev.is_timing_event with
  | false => exact h.keeps_other ht
  | true =>
    cases hs : data.state with
    | INACTIVE => exact h.keeps_INACTIVE ht hs
    | HEADER_SPACE => exact h.keeps_HEADER_SPACE ht hs
    | BIT_PULSE => exact h.keeps_BIT_PULSE ht hs
    | BIT_SPACE => exact h.keeps_BIT_SPACE ht hs
    | TRAILER_PULSE => exact h.keeps_TRAILER_PULSE ht hs
    | TRAILER_SPACE => exact h.keeps_TRAILER_SPACE ht hs

/-- Every call of the decoder answers a message of its own, which lies behind those of the calls
    before it. -/
theorem decode_sound (evs : List RawEvent) :
    ∃ armed, Parse evs (outputs step init evs) armed := by
  have hsound : Sound (after step init evs) ([] ++ evs) ([] ++ outputs step init evs) :=
    history_invariant (fun data evs calls ev h => h.step ev) sound_init evs
  obtain ⟨evs', cur, armed, hevs, h⟩ := hsound
  rw [List.nil_append] at hevs
  have hparse := h.parse.noise cur
  rw [hevs] at hparse
  exact ⟨armed, hparse⟩

end Hcrtos.Native.Rc.Nec
