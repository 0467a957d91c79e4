import Mathlib.Data.List.Chain
import Hcrtos.ForStd.Lts
import Hcrtos.Native.IrRaw
import Hcrtos.Spec.IrNecFrames

/-!
# The infrared receiver, from samples to calls

Interrupts and rounds of the thread come in any order. As long as the queue between them has room,
the calls are those that the decoder makes of the pulses and spaces in the stream of samples.

## Key results

- `run_pipeline`: the queue between the two parties drops nothing and keeps the order
- `answers_wave`: the filter finds the pulses and spaces that the samples were taken from
- `receiver_delivers`: what a remote control sends is what is called
-/

namespace Hcrtos.Native.Rc.RawDev

open Mealy Nec

/-! ### The filter -/

/-- The event that is being put together, and whether the receiver is idle. -/
structure Acc where
  this_ev : RawEvent
  idle : Bool

/-- What the interrupt has in its hands: a sample, or a timeout of the receiver. -/
abbrev Input := Option (BitVec 8)

/-- The event with one more sample. -/
def Acc.add (a : Acc) (ev : RawEvent) : RawEvent × List RawEvent :=
  if a.this_ev.duration = 0 then (ev, [])
  else if ev.pulse = a.this_ev.pulse then
    ({ a.this_ev with duration := a.this_ev.duration + ev.duration }, [])
  else (ev, [a.this_ev])

theorem Acc.add_zero {a : Acc} {ev : RawEvent} (h : a.this_ev.duration = 0) :
    a.add ev = (ev, []) := if_pos h

theorem Acc.add_same {a : Acc} {ev : RawEvent} (h : ¬ a.this_ev.duration = 0)
    (hp : ev.pulse = a.this_ev.pulse) :
    a.add ev = ({ a.this_ev with duration := a.this_ev.duration + ev.duration }, []) := by
  rw [Acc.add, if_neg h, if_pos hp]

theorem Acc.add_other {a : Acc} {ev : RawEvent} (h : ¬ a.this_ev.duration = 0)
    (hp : ¬ ev.pulse = a.this_ev.pulse) : a.add ev = (ev, [a.this_ev]) := by
  rw [Acc.add, if_neg h, if_neg hp]

/-- The filter, with the events that it puts into the queue. -/
def filter (timeout : BitVec 32) (a : Acc) : Input → Acc × List RawEvent
  | none => (⟨RawEvent.zero, true⟩, [{ a.this_ev with timeout := true }])
  | some x =>
    if a.idle = true ∧ (sample x).pulse = false then (a, [])
    else
      let r := a.add (sample x)
      if (sample x).pulse = false ∧ timeout ≠ 0 ∧ r.1.duration ≥ timeout then
        (⟨RawEvent.zero, true⟩, r.2 ++ [{ r.1 with timeout := true }])
      else (⟨r.1, false⟩, r.2)

/-- A sample that does not make the receiver idle. -/
theorem filter_some {timeout : BitVec 32} {a : Acc} {x : BitVec 8}
    (hawake : ¬ (a.idle = true ∧ (sample x).pulse = false))
    (hshort : ¬ ((sample x).pulse = false ∧ timeout ≠ 0 ∧
      (a.add (sample x)).1.duration ≥ timeout)) :
    filter timeout a (some x) = (⟨(a.add (sample x)).1, false⟩, (a.add (sample x)).2) := by
  simp only [filter]
  rw [if_neg hawake, if_neg hshort]

/-- What the filter knows of the receiver. -/
def acc (dev : RawDev) : Acc := ⟨dev.this_ev, dev.idle⟩

/-- The receiver after the filter. -/
def put (dev : RawDev) (a : Acc) (evs : List RawEvent) : RawDev :=
  { dev with kfifo := dev.kfifo ++ evs, this_ev := a.this_ev, idle := a.idle }

theorem ir_raw_event_store_of_lt {dev : RawDev} (h : dev.kfifo.length < MAX_IR_EVENT_SIZE)
    (ev : RawEvent) :
    (dev.ir_raw_event_store ev).1 = { dev with kfifo := dev.kfifo ++ [ev] } := by
  rw [ir_raw_event_store, if_pos h]

theorem ir_raw_event_set_idle_true {dev : RawDev} (h : dev.kfifo.length < MAX_IR_EVENT_SIZE) :
    dev.ir_raw_event_set_idle true =
      dev.put ⟨RawEvent.zero, true⟩ [{ dev.this_ev with timeout := true }] := by
  simp [ir_raw_event_set_idle, ir_raw_event_store_of_lt h, put]

theorem put_nil (dev : RawDev) : dev.put dev.acc [] = dev := by
  simp [put, acc]

theorem put_put (dev : RawDev) (a a' : Acc) (evs evs' : List RawEvent) :
    (dev.put a evs).put a' evs' = dev.put a' (evs ++ evs') := by
  simp [put]

@[simp] theorem put_acc (dev : RawDev) (a : Acc) (evs : List RawEvent) :
    (dev.put a evs).acc = a := rfl

@[simp] theorem put_timeout (dev : RawDev) (a : Acc) (evs : List RawEvent) :
    (dev.put a evs).timeout = dev.timeout := rfl

@[simp] theorem put_kfifo (dev : RawDev) (a : Acc) (evs : List RawEvent) :
    (dev.put a evs).kfifo = dev.kfifo ++ evs := rfl

/-- The part of the filter that joins samples. -/
theorem store_with_filter_add {dev : RawDev} {ev : RawEvent}
    (hroom : dev.kfifo.length + (dev.acc.add ev).2.length ≤ MAX_IR_EVENT_SIZE) :
    (if dev.this_ev.duration = 0 then { dev with this_ev := ev }
      else if ev.pulse = dev.this_ev.pulse then
        { dev with
          this_ev := { dev.this_ev with duration := dev.this_ev.duration + ev.duration } }
      else { (dev.ir_raw_event_store dev.this_ev).1 with this_ev := ev }) =
      dev.put ⟨(dev.acc.add ev).1, dev.idle⟩ (dev.acc.add ev).2 := by
  by_cases hzero : dev.this_ev.duration = 0
  · rw [if_pos hzero, Acc.add_zero (a := dev.acc) hzero]
    simp [put]
  · rw [if_neg hzero]
    by_cases hsame : ev.pulse = dev.this_ev.pulse
    · rw [if_pos hsame, Acc.add_same (a := dev.acc) hzero hsame]
      simp [put, acc]
    · rw [Acc.add_other (a := dev.acc) hzero hsame] at hroom
      have hlt : dev.kfifo.length < MAX_IR_EVENT_SIZE := hroom
      rw [if_neg hsame, ir_raw_event_store_of_lt hlt, Acc.add_other (a := dev.acc) hzero hsame]
      rfl

/-- A sample, as long as the queue has room for what the filter makes of it. -/
theorem store_with_filter_eq {dev : RawDev} {x : BitVec 8}
    (hroom : dev.kfifo.length + (filter dev.timeout dev.acc (some x)).2.length ≤
      MAX_IR_EVENT_SIZE) :
    (dev.ir_raw_event_store_with_filter (sample x)).1 =
      dev.put (filter dev.timeout dev.acc (some x)).1 (filter dev.timeout dev.acc (some x)).2 := by
  unfold ir_raw_event_store_with_filter
  by_cases hquiet : dev.idle = true ∧ (sample x).pulse = false
  · have hacc : filter dev.timeout dev.acc (some x) = (dev.acc, []) := if_pos hquiet
    rw [if_pos hquiet, hacc, put_nil]
  · -- the receiver is no longer idle
    have hawake : (if dev.idle = true then dev.ir_raw_event_set_idle false else dev) =
        { dev with idle := false } := by
      by_cases h : dev.idle = true
      · rw [if_pos h]
        rfl
      · rw [if_neg h, ← Bool.eq_false_iff.mpr h]
    have hacc : filter dev.timeout dev.acc (some x) =
        if (sample x).pulse = false ∧ dev.timeout ≠ 0 ∧
            (dev.acc.add (sample x)).1.duration ≥ dev.timeout then
          (⟨RawEvent.zero, true⟩, (dev.acc.add (sample x)).2 ++
            [{ (dev.acc.add (sample x)).1 with timeout := true }])
        else (⟨(dev.acc.add (sample x)).1, false⟩, (dev.acc.add (sample x)).2) := if_neg hquiet
    rw [if_neg hquiet, hawake]
    have hle : dev.kfifo.length + (dev.acc.add (sample x)).2.length ≤ MAX_IR_EVENT_SIZE := by
      rw [hacc] at hroom
      split at hroom
      · simp only [List.length_append, List.length_singleton] at hroom
        omega
      · exact hroom
    have hadd := @store_with_filter_add { dev with idle := false } (sample x) hle
    simp only at hadd ⊢
    rw [hadd, hacc]
    by_cases htimeout : (sample x).pulse = false ∧ dev.timeout ≠ 0 ∧
        (dev.acc.add (sample x)).1.duration ≥ dev.timeout
    · -- the timeout of the core makes the receiver idle
      rw [hacc, if_pos htimeout] at hroom
      rw [if_pos htimeout]
      have hlt : (dev.kfifo ++ (dev.acc.add (sample x)).2).length < MAX_IR_EVENT_SIZE := by
        simp only [List.length_append, List.length_singleton] at hroom ⊢
        omega
      refine (if_pos htimeout).trans ?_
      rw [ir_raw_event_set_idle_true hlt, ← put_put dev ⟨(dev.acc.add (sample x)).1, false⟩]
      rfl
    · rw [if_neg htimeout]
      exact if_neg htimeout

/-! ### The pipeline -/

/-- What an interrupt has in its hands. -/
def interruptInputs (status : BitVec 8) (irdata : List (BitVec 8)) : List Input :=
  (if status &&& 0x3 ≠ 0 then irdata.map some else []) ++
    if status &&& 0x3 &&& IRC_ISR_TMO_ST ≠ 0 then [none] else []

def inputs : List Label → List Input
  | [] => []
  | .interrupt status irdata :: tr => interruptInputs status irdata ++ inputs tr
  | .thread :: tr => inputs tr

/-- The queue has room for what the interrupt puts into it. -/
def Room (s : RawDev × List Call) : Label → Prop
  | .interrupt status irdata =>
    s.1.kfifo.length +
      (outputs (filter s.1.timeout) s.1.acc (interruptInputs status irdata)).length ≤
        MAX_IR_EVENT_SIZE
  | .thread => True

/-- The receiver after some inputs. -/
def feed (dev : RawDev) (ins : List Input) : RawDev :=
  dev.put (after (filter dev.timeout) dev.acc ins) (outputs (filter dev.timeout) dev.acc ins)

theorem feed_append (dev : RawDev) (ins ins' : List Input) :
    dev.feed (ins ++ ins') = (dev.feed ins).feed ins' := by
  simp only [feed, after_append, outputs_append]
  exact (put_put dev _ _ _ _).symm

theorem foldl_samples {dev : RawDev} {xs : List (BitVec 8)}
    (hroom : dev.kfifo.length + (outputs (filter dev.timeout) dev.acc (xs.map some)).length ≤
      MAX_IR_EVENT_SIZE) :
    xs.foldl (fun dev x => (dev.ir_raw_event_store_with_filter (sample x)).1) dev =
      dev.feed (xs.map some) := by
  induction xs generalizing dev with
  | nil => exact (put_nil dev).symm
  | cons x xs ih =>
    simp only [List.map_cons, outputs_cons, List.length_append] at hroom
    have hx := @store_with_filter_eq dev x (by omega)
    rw [List.foldl_cons, hx, ih]
    · exact put_put dev _ _ _ _
    · rw [put_acc, put_timeout, put_kfifo, List.length_append]
      omega

theorem hc_rc_rx_interrupt_eq {dev : RawDev} {status : BitVec 8} {irdata : List (BitVec 8)}
    (hroom : dev.kfifo.length +
      (outputs (filter dev.timeout) dev.acc (interruptInputs status irdata)).length ≤
        MAX_IR_EVENT_SIZE) :
    dev.hc_rc_rx_interrupt status irdata = dev.feed (interruptInputs status irdata) := by
  unfold interruptInputs at hroom ⊢
  rw [outputs_append, List.length_append] at hroom
  rw [feed_append]
  -- first the samples, then the timeout
  have hsamples : (if status &&& 0x3 ≠ 0 then
        irdata.foldl (fun dev x => (dev.ir_raw_event_store_with_filter (sample x)).1) dev
      else dev) = dev.feed (if status &&& 0x3 ≠ 0 then irdata.map some else []) := by
    split at hroom
    · next h =>
      rw [if_pos h, if_pos h, foldl_samples (by omega)]
    · next h =>
      rw [if_neg h, if_neg h]
      exact (put_nil dev).symm
  unfold hc_rc_rx_interrupt
  simp only
  rw [hsamples]
  split
  · next h =>
    rw [if_pos h] at hroom
    have hlt : (dev.feed (if status &&& 0x3 ≠ 0 then irdata.map some else [])).kfifo.length <
        MAX_IR_EVENT_SIZE := by
      rw [feed, put_kfifo, List.length_append]
      simp only [outputs_cons, filter, outputs_nil, List.append_nil, List.length_singleton] at hroom
      omega
    rw [ir_raw_event_set_idle_true hlt]
    rfl
  · exact (put_nil _).symm

theorem ir_raw_event_thread_cons {dev : RawDev} {ev : RawEvent} {evs : List RawEvent}
    (hen : dev.enabled_protocols &&& nec_protocols ≠ 0) (hk : dev.kfifo = ev :: evs) :
    dev.ir_raw_event_thread =
      some ({ dev with kfifo := evs, nec := (Nec.step dev.nec ev).1 },
        (ir_nec_decode dev.nec ev).2.1) := by
  unfold ir_raw_event_thread
  rw [hk]
  exact if_pos hen

/-- Whatever the order of interrupts and rounds of the thread: what the decoder has taken and what
    is still in the queue is what the filter has made of the samples. -/
theorem run_pipeline {s s' : RawDev × List Call} {tr : List Label}
    (hen : s.1.enabled_protocols &&& nec_protocols ≠ 0) (hroom : Lts.Meets step Room s tr)
    (hrun : Lts.run step s tr = some s') :
    ∃ taken, taken ++ s'.1.kfifo =
        s.1.kfifo ++ outputs (filter s.1.timeout) s.1.acc (inputs tr) ∧
      s'.2 = s.2 ++ outputs Nec.step s.1.nec taken := by
  induction tr generalizing s with
  | nil =>
    cases hrun
    exact ⟨[], (List.append_nil _).symm, (List.append_nil _).symm⟩
  | cons a tr ih =>
    obtain ⟨t, ht, hrun'⟩ := (Lts.run_cons_some step).mp hrun
    have hroom' := hroom.2 t ht
    cases a with
    | interrupt status irdata =>
      -- the queue grows at its end
      simp only [step, hc_rc_rx_interrupt_eq hroom.1, Option.some.injEq] at ht
      subst ht
      obtain ⟨taken, htaken, hcalls⟩ :=
        @ih (s.1.feed (interruptInputs status irdata), s.2) hen hroom' hrun'
      refine ⟨taken, ?_, hcalls⟩
      rw [htaken, inputs, outputs_append, ← List.append_assoc]
      rfl
    | thread =>
      cases hk : s.1.kfifo with
      | nil => simp [step, ir_raw_event_thread, hk] at ht
      | cons ev evs =>
        simp only [step, ir_raw_event_thread_cons hen hk, Option.map_some, Option.some.injEq] at ht
        subst ht
        obtain ⟨taken, htaken, hcalls⟩ :=
          @ih ({ s.1 with kfifo := evs, nec := (Nec.step s.1.nec ev).1 },
            s.2 ++ (Nec.step s.1.nec ev).2) hen hroom' hrun'
        refine ⟨ev :: taken, ?_, ?_⟩
        · rw [List.cons_append, htaken]
          rfl
        · rw [hcalls, outputs_cons, List.append_assoc]

/-! ### Waves -/

/-- A pulse or a space. -/
def level (pulse : Bool) (duration : BitVec 32) : RawEvent :=
  ⟨duration, pulse, false, false, false⟩

theorem sample_eq (x : BitVec 8) : sample x = level (sample x).pulse (sample x).duration := rfl

theorem toNat_sample_pos (x : BitVec 8) : 0 < (sample x).duration.toNat := by
  have hlow : (x &&& 0x7f).toNat ≤ 0x7f := by
    rw [BitVec.toNat_and]
    exact Nat.and_le_right
  have hone : ((x &&& 0x7f).setWidth 32 + 1 : BitVec 32).toNat = (x &&& 0x7f).toNat + 1 := by
    rw [BitVec.toNat_add, BitVec.toNat_setWidth]
    show ((x &&& 0x7f).toNat % 2 ^ 32 + 1) % 2 ^ 32 = _
    omega
  show 0 < (((x &&& 0x7f).setWidth 32 + 1) * BIT_DURATION : BitVec 32).toNat
  rw [BitVec.toNat_mul, hone]
  show 0 < ((x &&& 0x7f).toNat + 1) * 8 % 2 ^ 32
  omega

theorem sample_duration_ne (x : BitVec 8) : (sample x).duration ≠ 0 := by
  intro hzero
  have hpos := toNat_sample_pos x
  rw [hzero] at hpos
  exact absurd hpos (by decide)

/-- Samples of one level with this duration in all. -/
structure Chunk (pulse : Bool) (total : Nat) (xs : List (BitVec 8)) : Prop where
  pulse : ∀ x ∈ xs, (sample x).pulse = pulse
  sum : (xs.map fun x => (sample x).duration.toNat).sum = total

theorem Chunk.uncons {p : Bool} {n : Nat} {x : BitVec 8} {xs : List (BitVec 8)}
    (h : Chunk p n (x :: xs)) :
    (sample x).pulse = p ∧ ∃ k, (sample x).duration.toNat + k = n ∧ Chunk p k xs := by
  refine ⟨h.pulse x List.mem_cons_self, (xs.map fun x => (sample x).duration.toNat).sum, ?_, ?_⟩
  · rw [← h.sum, List.map_cons, List.sum_cons]
  · exact ⟨fun y hy => h.pulse y (List.mem_cons_of_mem x hy), rfl⟩

/-- The samples of a pulse or a space. -/
def SampledAs (ev : RawEvent) (xs : List (BitVec 8)) : Prop :=
  xs ≠ [] ∧ ev = level ev.pulse ev.duration ∧ Chunk ev.pulse ev.duration.toNat xs

/-- A space is over before the core makes the receiver idle. -/
def Short (timeout : BitVec 32) (ev : RawEvent) : Prop :=
  ev.pulse = false → timeout ≠ 0 → ev.duration.toNat < timeout.toNat

instance (timeout : BitVec 32) (ev : RawEvent) : Decidable (Short timeout ev) :=
  inferInstanceAs (Decidable (_ → _ → _))

/-- Samples of the level that the filter is at. -/
theorem answers_chunk {timeout d e : BitVec 32} {p : Bool} {xs : List (BitVec 8)} {n : Nat}
    (hd : d ≠ 0) (hc : Chunk p n xs) (he : e.toNat = d.toNat + n)
    (hshort : p = false → timeout ≠ 0 → e.toNat < timeout.toNat) :
    Answers (filter timeout) ⟨level p d, false⟩ (xs.map some) [] ⟨level p e, false⟩ := by
  induction xs generalizing d n with
  | nil =>
    have hn : n = 0 := hc.sum.symm
    have hde : d = e := BitVec.eq_of_toNat_eq (by omega)
    rw [hde]
    exact answers_nil _
  | cons x xs ih =>
    obtain ⟨hp, k, hsum, hrest⟩ := hc.uncons
    have hlt := e.isLt
    have hadd : (d + (sample x).duration).toNat = d.toNat + (sample x).duration.toNat := by
      rw [BitVec.toNat_add]
      exact Nat.mod_eq_of_lt (by omega)
    have hpos := toNat_sample_pos x
    have hne : d + (sample x).duration ≠ 0 := by
      intro hzero
      rw [hzero] at hadd
      have h0 : (0 : BitVec 32).toNat = 0 := rfl
      omega
    -- a part of the space is shorter than the whole
    have hstep : filter timeout ⟨level p d, false⟩ (some x) =
        (⟨level p (d + (sample x).duration), false⟩, []) := by
      have hjoin : (⟨level p d, false⟩ : Acc).add (sample x) =
          (level p (d + (sample x).duration), []) := Acc.add_same hd hp
      rw [filter_some (fun h => Bool.false_ne_true h.1), hjoin]
      rw [hjoin]
      intro hover
      have hlast := hshort (hp ▸ hover.1) hover.2.1
      have hge : timeout.toNat ≤ (d + (sample x).duration).toNat := BitVec.le_def.mp hover.2.2
      omega
    exact answers_cons hstep (ih hne hrest (by omega))

/-- The samples of a pulse or a space, the first of which replaces what the filter had. -/
theorem answers_sampled {timeout : BitVec 32} {a : Acc} {ev : RawEvent} {xs : List (BitVec 8)}
    {out : List RawEvent} (hs : SampledAs ev xs) (hawake : ¬ (a.idle = true ∧ ev.pulse = false))
    (hadd : ∀ x, (sample x).pulse = ev.pulse → a.add (sample x) = (sample x, out))
    (hshort : Short timeout ev) :
    Answers (filter timeout) a (xs.map some) out ⟨ev, false⟩ := by
  obtain ⟨hnil, hev, hc⟩ := hs
  cases xs with
  | nil => exact absurd rfl hnil
  | cons x xs =>
    obtain ⟨hp, k, hsum, hrest⟩ := hc.uncons
    have hjoin := hadd x hp
    have hstep : filter timeout a (some x) = (⟨sample x, false⟩, out) := by
      rw [← hp] at hawake
      rw [filter_some hawake, hjoin]
      rw [hjoin]
      intro hover
      have hlast := hshort (hp ▸ hover.1) hover.2.1
      have hge : timeout.toNat ≤ (sample x).duration.toNat := BitVec.le_def.mp hover.2.2
      omega
    have hchunk := @answers_chunk timeout (sample x).duration ev.duration ev.pulse xs k
      (sample_duration_ne x) hrest hsum.symm hshort
    rw [← hev, ← hp, ← sample_eq] at hchunk
    simpa using answers_cons hstep hchunk

/-- The samples of a pulse or a space behind one of the other level. -/
theorem answers_next {timeout : BitVec 32} {prev ev : RawEvent} {xs : List (BitVec 8)}
    (hprev : prev.duration ≠ 0) (hne : ev.pulse ≠ prev.pulse) (hs : SampledAs ev xs)
    (hshort : Short timeout ev) :
    Answers (filter timeout) ⟨prev, false⟩ (xs.map some) [prev] ⟨ev, false⟩ := by
  refine answers_sampled hs (fun h => Bool.false_ne_true h.1) (fun x hp => ?_) hshort
  exact Acc.add_other hprev (hp ▸ hne)

/-- The first pulse after the receiver was idle. -/
theorem answers_first {timeout : BitVec 32} {ev : RawEvent} {xs : List (BitVec 8)}
    (hpulse : ev.pulse = true) (hs : SampledAs ev xs) :
    Answers (filter timeout) ⟨RawEvent.zero, true⟩ (xs.map some) [] ⟨ev, false⟩ := by
  have hshort : Short timeout ev := fun hspace => absurd (hpulse.symm.trans hspace) (by decide)
  refine answers_sampled hs (fun h => ?_) (fun x _ => Acc.add_zero rfl) hshort
  exact absurd (hpulse.symm.trans h.2) (by decide)

theorem SampledAs.duration_ne {ev : RawEvent} {xs : List (BitVec 8)} (h : SampledAs ev xs) :
    ev.duration ≠ 0 := by
  obtain ⟨hnil, -, hc⟩ := h
  cases xs with
  | nil => exact absurd rfl hnil
  | cons x xs =>
    obtain ⟨-, k, hsum, -⟩ := hc.uncons
    have hpos := toNat_sample_pos x
    intro hzero
    rw [hzero] at hsum
    have h0 : (0 : BitVec 32).toNat = 0 := rfl
    omega

/-- Pulses and spaces take turns. -/
def Alternates (w : List RawEvent) : Prop := List.IsChain (fun a b => b.pulse ≠ a.pulse) w

theorem answers_rest {timeout : BitVec 32} {prev : RawEvent} {w : List RawEvent}
    {cs : List (List (BitVec 8))} (hprev : prev.duration ≠ 0) (halt : Alternates (prev :: w))
    (hcs : List.Forall₂ SampledAs w cs) (hshort : ∀ ev ∈ w, Short timeout ev) :
    Answers (filter timeout) ⟨prev, false⟩ (cs.flatten.map some) (prev :: w).dropLast
      ⟨(prev :: w).getLast (List.cons_ne_nil prev w), false⟩ := by
  induction hcs generalizing prev with
  | nil => exact answers_nil _
  | @cons ev xs w cs hev hcs ih =>
    have hchain := List.isChain_cons_cons.mp halt
    have hnext := answers_next hprev hchain.1 hev (hshort ev List.mem_cons_self)
    have hrest := ih hev.duration_ne hchain.2 fun ev' h => hshort ev' (List.mem_cons_of_mem ev h)
    rw [List.flatten_cons, List.map_append, List.dropLast_cons_cons, List.getLast_cons_cons]
    exact answers_trans hnext hrest

/-- The pulses and spaces that the samples were taken from. -/
theorem answers_wave {timeout : BitVec 32} {w : List RawEvent} {cs : List (List (BitVec 8))}
    (hne : w ≠ []) (hpulse : (w.head hne).pulse = true) (halt : Alternates w)
    (hcs : List.Forall₂ SampledAs w cs) (hshort : ∀ ev ∈ w, Short timeout ev) :
    Answers (filter timeout) ⟨RawEvent.zero, true⟩ (cs.flatten.map some ++ [none])
      (w.dropLast ++ [{ w.getLast hne with timeout := true }]) ⟨RawEvent.zero, true⟩ := by
  cases hcs with
  | nil => exact absurd rfl hne
  | @cons ev xs w cs hev hcs =>
    have hfirst := @answers_first timeout ev xs hpulse hev
    have hrest := answers_rest hev.duration_ne halt hcs
      fun ev' h => hshort ev' (List.mem_cons_of_mem ev h)
    have hall := answers_trans hfirst hrest
    rw [List.flatten_cons, List.map_append]
    -- the timeout hands the last space to the decoder
    exact answers_trans hall (answers_cons rfl (answers_nil _))

/-! ### Bursts -/

/-- Pulses and spaces in pairs. -/
def pairs : Nat → List Bool
  | 0 => []
  | n + 1 => true :: false :: pairs n

theorem pairs_add (m n : Nat) : pairs (m + n) = pairs m ++ pairs n := by
  induction m with
  | zero => rw [Nat.zero_add, pairs, List.nil_append]
  | succ m ih => rw [Nat.succ_add, pairs, pairs, ih, List.cons_append, List.cons_append]

theorem isChain_pairs (n : Nat) : List.IsChain (fun a b => b ≠ a) (pairs n) := by
  have hspace : List.IsChain (fun a b => b ≠ a) (false :: pairs n) := by
    induction n with
    | zero => exact .singleton false
    | succ n ih => exact .cons_cons (by decide) (.cons_cons (by decide) ih)
  exact hspace.of_cons

theorem isPulse_bitSyms (bs : List Bool) : (bitSyms bs).map Sym.isPulse = pairs bs.length := by
  induction bs with
  | nil => rfl
  | cons b bs ih =>
    have hcons : bitSyms (b :: bs) = .mark :: .bit b :: bitSyms bs := rfl
    rw [hcons, List.map_cons, List.map_cons, ih]
    rfl

/-- A message starts with a pulse and ends with a space. -/
theorem isPulse_syms (m : Msg) : ∃ n, m.syms.map Sym.isPulse = pairs (n + 1) := by
  cases m with
  | frame short raw =>
    refine ⟨(wireBits raw).length + 1, ?_⟩
    rw [Msg.syms, List.map_append, List.map_append, isPulse_bitSyms, Nat.add_assoc, Nat.add_comm,
      Nat.add_comm 1 1, Nat.add_assoc, pairs_add 1, Nat.add_comm 1, pairs_add]
    rfl
  | rep short => exact ⟨1, rfl⟩
  | repX b => exact ⟨2, rfl⟩

/-- Messages that come before the receiver is idle again. -/
inductive Burst : Bool → List Msg → List RawEvent → Bool → Prop where
  | nil (armed : Bool) : Burst armed [] [] armed
  | cons {armed armed' : Bool} {m : Msg} {ms : List Msg} {w evs : List RawEvent}
      (hallowed : m.Allowed armed) (hw : List.Forall₂ Matches m.syms w)
      (hrest : Burst (m.arms armed) ms evs armed') : Burst armed (m :: ms) (w ++ evs) armed'

theorem pulse_of_matches {syms : List Sym} {w : List RawEvent}
    (h : List.Forall₂ Matches syms w) : w.map RawEvent.pulse = syms.map Sym.isPulse := by
  induction h with
  | nil => rfl
  | cons hm _ ih => rw [List.map_cons, List.map_cons, ih, hm.2.1]

theorem Burst.pulse {armed armed' : Bool} {ms : List Msg} {w : List RawEvent}
    (h : Burst armed ms w armed') (hne : ms ≠ []) :
    ∃ n, w.map RawEvent.pulse = pairs (n + 1) := by
  induction h with
  | nil armed => exact absurd rfl hne
  | @cons armed armed' m ms w evs hallowed hw hrest ih =>
    obtain ⟨k, hk⟩ := isPulse_syms m
    rw [List.map_append, pulse_of_matches hw, hk]
    cases hrest with
    | nil => exact ⟨k, by rw [List.map_nil, List.append_nil]⟩
    | cons ha hw' hr =>
      obtain ⟨n, hn⟩ := ih (List.cons_ne_nil _ _)
      rw [hn]
      exact ⟨k + 1 + n, (pairs_add (k + 1) (n + 1)).symm⟩

theorem conforms_of_matches {syms : List Sym} {w : List RawEvent}
    (h : List.Forall₂ Matches syms w) : Conforms syms w := by
  induction h with
  | nil => exact ⟨nofun, .nil⟩
  | cons hm _ ih => exact (conforms_one hm).append ih

theorem answers_burst {armed armed' : Bool} {ms : List Msg} {w : List RawEvent} {data : Dec}
    (h : Burst armed ms w armed') (hw : Waits armed data) :
    ∃ data', Answers Nec.step data w (ms.map Msg.call) data' ∧ Waits armed' data' := by
  induction h generalizing data with
  | nil armed => exact ⟨data, answers_nil data, hw⟩
  | cons hallowed hmsg _ ih =>
    obtain ⟨data₁, hm, hw₁⟩ := answers_msg hw hallowed (conforms_of_matches hmsg)
    obtain ⟨data₂, hrest, hw₂⟩ := ih hw₁
    exact ⟨data₂, answers_trans hm hrest, hw₂⟩

/-! ### Streams -/

/-- What comes in from the receiver: bursts of messages, each of which ends when the receiver is
    idle, and whatever is read from an idle receiver. -/
inductive Stream (timeout : BitVec 32) : Bool → List Msg → List Input → Prop where
  | nil (armed : Bool) : Stream timeout armed [] []
  | quiet {armed : Bool} {ms : List Msg} {ins : List Input} {i : Input}
      (hi : ∀ x, i = some x → (sample x).pulse = false) (hrest : Stream timeout armed ms ins) :
      Stream timeout armed ms (i :: ins)
  | burst {armed armed' : Bool} {ms ms' : List Msg} {w : List RawEvent}
      {cs : List (List (BitVec 8))} {ins : List Input} (hb : Burst armed ms w armed')
      (hne : ms ≠ []) (hcs : List.Forall₂ SampledAs w cs) (hshort : ∀ ev ∈ w, Short timeout ev)
      (hrest : Stream timeout armed' ms' ins) :
      Stream timeout armed (ms ++ ms') (cs.flatten.map some ++ [none] ++ ins)

theorem stream_calls {timeout : BitVec 32} {armed : Bool} {ms : List Msg} {ins : List Input}
    {data : Dec} (h : Stream timeout armed ms ins) (hw : Waits armed data) :
    outputs Nec.step data (outputs (filter timeout) ⟨RawEvent.zero, true⟩ ins) =
      ms.map Msg.call := by
  induction h generalizing data with
  | nil armed => rfl
  | @quiet armed ms ins i hi hrest ih =>
    cases i with
    | none =>
      -- an empty space, which does not begin a message
      have hnoise : ∀ short, ¬ Matches (.header short) { RawEvent.zero with timeout := true } :=
        fun short hm => Bool.false_ne_true hm.2.1
      obtain ⟨hout, hw'⟩ := step_noise hw hnoise
      show outputs Nec.step data ({ RawEvent.zero with timeout := true } :: _) = _
      rw [outputs_cons, hout, List.nil_append]
      exact ih hw'
    | some x =>
      have hx : filter timeout ⟨RawEvent.zero, true⟩ (some x) = (⟨RawEvent.zero, true⟩, []) :=
        if_pos ⟨rfl, hi x rfl⟩
      rw [outputs_cons, hx]
      exact ih hw
  | @burst armed armed' ms ms' w cs ins hb hne hcs hshort hrest ih =>
    obtain ⟨n, hn⟩ := hb.pulse hne
    have hwne : w ≠ [] := by
      intro hnil
      rw [hnil] at hn
      cases hn
    have hhead : (w.head hwne).pulse = true := by
      cases w with
      | nil => exact absurd rfl hwne
      | cons ev w => exact (List.cons.inj hn).1
    have halt : Alternates w := by
      have hchain := isChain_pairs (n + 1)
      rw [← hn] at hchain
      exact (List.isChain_map RawEvent.pulse).mp hchain
    obtain ⟨hafter, hout⟩ := answers_wave hwne hhead halt hcs hshort
    obtain ⟨data', hdata, hw'⟩ := answers_burst hb hw
    -- the decoder does not look at the timeout of an event
    have hlast : ∀ s, Nec.step s { w.getLast hwne with timeout := true } =
        Nec.step s (w.getLast hwne) := fun s => rfl
    rw [← List.dropLast_append_getLast hwne] at hdata
    obtain ⟨hd, ho⟩ := answers_congr_last hlast hdata
    rw [outputs_append, hafter, hout, outputs_append, hd, ho, ih hw', List.map_append]

/-- Whatever the order of interrupts and rounds of the thread: the calls are those of the messages
    in the stream of samples, in order, and all of them once the queue is empty. -/
theorem receiver_delivers {s s' : RawDev × List Call} {tr : List Label} {armed : Bool}
    {ms : List Msg} (hidle : s.1.acc = ⟨RawEvent.zero, true⟩) (hempty : s.1.kfifo = [])
    (hen : s.1.enabled_protocols &&& nec_protocols ≠ 0) (hw : Waits armed s.1.nec)
    (hstream : Stream s.1.timeout armed ms (inputs tr)) (hroom : Lts.Meets step Room s tr)
    (hrun : Lts.run step s tr = some s') :
    s'.2 <+: s.2 ++ ms.map Msg.call ∧
      (s'.1.kfifo = [] → s'.2 = s.2 ++ ms.map Msg.call) := by
  obtain ⟨taken, htaken, hcalls⟩ := run_pipeline hen hroom hrun
  rw [hempty, List.nil_append, hidle] at htaken
  have hall := stream_calls hstream hw
  rw [← htaken, outputs_append] at hall
  rw [hcalls, ← hall, ← List.append_assoc]
  refine ⟨List.prefix_append _ _, fun hdone => ?_⟩
  rw [hdone, outputs_nil, List.append_nil]

/-- The message for a key that is held down, read by one interrupt. -/
theorem receiver_delivers_repeat :
    [Call.rc_repeat] <+: [] ++ [Msg.rep false].map Msg.call ∧
      ((prepare nec_protocols).kfifo = [] →
        [Call.rc_repeat] = [] ++ [Msg.rep false].map Msg.call) := by
  have hmatches : List.Forall₂ Matches (Msg.rep false).syms
      [level true 9216, level false 2256, level true 560, level false 6144] :=
    .cons (by decide) (.cons (by decide) (.cons (by decide) (.cons (by decide) .nil)))
  have hsampled : List.Forall₂ SampledAs
      [level true 9216, level false 2256, level true 560, level false 6144]
      [List.replicate 9 0x7f, [0xff, 0xff, 0x99], [0x45], List.replicate 6 0xff] :=
    .cons ⟨by decide, rfl, by decide, rfl⟩ (.cons ⟨by decide, rfl, by decide, rfl⟩
      (.cons ⟨by decide, rfl, by decide, rfl⟩ (.cons ⟨by decide, rfl, by decide, rfl⟩ .nil)))
  have hburst : Burst false [.rep false]
      [level true 9216, level false 2256, level true 560, level false 6144] false :=
    @Burst.cons false false (.rep false) [] _ [] trivial hmatches (.nil false)
  have hstream : Stream 125000 false [.rep false] (inputs
      [.interrupt 3
          (List.replicate 9 0x7f ++ [0xff, 0xff, 0x99] ++ [0x45] ++ List.replicate 6 0xff),
        .thread, .thread, .thread, .thread]) :=
    @Stream.burst 125000 false false [.rep false] [] _ _ [] hburst (by decide) hsampled (by decide)
      (.nil false)
  exact @receiver_delivers (prepare nec_protocols, []) _ _ false _ rfl rfl (by decide) ⟨rfl, rfl⟩
    hstream (by simp [Lts.Meets, Room]; decide) rfl

end Hcrtos.Native.Rc.RawDev
