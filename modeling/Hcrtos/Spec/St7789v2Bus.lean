import Hcrtos.Native.St7789v2

/-!
# Words and frames on the panel's bus

What the panel takes when accesses run without an interrupt. The lines may have any values before,
and the first access of a word may already have been made: RS is then set up from a value that is
out of date.

## Key results

- `word_spec`: a word
- `release_spec`: the end of a word, from any of its accesses on
- `frames_spec`: commands with their parameters
- `mux_select`, `isGpio_after`: the functions of the pads
-/

namespace Hcrtos.Native.St7789v2

open Bits

def run (s : Hw × BitVec 32) (as : List Access) : Hw × BitVec 32 := as.foldl exec s

@[simp] theorem run_nil (s : Hw × BitVec 32) : run s [] = s := rfl

@[simp] theorem run_cons (s : Hw × BitVec 32) (a : Access) (as : List Access) :
    run s (a :: as) = run (exec s a) as := rfl

theorem run_append (s : Hw × BitVec 32) (as bs : List Access) :
    run s (as ++ bs) = run (run s as) bs := List.foldl_append

/-- The words of the frames whose commands have been strobed. -/
def Hw.words (h : Hw) : List Word := h.sent.flatMap Frame.words

/-! ### A word -/

/-- A change that does not raise WR. -/
def Change.Quiet (bank : Nat) (c : Change) : Prop :=
  bank = 0 → ∀ x, (c.modify x).getLsbD 7 = true → x.getLsbD 7 = true

theorem store_quiet {h : Hw} {bank : Nat} {x : BitVec 32}
    (hx : bank = 0 → x.getLsbD 7 = true → h.line lcd_wr_num = true) :
    h.store bank x = { h with out := Function.update h.out bank x } := by
  unfold Hw.store
  dsimp only
  rw [if_neg]
  rintro ⟨hlow, hhigh, -⟩
  apply hlow
  by_cases hb : bank = 0
  · subst hb
    exact hx rfl (by simpa [Hw.line, lcd_wr_num] using hhigh)
  · simpa [Hw.line, lcd_wr_num, Function.update_of_ne (Ne.symm hb)] using hhigh

theorem run_change {bank : Nat} {c : Change} (hc : c.Quiet bank) (h : Hw) (v : BitVec 32) :
    run (h, v) [.read bank, .write bank c] =
      ({ h with out := Function.update h.out bank (c.modify (h.out bank)) }, h.out bank) := by
  have hstore : h.store bank (c.modify (h.out bank)) = _ := store_quiet fun hb hbit => by
    subst hb
    simpa [Hw.line, lcd_wr_num] using hc rfl _ hbit
  simp [run, exec, hstore]

theorem getLsbD_data (mask bits x : BitVec 32) (i : Nat) :
    ((Change.data mask bits).modify x).getLsbD i =
      (x.getLsbD i && mask.getLsbD i || bits.getLsbD i) := by
  simp [Change.modify]

/-- WR does not carry data. -/
theorem word_setWr (h : Hw) :
    Hw.word { h with out := Function.update h.out 0 (setBit (h.out 0) 7) } = h.word := by
  have hline : ∀ pad, pad ≠ 7 →
      Hw.line { h with out := Function.update h.out 0 (setBit (h.out 0) 7) } pad = h.line pad := by
    intro pad hpad
    unfold Hw.line
    by_cases hb : pad / 32 = 0
    · have hbit : pad % 32 ≠ 7 := by omega
      simp [hb, hbit]
    · simp [hb]
  have hmap :
      lcd_d_num.map (Hw.line { h with out := Function.update h.out 0 (setBit (h.out 0) 7) }) =
        lcd_d_num.map h.line :=
    List.map_congr_left fun pad hpad => hline pad (by rintro rfl; exact absurd hpad (by decide))
  unfold Hw.word
  rw [hmap, hline lcd_rs_num (by decide)]

theorem store_strobe {h : Hw} (hwr : h.line lcd_wr_num = false) (hcs : h.line lcd_cs_num = false)
    (hgpio : h.InGpioMode) :
    h.store 0 (setBit (h.out 0) 7) =
      { h with
        out := Function.update h.out 0 (setBit (h.out 0) 7)
        log := h.log ++ [h.word] } := by
  have hcs' : (h.out 0).getLsbD 10 = false := hcs
  have hmode : Hw.InGpioMode { h with out := Function.update h.out 0 (setBit (h.out 0) 7) } := hgpio
  have hhigh : Hw.line { h with out := Function.update h.out 0 (setBit (h.out 0) 7) } lcd_wr_num =
      true := by
    change (Function.update h.out 0 (setBit (h.out 0) 7) 0).getLsbD 7 = true
    rw [Function.update_self, getLsbD_setBit _ (by decide)]
    rfl
  have hlow : Hw.line { h with out := Function.update h.out 0 (setBit (h.out 0) 7) } lcd_cs_num =
      false := by
    change (Function.update h.out 0 (setBit (h.out 0) 7) 0).getLsbD 10 = false
    rw [Function.update_self, getLsbD_setBit _ (by decide), hcs']
    rfl
  unfold Hw.store
  dsimp only
  rw [if_pos ⟨by simp [hwr], hhigh, by simp [hlow], hmode⟩, word_setWr]

theorem run_strobe {h : Hw} (hwr : h.line lcd_wr_num = false) (hcs : h.line lcd_cs_num = false)
    (hgpio : h.InGpioMode) (v : BitVec 32) (frame : Option Frame) :
    run (h, v) (gpio_set_wr_high frame) =
      ({ h with
          out := Function.update h.out 0 (setBit (h.out 0) 7)
          log := h.log ++ [h.word]
          sent := h.sent ++ frame.toList }, h.out 0) := by
  simp only [gpio_set_wr_high, run_cons, run_nil, exec, Change.modify, lcd_wr_num,
    store_strobe hwr hcs hgpio]

/-- The lines D0 to D15 after the data has been written. -/
theorem word_data {h : Hw} {w : BitVec 16} {x y : BitVec 32}
    (h0 : h.out 0 = clearBit ((Change.data 0xffffff83 ((w.setWidth 32 &&& 0x1f) <<< 2)).modify x) 7)
    (h3 : h.out 3 = (Change.data 0xffff8183 ((w.setWidth 32 &&& 0x7e0) <<< 4 |||
      w.setWidth 32 >>> 9 &&& 0x7c)).modify y) :
    h.word = ⟨y.getLsbD 1, w⟩ := by
  have hrs : h.line lcd_rs_num = y.getLsbD 1 := by
    simp [Hw.line, lcd_rs_num, h3, Change.modify]
  have hd : lcd_d_num.map h.line = (List.range 16).map w.getLsbD := by
    simp [lcd_d_num, Hw.line, h0, h3, Change.modify, List.range_succ, clearBit]
  have hw : (BitVec.ofBoolListLE ((List.range 16).map w.getLsbD)).setWidth 16 = w := by
    apply BitVec.eq_of_getLsbD_eq
    intro i hi
    rw [BitVec.getLsbD_setWidth, BitVec.getLsbD_ofBoolListLE]
    simp [hi]
  unfold Hw.word
  rw [hrs, hd, hw]

/-- What the panel has taken is a beginning of what has been sent. -/
def Framed (h : Hw) : Prop := h.log <+: h.words

/-- The panel has taken all that has been sent. -/
def Complete (h : Hw) : Prop := h.log = h.words

theorem Complete.framed {h : Hw} (hc : Complete h) : Framed h :=
  ⟨[], (List.append_nil _).trans hc⟩

/-- The frames are in order at each access. -/
def During : List Access → Hw × BitVec 32 → Prop
  | [], _ => True
  | a :: as, s => Framed s.1 ∧ During as (exec s a)

theorem during_append {as bs : List Access} {s : Hw × BitVec 32} :
    During (as ++ bs) s ↔ During as s ∧ During bs (run s as) := by
  induction as generalizing s with
  | nil => simp [During]
  | cons a as ih => simp [During, ih, and_assoc]

theorem during_change {bank : Nat} {c : Change} {h : Hw} {v : BitVec 32} (hf : Framed h) :
    During [.read bank, .write bank c] (h, v) := ⟨hf, hf, trivial⟩

theorem quiet_clear (bank n : Nat) : Change.Quiet bank (.clear n) := by
  intro _ x hx
  simp only [Change.modify, getLsbD_clearBit, Bool.and_eq_true] at hx
  exact hx.2

theorem quiet_setCs (bank : Nat) : Change.Quiet bank (.set lcd_cs_num) := by
  intro _ x hx
  simp only [Change.modify, lcd_cs_num] at hx
  rw [getLsbD_setBit _ (by decide)] at hx
  simpa using hx

theorem quiet_bank3 (c : Change) : Change.Quiet 3 c := fun h => absurd h (by decide)

theorem quiet_data (w : BitVec 16) :
    Change.Quiet 0 (.data 0xffffff83 ((w.setWidth 32 &&& 0x1f) <<< 2)) := by
  intro _ x hx
  rw [getLsbD_data] at hx
  simpa using hx

/-- The accesses of a word that set up the lines, after the first one, which reads the bank of
    RS. -/
def setup (RS : Bool) (cmd : BitVec 16) : List Access :=
  [.write 3 (if RS then .set 1 else .clear 1)] ++ lcd_gpio_set_output lcd_cs_num false ++
    lcd_write_data cmd ++ lcd_gpio_set_output lcd_wr_num false

/-- The accesses that release the lines. -/
def release : List Access :=
  lcd_gpio_set_output lcd_cs_num true ++ lcd_gpio_set_output lcd_rs_num true

theorem word_eq (RS : Bool) (cmd : BitVec 16) (frame : Option Frame) :
    lcd_gpio_spi_config_write RS cmd frame =
      .read 3 :: (setup RS cmd ++ gpio_set_wr_high frame ++ release) := by
  cases RS <;> rfl

theorem run_write3 (h : Hw) (v : BitVec 32) (c : Change) :
    run (h, v) [.write 3 c] = ({ h with out := Function.update h.out 3 (c.modify v) }, v) := by
  simp only [run_cons, run_nil, exec]
  rw [store_quiet (fun hb => absurd hb (by decide))]

theorem setup_eq (RS : Bool) (cmd : BitVec 16) :
    setup RS cmd =
      [.write 3 (if RS then .set 1 else .clear 1)] ++ [.read 0, .write 0 (.clear 10)] ++
        [.read 0, .write 0 (.data 0xffffff83 ((cmd.setWidth 32 &&& 0x1f) <<< 2))] ++
        [.read 3, .write 3 (.data 0xffff8183 ((cmd.setWidth 32 &&& 0x7e0) <<< 4 |||
          cmd.setWidth 32 >>> 9 &&& 0x7c))] ++ [.read 0, .write 0 (.clear 7)] := rfl

/-- RS is set up from a value that may be out of date; all else is read anew. -/
theorem setup_spec (h : Hw) (v : BitVec 32) (RS : Bool) (cmd : BitVec 16) :
    ∃ out v', run (h, v) (setup RS cmd) = ({ h with out := out }, v') ∧
      (out 0).getLsbD 7 = false ∧ (out 0).getLsbD 10 = false ∧
      Hw.word { h with out := out } = ⟨RS, cmd⟩ := by
  have hfirst := run_write3 h v (if RS then .set 1 else .clear 1)
  have hrs : ((if RS then Change.set 1 else .clear 1).modify v).getLsbD 1 = RS := by
    cases RS with
    | false => simp [Change.modify, clearBit]
    | true => simp [Change.modify, setBit]
  generalize (if RS then Change.set 1 else .clear 1).modify v = t at hfirst hrs
  rw [setup_eq]
  simp only [run_append, hfirst, run_change (quiet_clear 0 _), run_change (quiet_data cmd),
    run_change (quiet_bank3 _)]
  refine ⟨_, _, rfl, ?_, ?_, ?_⟩
  · simp [Change.modify, clearBit]
  · simp [Change.modify, clearBit]
  · rw [← hrs]
    exact word_data (by simp [Change.modify]; rfl) (by simp [Change.modify])

theorem during_setup {h : Hw} (hf : Framed h) (v : BitVec 32) (RS : Bool) (cmd : BitVec 16) :
    During (setup RS cmd) (h, v) := by
  rw [setup_eq]
  simp only [during_append, run_append, run_write3, run_change (quiet_clear 0 _),
    run_change (quiet_data cmd), run_change (quiet_bank3 _)]
  exact ⟨⟨⟨⟨⟨hf, trivial⟩, hf, hf, trivial⟩, hf, hf, trivial⟩, hf, hf, trivial⟩, hf, hf, trivial⟩

/-- A write of the bank of WR that is still to come does not raise WR, even if the value it starts
    from is out of date. -/
def Fresh (as : List Access) (h : Hw) (v : BitVec 32) : Prop :=
  ∀ c, as.head? = some (.write 0 c) → v.getLsbD 7 = true → h.line lcd_wr_num = true

/-- The lines are released, from wherever an interrupt has left the task. -/
theorem release_spec {h : Hw} {v : BitVec 32} {as : List Access} (has : as <:+ release)
    (hfresh : Fresh as h v) :
    (∃ out v', run (h, v) as = ({ h with out := out }, v')) ∧ (Framed h → During as (h, v)) := by
  have hrelease : release = [.read 0, .write 0 (.set lcd_cs_num), .read 3, .write 3 (.set 1)] := rfl
  have hcs : run (h, v) [.read 0, .write 0 (.set lcd_cs_num)] = _ := run_change (quiet_setCs 0) h v
  rw [hrelease] at has
  simp only [List.suffix_cons_iff, List.suffix_nil] at has
  obtain rfl | rfl | rfl | rfl | rfl := has
  · have hsplit : [Access.read 0, .write 0 (.set lcd_cs_num), .read 3, .write 3 (.set 1)] =
      [.read 0, .write 0 (.set lcd_cs_num)] ++ [.read 3, .write 3 (.set 1)] := rfl
    rw [hsplit, run_append, during_append, hcs, run_change (quiet_bank3 _)]
    exact ⟨⟨_, _, rfl⟩, fun hf => ⟨during_change hf, during_change hf⟩⟩
  · -- CS is released from a value that was read before the interrupt
    have hstale : h.store 0 ((Change.set lcd_cs_num).modify v) =
        { h with out := Function.update h.out 0 ((Change.set lcd_cs_num).modify v) } :=
      store_quiet fun _ hbit => hfresh _ rfl (quiet_setCs 0 rfl v hbit)
    have hsplit : [Access.write 0 (.set lcd_cs_num), .read 3, .write 3 (.set 1)] =
      [.write 0 (.set lcd_cs_num)] ++ [.read 3, .write 3 (.set 1)] := rfl
    have hone : run (h, v) [.write 0 (.set lcd_cs_num)] =
        ({ h with out := Function.update h.out 0 ((Change.set lcd_cs_num).modify v) }, v) := by
      simp only [run_cons, run_nil, exec, hstale]
    rw [hsplit, run_append, during_append, hone, run_change (quiet_bank3 _)]
    exact ⟨⟨_, _, rfl⟩, fun hf => ⟨⟨hf, trivial⟩, during_change hf⟩⟩
  · rw [run_change (quiet_bank3 _)]
    exact ⟨⟨_, _, rfl⟩, fun hf => during_change hf⟩
  · rw [run_write3]
    exact ⟨⟨_, _, rfl⟩, fun hf => ⟨hf, trivial⟩⟩
  · exact ⟨⟨_, _, rfl⟩, fun _ => trivial⟩

/-- A word, from its second access on: the panel takes it. -/
theorem word_spec {h : Hw} (hgpio : h.InGpioMode) (v : BitVec 32) (RS : Bool) (cmd : BitVec 16)
    (frame : Option Frame) :
    (∃ out v', run (h, v) (setup RS cmd ++ gpio_set_wr_high frame ++ release) =
        ({ h with
            out := out
            log := h.log ++ [⟨RS, cmd⟩]
            sent := h.sent ++ frame.toList }, v') ∧ (out 0).getLsbD 7 = true) ∧
      (Framed h → Framed { h with log := h.log ++ [⟨RS, cmd⟩], sent := h.sent ++ frame.toList } →
        During (setup RS cmd ++ gpio_set_wr_high frame ++ release) (h, v)) := by
  obtain ⟨out, x, hsetup, hwr, hcs, hword⟩ := setup_spec h v RS cmd
  have hstrobe := run_strobe (h := { h with out := out }) hwr hcs hgpio x frame
  have hsplit : release =
      [.read 0, .write 0 (.set lcd_cs_num)] ++ [.read 3, .write 3 (.set 1)] := rfl
  rw [hword] at hstrobe
  rw [run_append, run_append, during_append, during_append, run_append, hsetup, hstrobe, hsplit,
    run_append, during_append, run_change (quiet_setCs 0), run_change (quiet_bank3 _)]
  have hhigh : ((Change.set lcd_cs_num).modify (setBit (out 0) 7)).getLsbD 7 = true := by
    simp [Change.modify, setBit, lcd_cs_num]
  exact ⟨⟨_, _, rfl, by simpa using hhigh⟩, fun hf hf' =>
    ⟨⟨during_setup hf v RS cmd, hf, hf, trivial⟩, during_change hf', during_change hf'⟩⟩

/-! ### Frames -/

theorem write_data_eq (data : BitVec 16) :
    st7789v2_write_data data =
      .read 3 :: (setup true data ++ gpio_set_wr_high none ++ release) := word_eq true data none

theorem params_spec {h : Hw} (hgpio : h.InGpioMode) (v : BitVec 32) (params : List (BitVec 16)) :
    (∃ out v', run (h, v) (params.flatMap st7789v2_write_data) =
        ({ h with out := out, log := h.log ++ params.map (⟨true, ·⟩) }, v') ∧
        (h.line lcd_wr_num = true → (out 0).getLsbD 7 = true)) ∧
      (h.log ++ params.map (⟨true, ·⟩) <+: h.words →
        During (params.flatMap st7789v2_write_data) (h, v)) := by
  induction params generalizing h v with
  | nil => exact ⟨⟨h.out, v, by simp, fun hwr => hwr⟩, fun _ => trivial⟩
  | cons p ps ih =>
    obtain ⟨⟨out, v', hrun, hwr⟩, hduring⟩ := word_spec hgpio (h.out 3) true p none
    simp only [Option.toList_none, List.append_nil] at hrun hduring
    obtain ⟨⟨out', v'', hrun', hwr'⟩, hduring'⟩ :=
      ih (h := { h with out := out, log := h.log ++ [⟨true, p⟩] }) hgpio v'
    rw [List.flatMap_cons, write_data_eq, List.cons_append]
    have hstep : exec (h, v) (.read 3) = (h, h.out 3) := rfl
    have hlog :
        h.log ++ [⟨true, p⟩] ++ ps.map (⟨true, ·⟩) = h.log ++ (p :: ps).map (⟨true, ·⟩) := by
      simp
    simp only [During, run_cons, hstep, run_append, during_append] at hrun hduring ⊢
    simp only [hrun]
    rw [hlog] at hrun' hduring'
    refine ⟨⟨out', v'', hrun', fun _ => hwr' hwr⟩, fun hpre => ?_⟩
    have hf : Framed h := (List.prefix_append _ _).trans hpre
    have hf' : Framed { h with log := h.log ++ [⟨true, p⟩] } :=
      (hlog ▸ List.prefix_append _ _ : h.log ++ [⟨true, p⟩] <+: _).trans hpre
    exact ⟨hf, hduring hf hf', hduring' hpre⟩

/-- A frame, from its second access on. -/
def Frame.begun (f : Frame) : List Access :=
  setup false (f.command.setWidth 16) ++ gpio_set_wr_high (some f) ++ release ++
    f.params.flatMap st7789v2_write_data

theorem Frame.accesses_eq (f : Frame) : f.accesses = .read 3 :: f.begun := by
  unfold Frame.accesses st7789v2_write_command
  rw [word_eq, List.cons_append]
  rfl

theorem begun_spec {h : Hw} (hgpio : h.InGpioMode) (v : BitVec 32) (f : Frame) :
    (∃ out v', run (h, v) f.begun =
        ({ h with out := out, log := h.log ++ f.words, sent := h.sent ++ [f] }, v') ∧
        (out 0).getLsbD 7 = true) ∧
      (Complete h → During f.begun (h, v)) := by
  obtain ⟨⟨out, v', hrun, hwr⟩, hduring⟩ :=
    word_spec hgpio v false (f.command.setWidth 16) (some f)
  simp only [Option.toList_some] at hrun hduring
  obtain ⟨⟨out', v'', hrun', hwr'⟩, hduring'⟩ := params_spec
    (h := { h with
      out := out
      log := h.log ++ [⟨false, f.command.setWidth 16⟩]
      sent := h.sent ++ [f] }) hgpio v' f.params
  have hlog : h.log ++ [⟨false, f.command.setWidth 16⟩] ++ f.params.map (⟨true, ·⟩) =
      h.log ++ f.words := by
    simp [Frame.words]
  rw [hlog] at hrun' hduring'
  unfold Frame.begun
  rw [run_append, during_append, hrun]
  refine ⟨⟨out', v'', hrun', hwr' hwr⟩, fun hc => ?_⟩
  have hwords : Hw.words { h with sent := h.sent ++ [f] } = h.log ++ f.words := by
    rw [hc]
    simp [Hw.words]
  have hpre : h.log ++ f.words <+: Hw.words { h with sent := h.sent ++ [f] } :=
    ⟨[], (List.append_nil _).trans hwords.symm⟩
  have hf : Framed { h with
      log := h.log ++ [⟨false, f.command.setWidth 16⟩], sent := h.sent ++ [f] } :=
    (hlog ▸ List.prefix_append _ _ : h.log ++ [⟨false, f.command.setWidth 16⟩] <+: _).trans hpre
  exact ⟨hduring hc.framed hf, hduring' hpre⟩

theorem complete_append {h : Hw} (hc : Complete h) (fs : List Frame) :
    Complete { h with log := h.log ++ fs.flatMap Frame.words, sent := h.sent ++ fs } := by
  unfold Complete Hw.words at *
  simp [hc]

theorem frames_spec {h : Hw} {fs : List Frame} (hgpio : fs ≠ [] → h.InGpioMode) (v : BitVec 32) :
    (∃ out v', run (h, v) (fs.flatMap Frame.accesses) =
        ({ h with
            out := out
            log := h.log ++ fs.flatMap Frame.words
            sent := h.sent ++ fs }, v') ∧
        ((fs = [] → h.line lcd_wr_num = true) → (out 0).getLsbD 7 = true)) ∧
      (Complete h → During (fs.flatMap Frame.accesses) (h, v)) := by
  induction fs generalizing h v with
  | nil => exact ⟨⟨h.out, v, by simp, fun hwr => hwr rfl⟩, fun _ => trivial⟩
  | cons f fs ih =>
    have hmode := hgpio (List.cons_ne_nil f fs)
    obtain ⟨⟨out, v', hrun, hwr⟩, hduring⟩ := begun_spec hmode (h.out 3) f
    obtain ⟨⟨out', v'', hrun', hwr'⟩, hduring'⟩ :=
      ih (h := { h with out := out, log := h.log ++ f.words, sent := h.sent ++ [f] })
        (fun _ => hmode) v'
    have hstep : exec (h, v) (.read 3) = (h, h.out 3) := rfl
    have hone : [f].flatMap Frame.words = f.words := by simp
    rw [List.flatMap_cons, Frame.accesses_eq, List.cons_append, run_cons, hstep, run_append, hrun,
      hrun']
    refine ⟨⟨out', v'', by simp, fun _ => hwr' fun _ => hwr⟩, fun hc => ?_⟩
    have hc' : Complete { h with log := h.log ++ f.words, sent := h.sent ++ [f] } :=
      hone ▸ complete_append hc [f]
    exact ⟨hc.framed, during_append.mpr ⟨hduring hc, hrun ▸ hduring' hc'⟩⟩

/-! ### The functions of the pads -/

/-- Accesses that only write functions. -/
def Pins (as : List Access) : Prop :=
  ∀ a ∈ as, ∃ padctl m, a = .mux padctl m ∨ a = .gpioMux padctl m

theorem pins_spec {as : List Access} (has : Pins as) (h : Hw) (v : BitVec 32) :
    (∃ mux, run (h, v) as = ({ h with mux := mux }, v)) ∧ (Framed h → During as (h, v)) := by
  induction as generalizing h with
  | nil => exact ⟨⟨h.mux, rfl⟩, fun _ => trivial⟩
  | cons a as ih =>
    obtain ⟨pad, m, ha⟩ := has a List.mem_cons_self
    have hstep : exec (h, v) a = ({ h with mux := Function.update h.mux pad m }, v) := by
      obtain rfl | rfl := ha <;> rfl
    obtain ⟨⟨mux, hrun⟩, hduring⟩ := ih (fun b hb => has b (List.mem_cons_of_mem a hb))
      { h with mux := Function.update h.mux pad m }
    rw [run_cons, hstep, hrun]
    exact ⟨⟨mux, rfl⟩, fun hf => ⟨hf, hstep ▸ hduring hf⟩⟩

variable (cfg : Config)

theorem isGpio_muset (padctl : Nat) (m : BitVec 8) : isGpio (muset cfg padctl m) = isGpio m := by
  unfold muset
  split
  · next h =>
    rw [h.2.2.2]
    decide
  · rfl

/-- The function that a setting selects for a pad. -/
def selected (padctl : Nat) : List (Nat × BitVec 8) → Option (BitVec 8)
  | [] => none
  | (pin, func) :: setting =>
    (selected padctl setting).or (if pin = padctl then some func else none)

/-- The last entry for a pad counts. -/
theorem mux_select {padctl : Nat} (hpad : padctl < PINPAD_MAX) (setting : List (Nat × BitVec 8))
    (h : Hw) (v : BitVec 32) :
    (run (h, v) (pinmux_select_setting cfg setting)).1.mux padctl =
      ((selected padctl setting).map (muset cfg padctl)).getD (h.mux padctl) := by
  induction setting generalizing h with
  | nil => rfl
  | cons e setting ih =>
    obtain ⟨pin, func⟩ := e
    have hcons : pinmux_select_setting cfg ((pin, func) :: setting) =
        (if pin < PINPAD_MAX then [.mux pin (muset cfg pin func)] else []) ++
          pinmux_select_setting cfg setting := List.flatMap_cons
    rw [hcons, run_append, selected]
    by_cases hpin : pin < PINPAD_MAX
    · rw [if_pos hpin, run_cons, run_nil]
      have hstep : exec (h, v) (.mux pin (muset cfg pin func)) =
          ({ h with mux := Function.update h.mux pin (muset cfg pin func) }, v) := rfl
      rw [hstep, ih]
      cases selected padctl setting with
      | some f => rfl
      | none =>
        by_cases heq : pin = padctl
        · subst heq
          simp
        · simp [heq, Function.update_of_ne (Ne.symm heq)]
    · have heq : pin ≠ padctl := fun heq => hpin (heq ▸ hpad)
      rw [if_neg hpin, run_nil, ih, if_neg heq, Option.or_none]

theorem pins_rgb (b : Bool) : ∀ a ∈ lcd_pinmux_rgb cfg b, ∃ padctl m, a = .mux padctl m := by
  have hselect : ∀ setting, ∀ a ∈ pinmux_select_setting cfg setting,
      ∃ padctl m, a = .mux padctl m := by
    intro setting a ha
    obtain ⟨⟨pin, func⟩, -, hmem⟩ := List.mem_flatMap.mp ha
    dsimp only at hmem
    split at hmem
    · exact ⟨_, _, List.mem_singleton.mp hmem⟩
    · exact absurd hmem List.not_mem_nil
  intro a ha
  unfold lcd_pinmux_rgb at ha
  split at ha <;> split at ha <;> first | exact hselect _ a ha | exact absurd ha List.not_mem_nil

theorem lcd_configure_gpio_output_eq :
    lcd_configure_gpio_output cfg =
      (busPads ++ [lcd_reset_num]).map fun pad => .gpioMux pad (muset cfg pad 0) := by
  rfl

/-- After the configuration of the outputs the pads are in GPIO mode. -/
theorem isGpio_after {as : List Access} {padctl : Nat}
    (has : ∀ a ∈ as, ∃ pad m, a = .gpioMux pad m ∧ isGpio m) (h : Hw) (v : BitVec 32)
    (hpad : isGpio (h.mux padctl) ∨ ∃ m, .gpioMux padctl m ∈ as) :
    isGpio ((run (h, v) as).1.mux padctl) := by
  induction as generalizing h with
  | nil => simpa using hpad
  | cons a as ih =>
    obtain ⟨pad, m, rfl, hm⟩ := has a List.mem_cons_self
    have hrest := fun b hb => has b (List.mem_cons_of_mem _ hb)
    apply ih hrest { h with mux := Function.update h.mux pad m }
    by_cases heq : padctl = pad
    · subst heq
      left
      simpa using hm
    · obtain hold | ⟨m', hmem⟩ := hpad
      · left
        simpa [Function.update_of_ne heq] using hold
      · right
        obtain hhead | htail := List.mem_cons.mp hmem
        · cases hhead
          exact absurd rfl heq
        · exact ⟨m', htail⟩

theorem gpio_configure_output (a : Access) (ha : a ∈ lcd_configure_gpio_output cfg) :
    ∃ pad m, a = .gpioMux pad m ∧ isGpio m := by
  rw [lcd_configure_gpio_output_eq] at ha
  obtain ⟨pad, -, rfl⟩ := List.mem_map.mp ha
  exact ⟨pad, _, rfl, by rw [isGpio_muset]; decide⟩

theorem mem_configure_output {padctl : Nat} (hpad : padctl ∈ busPads) :
    ∃ m, .gpioMux padctl m ∈ lcd_configure_gpio_output cfg := by
  rw [lcd_configure_gpio_output_eq]
  exact ⟨_, List.mem_map.mpr ⟨padctl, List.mem_append_left _ hpad, rfl⟩⟩

end Hcrtos.Native.St7789v2
