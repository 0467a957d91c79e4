import Hcrtos.Spec.St7789v2Bus
import Mathlib.Data.List.Chain

/-!
# Framing of the commands to the panel

The handler of the vertical sync sends frames of its own and leaves the pads to the RGB interface.
Where no command of the task is under way and the task's pads are not taken away, it does no harm:
every point of a call has one of three forms there (`Boundary`), and from each of them the panel
takes whole frames whatever the handler has left on the lines.

## Key results

- `Shape.boundary`: the forms of such a point
- `Boundary.spec`: what the panel takes from there on
- `inv_step`: what a step preserves
- `framed_of_clean`: the frames in runs whose steps all meet the condition
-/

namespace Hcrtos.Native.St7789v2

variable (cfg : Config)

/-! ### Points between two commands -/

def Access.isStrobe : Access → Bool
  | .strobe _ => true
  | _ => false

/-- Going on from here, the task lowers RS for a command, or ends, before it strobes: no command is
    under way. -/
def betweenFrames : List Access → Bool
  | [] => true
  | a :: as =>
    decide (a = .write (lcd_rs_num / 32) (.clear (lcd_rs_num % 32))) ||
      (!a.isStrobe && betweenFrames as)

/-- Such points have one of these forms. -/
inductive Boundary : List Access → Prop
  | pins {as last : List Access} {fs : List Frame} :
      as <:+ lcd_pinmux_rgb cfg false ++ lcd_configure_gpio_output cfg →
      last <:+ lcd_pinmux_rgb cfg true → Boundary (as ++ (fs.flatMap Frame.accesses ++ last))
  | release {as last : List Access} {fs : List Frame} : as <:+ St7789v2.release →
      last <:+ lcd_pinmux_rgb cfg true → Boundary (as ++ (fs.flatMap Frame.accesses ++ last))
  | begun {last : List Access} {f : Frame} {fs : List Frame} : last <:+ lcd_pinmux_rgb cfg true →
      Boundary (Frame.begun f ++ (fs.flatMap Frame.accesses ++ last))

theorem suffix_append_cases {α : Type*} {as bs cs : List α} (h : cs <:+ as ++ bs) :
    cs <:+ bs ∨ ∃ ds, ds <:+ as ∧ ds ≠ [] ∧ cs = ds ++ bs := by
  obtain ⟨es, hes⟩ := h
  obtain ⟨ds, hds, rfl⟩ | ⟨ds, -, hds⟩ := List.append_eq_append_iff.mp hes
  · cases ds with
    | nil => exact .inl (by simp)
    | cons d ds => exact .inr ⟨d :: ds, ⟨es, hds.symm⟩, List.cons_ne_nil d ds, rfl⟩
  · exact .inl ⟨ds, hds.symm⟩

/-- A strobe comes first. -/
theorem betweenFrames_strobe {as : List Access}
    (has : ∀ a ∈ as, a ≠ .write 3 (.clear 1)) (frame : Option Frame) (bs : List Access) :
    betweenFrames (as ++ .strobe frame :: bs) = false := by
  induction as with
  | nil => rfl
  | cons a as ih =>
    have ha : a ≠ .write (lcd_rs_num / 32) (.clear (lcd_rs_num % 32)) := has a List.mem_cons_self
    simp [betweenFrames, ha, ih fun b hb => has b (List.mem_cons_of_mem a hb)]

theorem betweenFrames_release {as : List Access} (has : as <:+ release) (bs : List Access) :
    betweenFrames (as ++ bs) = betweenFrames bs := by
  have hrelease : release = [.read 0, .write 0 (.set 10), .read 3, .write 3 (.set 1)] := rfl
  rw [hrelease] at has
  simp only [List.suffix_cons_iff, List.suffix_nil] at has
  obtain rfl | rfl | rfl | rfl | rfl := has <;>
    simp [betweenFrames, Access.isStrobe, lcd_rs_num]

/-- Where a word is under way but no command is, the word is over, or it is a command of which at
    most the bank of RS has been read. -/
theorem word_suffix {RS : Bool} {cmd : BitVec 16} {frame : Option Frame} {as bs : List Access}
    (has : as <:+ lcd_gpio_spi_config_write RS cmd frame) (hne : as ≠ [])
    (h : betweenFrames (as ++ bs) = true) :
    as <:+ release ∨
      (RS = false ∧ (as = lcd_gpio_spi_config_write RS cmd frame ∨
        as = setup RS cmd ++ gpio_set_wr_high frame ++ release)) := by
  -- the accesses between the one that sets RS and the strobe
  obtain ⟨mid, hmid, hword⟩ : ∃ mid : List Access, (∀ a ∈ mid, a ≠ .write 3 (.clear 1)) ∧
      setup RS cmd ++ gpio_set_wr_high frame ++ release =
        .write 3 (if RS then .set 1 else .clear 1) :: (mid ++ .strobe frame :: release) :=
    ⟨[.read 0, .write 0 (.clear 10), .read 0,
      .write 0 (.data 0xffffff83 ((cmd.setWidth 32 &&& 0x1f) <<< 2)), .read 3,
      .write 3 (.data 0xffff8183 ((cmd.setWidth 32 &&& 0x7e0) <<< 4 |||
        cmd.setWidth 32 >>> 9 &&& 0x7c)), .read 0, .write 0 (.clear 7), .read 0], by simp, rfl⟩
  -- nothing that comes after RS has been set lowers it before the strobe
  have hmid' : ∀ as', as' <:+ mid ++ .strobe frame :: release → as' ≠ [] →
      betweenFrames (as' ++ bs) = true → as' <:+ release := by
    intro as' has' _ h'
    obtain has' | ⟨ds, hds, -, rfl⟩ := suffix_append_cases has'
    · obtain rfl | has' := List.suffix_cons_iff.mp has'
      · exact absurd h' (by simp [betweenFrames, Access.isStrobe])
      · exact has'
    · have hfalse := betweenFrames_strobe (fun a ha => hmid a (hds.subset ha)) frame (release ++ bs)
      rw [List.append_assoc, List.cons_append, hfalse] at h'
      exact absurd h' (by decide)
  have hhigh : RS = true →
      betweenFrames (.write 3 (if RS then .set 1 else .clear 1) ::
        (mid ++ .strobe frame :: release) ++ bs) = false := by
    rintro rfl
    have hnone : ∀ a ∈ Access.write 3 (.set 1) :: mid, a ≠ .write 3 (.clear 1) := by
      simpa using hmid
    have hfalse := betweenFrames_strobe hnone frame (release ++ bs)
    simpa using hfalse
  rw [word_eq, hword] at has ⊢
  obtain rfl | has := List.suffix_cons_iff.mp has
  · cases RS with
    | false => exact .inr ⟨rfl, .inl rfl⟩
    | true =>
      have hread : ∀ x, betweenFrames (.read 3 :: x) = betweenFrames x := fun x => by
        simp [betweenFrames, Access.isStrobe]
      rw [List.cons_append, hread] at h
      exact absurd (h.symm.trans (hhigh rfl)) (by decide)
  · obtain rfl | has := List.suffix_cons_iff.mp has
    · cases RS with
      | false => exact .inr ⟨rfl, .inr rfl⟩
      | true => exact absurd (h.symm.trans (hhigh rfl)) (by decide)
    · exact .inl (hmid' as has hne h)

theorem not_release {RS : Bool} {cmd : BitVec 16} {frame : Option Frame} :
    ¬ lcd_gpio_spi_config_write RS cmd frame <:+ release := by
  intro h
  have hlen := h.length_le
  simp [word_eq, setup, release, gpio_set_wr_high, lcd_write_data, lcd_gpio_set_output] at hlen

/-- The next parameter is strobed without a command. -/
theorem not_betweenFrames_params (p : BitVec 16) (ps : List (BitVec 16)) (bs : List Access) :
    ¬ betweenFrames ((p :: ps).flatMap st7789v2_write_data ++ bs) = true := by
  intro h
  rw [List.flatMap_cons, List.append_assoc] at h
  obtain hrel | ⟨hRS, -⟩ := word_suffix List.suffix_rfl (by simp [word_eq]) h
  · exact not_release hrel
  · exact absurd hRS (by decide)

/-- In the parameters of a frame a command is under way until the last one is over. -/
theorem params_suffix {params : List (BitVec 16)} {as bs : List Access}
    (has : as <:+ params.flatMap st7789v2_write_data) (hne : as ≠ [])
    (h : betweenFrames (as ++ bs) = true) : as <:+ release := by
  induction params with
  | nil => exact absurd (List.suffix_nil.mp has) hne
  | cons p ps ih =>
    rw [List.flatMap_cons] at has
    obtain has | ⟨ds, hds, hdne, rfl⟩ := suffix_append_cases has
    · exact ih has
    · rw [List.append_assoc] at h
      obtain hrel | ⟨hRS, -⟩ := word_suffix hds hdne h
      · rw [betweenFrames_release hrel] at h
        cases ps with
        | nil => simpa using hrel
        | cons p' ps => exact absurd h (not_betweenFrames_params p' ps bs)
      · exact absurd hRS (by decide)

theorem boundary_frames {as last : List Access} {fs : List Frame}
    (hlast : last <:+ lcd_pinmux_rgb cfg true) (has : as <:+ fs.flatMap Frame.accesses ++ last)
    (h : betweenFrames as = true) : Boundary cfg as := by
  induction fs with
  | nil =>
    have hform : Boundary cfg ([] ++ (([] : List Frame).flatMap Frame.accesses ++ as)) :=
      .release List.nil_suffix (has.trans hlast)
    simpa using hform
  | cons f fs ih =>
    rw [List.flatMap_cons, List.append_assoc] at has
    obtain has | ⟨ds, hds, hdne, rfl⟩ := suffix_append_cases has
    · exact ih has
    · obtain hds | ⟨es, hes, hene, rfl⟩ := suffix_append_cases hds
      · exact .release (params_suffix hds hdne h) hlast
      · rw [List.append_assoc] at h
        obtain hrel | ⟨-, rfl | rfl⟩ := word_suffix hes hene h
        · -- the command is over, and so is the frame if it has no parameters
          rw [betweenFrames_release hrel] at h
          cases hp : f.params with
          | nil => exact .release (by simpa using hrel) hlast
          | cons p ps =>
            rw [hp] at h
            exact absurd h (not_betweenFrames_params p ps _)
        · have hform : Boundary cfg ([] ++ ((f :: fs).flatMap Frame.accesses ++ last)) :=
            .release List.nil_suffix hlast
          rw [List.flatMap_cons, List.append_assoc, List.nil_append] at hform
          exact hform
        · exact .begun hlast

/-! ### The accesses of a call -/

/-- The accesses that are still to come end a call. -/
def Shape (as : List Access) : Prop :=
  ∃ (fs : List Frame) (last : List Access), last <:+ lcd_pinmux_rgb cfg true ∧
    as <:+ (lcd_pinmux_rgb cfg false ++ lcd_configure_gpio_output cfg) ++
      (fs.flatMap Frame.accesses ++ last)

theorem shape_session (fs : List Frame) : Shape cfg (session cfg fs) :=
  ⟨fs, _, List.suffix_rfl, by simp [session]⟩

theorem shape_call (c : Call) : Shape cfg (c.accesses cfg) := by
  cases c with
  | sf2000_lcd_panel_brightness_probe brightness cabc => exact shape_session cfg _
  | st7789v2_rorate dir =>
    refine ⟨[⟨0x36, [rotateData dir]⟩], [], List.nil_suffix, ?_⟩
    simp only [List.flatMap_singleton, List.append_nil]
    exact List.suffix_append _ _

variable {cfg}

theorem Shape.tail {a : Access} {as : List Access} (h : Shape cfg (a :: as)) : Shape cfg as := by
  obtain ⟨fs, last, hlast, has⟩ := h
  exact ⟨fs, last, hlast, (List.suffix_cons a as).trans has⟩

theorem Shape.boundary {as : List Access} (h : Shape cfg as) (hb : betweenFrames as = true) :
    Boundary cfg as := by
  obtain ⟨fs, last, hlast, has⟩ := h
  obtain has | ⟨ds, hds, -, rfl⟩ := suffix_append_cases has
  · exact boundary_frames cfg hlast has hb
  · exact .pins hds hlast

def Access.isIo : Access → Bool
  | .mux _ _ | .gpioMux _ _ => false
  | _ => true

/-- Words do not write functions. -/
theorem frames_isIo (fs : List Frame) : ∀ a ∈ fs.flatMap Frame.accesses, a.isIo = true := by
  have hword : ∀ RS cmd frame, ∀ a ∈ lcd_gpio_spi_config_write RS cmd frame, a.isIo = true := by
    intro RS cmd frame
    have hall : (lcd_gpio_spi_config_write RS cmd frame).all Access.isIo = true := by
      cases RS <;> rfl
    exact List.all_eq_true.mp hall
  intro a ha
  obtain ⟨f, -, hf⟩ := List.mem_flatMap.mp ha
  obtain hcmd | hparam := List.mem_append.mp hf
  · exact hword _ _ _ a hcmd
  · obtain ⟨p, -, hp⟩ := List.mem_flatMap.mp hparam
    exact hword _ _ _ a hp

theorem Shape.gpioMux {padctl : Nat} {m : BitVec 8} {as : List Access}
    (h : Shape cfg (.gpioMux padctl m :: as)) : isGpio m = true := by
  obtain ⟨fs, last, hlast, has⟩ := h
  have hmem := has.subset List.mem_cons_self
  simp only [List.mem_append] at hmem
  obtain (hmem | hmem) | hmem | hmem := hmem
  · obtain ⟨_, _, heq⟩ := pins_rgb cfg false _ hmem
    exact absurd heq (by simp)
  · obtain ⟨_, _, heq, hm⟩ := gpio_configure_output cfg _ hmem
    cases heq
    exact hm
  · exact absurd (frames_isIo fs _ hmem) (by simp [Access.isIo])
  · obtain ⟨_, _, heq⟩ := pins_rgb cfg true _ (hlast.subset hmem)
    exact absurd heq (by simp)

/-- Where a setting is selected before words, the outputs are configured in between. -/
theorem Shape.mux {padctl : Nat} {m : BitVec 8} {as : List Access}
    (h : Shape cfg (.mux padctl m :: as)) (hstrobe : ∃ frame, .strobe frame ∈ as) {pad : Nat}
    (hpad : pad ∈ busPads) : ∃ m, .gpioMux pad m ∈ as := by
  obtain ⟨fs, last, hlast, has⟩ := h
  obtain ⟨frame, hframe⟩ := hstrobe
  obtain has | ⟨ds, hds, hne, hcons⟩ := suffix_append_cases has
  · obtain has | ⟨ds, hds, hne, hcons⟩ := suffix_append_cases has
    · -- the setting is the last thing that happens
      have hmem := (has.trans hlast).subset (List.mem_cons_of_mem _ hframe)
      obtain ⟨_, _, heq⟩ := pins_rgb cfg true _ hmem
      exact absurd heq (by simp)
    · obtain ⟨d, ds, rfl⟩ := List.exists_cons_of_ne_nil hne
      cases hcons
      exact absurd (frames_isIo fs _ (hds.subset List.mem_cons_self)) (by simp [Access.isIo])
  · obtain ⟨d, ds, rfl⟩ := List.exists_cons_of_ne_nil hne
    cases hcons
    obtain hds | ⟨es, hes, hene, hcons⟩ := suffix_append_cases hds
    · obtain ⟨_, _, heq, -⟩ := gpio_configure_output cfg _ (hds.subset List.mem_cons_self)
      exact absurd heq (by simp)
    · obtain ⟨e, es, rfl⟩ := List.exists_cons_of_ne_nil hene
      cases hcons
      obtain ⟨m', hm'⟩ := mem_configure_output cfg hpad
      exact ⟨m', List.mem_append_left _ (List.mem_append_right _ hm')⟩

/-! A value of the bank of WR is written back right after it has been read. -/

def Paired : List Access → Prop :=
  List.IsChain fun a b => ∀ c, b = .write 0 c → a = .read 0

theorem Paired.append {as bs : List Access} (has : Paired as) (hbs : Paired bs)
    (hhead : ∀ c, bs.head? ≠ some (.write 0 c)) : Paired (as ++ bs) := by
  unfold Paired
  rw [List.isChain_append]
  refine ⟨has, hbs, fun a _ b hb c hc => ?_⟩
  subst hc
  exact absurd hb (hhead c)

theorem paired_pins {as : List Access} (has : ∀ a ∈ as, a.isIo = false) : Paired as := by
  induction as with
  | nil => exact List.isChain_nil
  | cons a as ih =>
    have hrest := ih fun b hb => has b (List.mem_cons_of_mem a hb)
    have hsplit : a :: as = [a] ++ as := rfl
    rw [hsplit]
    apply Paired.append (List.isChain_singleton a) hrest
    intro c hc
    have hmem := has _ (List.mem_cons_of_mem a (List.mem_of_mem_head? hc))
    exact absurd hmem (by simp [Access.isIo])

theorem paired_word (RS : Bool) (cmd : BitVec 16) (frame : Option Frame) :
    Paired (lcd_gpio_spi_config_write RS cmd frame) := by
  cases RS <;> simp [Paired, lcd_gpio_spi_config_write, lcd_gpio_set_output, lcd_write_data,
    gpio_set_wr_high, lcd_rs_num, lcd_cs_num, lcd_wr_num]

theorem paired_flatMap {α : Type*} {f : α → List Access}
    (hf : ∀ x, Paired (f x) ∧ ∃ as, f x = .read 3 :: as) (xs : List α) {bs : List Access}
    (hbs : Paired bs) (hhead : ∀ c, bs.head? ≠ some (.write 0 c)) :
    Paired (xs.flatMap f ++ bs) ∧ ∀ c, (xs.flatMap f ++ bs).head? ≠ some (.write 0 c) := by
  induction xs with
  | nil => exact ⟨hbs, hhead⟩
  | cons x xs ih =>
    obtain ⟨hpaired, as, has⟩ := hf x
    rw [List.flatMap_cons, List.append_assoc]
    exact ⟨hpaired.append ih.1 ih.2, by simp [has]⟩

theorem paired_accesses (f : Frame) : Paired f.accesses := by
  have hparams := paired_flatMap (f := st7789v2_write_data)
    (fun p => ⟨paired_word true p none, _, write_data_eq p⟩) f.params
    (List.isChain_nil : Paired []) (by simp)
  rw [List.append_nil] at hparams
  exact (paired_word false _ _).append hparams.1 hparams.2

theorem Shape.paired {as : List Access} (h : Shape cfg as) : Paired as := by
  obtain ⟨fs, last, hlast, has⟩ := h
  have hrgb : ∀ b, ∀ a ∈ lcd_pinmux_rgb cfg b, a.isIo = false := by
    intro b a ha
    obtain ⟨_, _, rfl⟩ := pins_rgb cfg b a ha
    rfl
  have hlastIo : ∀ a ∈ last, a.isIo = false := fun a ha => hrgb true a (hlast.subset ha)
  have hpins : ∀ a ∈ lcd_pinmux_rgb cfg false ++ lcd_configure_gpio_output cfg, a.isIo = false := by
    intro a ha
    obtain ha | ha := List.mem_append.mp ha
    · exact hrgb false a ha
    · obtain ⟨_, _, rfl, -⟩ := gpio_configure_output cfg a ha
      rfl
  have hhead : ∀ c, last.head? ≠ some (.write 0 c) := fun c hc =>
    absurd (hlastIo _ (List.mem_of_mem_head? hc)) (by simp [Access.isIo])
  have hframes := paired_flatMap (f := Frame.accesses)
    (fun f => ⟨paired_accesses f, _, f.accesses_eq⟩) fs (paired_pins hlastIo) hhead
  exact List.IsChain.suffix ((paired_pins hpins).append hframes.1 hframes.2) has

theorem Shape.fresh {a : Access} {as : List Access} (h : Shape cfg (a :: as)) {c : Change}
    (hc : as.head? = some (.write 0 c)) : a = .read 0 := by
  have hpaired := h.paired
  obtain ⟨b, as, rfl⟩ : ∃ b bs, as = b :: bs := by
    cases as with
    | nil => exact absurd hc (by simp)
    | cons b bs => exact ⟨b, bs, rfl⟩
  exact (List.isChain_cons_cons.mp hpaired).1 c (by simpa using hc)

/-! ### Runs from a point between two commands -/

/-- The pads that the task needs no more configuration for are in GPIO mode, if it has words
    left. -/
def Prepared (as : List Access) (h : Hw) : Prop :=
  (∃ frame, .strobe frame ∈ as) → ∀ pad ∈ busPads, (∀ m, .gpioMux pad m ∉ as) → isGpio (h.mux pad)

theorem strobe_mem {fs : List Frame} (hfs : fs ≠ []) :
    ∃ frame, .strobe frame ∈ fs.flatMap Frame.accesses := by
  obtain ⟨f, fs, rfl⟩ := List.exists_cons_of_ne_nil hfs
  exact ⟨some f, List.mem_flatMap.mpr ⟨f, List.mem_cons_self, by
    simp [Frame.accesses, st7789v2_write_command, word_eq, gpio_set_wr_high]⟩⟩

theorem rest_spec {h : Hw} {fs : List Frame} {last : List Access}
    (hlast : last <:+ lcd_pinmux_rgb cfg true) (hgpio : fs ≠ [] → h.InGpioMode) (v : BitVec 32) :
    (∃ h' v', run (h, v) (fs.flatMap Frame.accesses ++ last) = (h', v') ∧
        h'.log = h.log ++ fs.flatMap Frame.words ∧ h'.sent = h.sent ++ fs ∧
        ((fs = [] → h.line lcd_wr_num = true) → h'.line lcd_wr_num = true)) ∧
      (Complete h → During (fs.flatMap Frame.accesses ++ last) (h, v)) := by
  have hpins : Pins last := by
    intro a ha
    obtain ⟨pad, m, rfl⟩ := pins_rgb cfg true a (hlast.subset ha)
    exact ⟨pad, m, .inl rfl⟩
  obtain ⟨⟨out, v', hrun, hwr⟩, hduring⟩ := frames_spec hgpio v
  obtain ⟨⟨mux, hrun'⟩, hduring'⟩ := pins_spec hpins
    { h with out := out, log := h.log ++ fs.flatMap Frame.words, sent := h.sent ++ fs } v'
  rw [run_append, during_append, hrun, hrun']
  exact ⟨⟨_, _, rfl, rfl, rfl, hwr⟩,
    fun hc => ⟨hduring hc, hduring' (complete_append hc fs).framed⟩⟩

theorem gpioMux_not_mem_rest {fs : List Frame} {last : List Access}
    (hlast : last <:+ lcd_pinmux_rgb cfg true) (pad : Nat) (m : BitVec 8) :
    .gpioMux pad m ∉ fs.flatMap Frame.accesses ++ last := by
  intro hmem
  obtain hmem | hmem := List.mem_append.mp hmem
  · exact absurd (frames_isIo fs _ hmem) (by simp [Access.isIo])
  · obtain ⟨_, _, heq⟩ := pins_rgb cfg true _ (hlast.subset hmem)
    exact absurd heq (by simp)

/-- The configuration of the outputs, from wherever the task is in it. -/
theorem pins_inGpioMode {as bs : List Access}
    (has : as <:+ lcd_pinmux_rgb cfg false ++ lcd_configure_gpio_output cfg) {h : Hw}
    (v : BitVec 32) (hprepared : Prepared (as ++ bs) h) (hstrobe : ∃ frame, .strobe frame ∈ bs)
    (hbs : ∀ pad m, .gpioMux pad m ∉ bs) : (run (h, v) as).1.InGpioMode := by
  obtain ⟨frame, hframe⟩ := hstrobe
  intro pad hpad
  obtain has | ⟨ds, -, -, rfl⟩ := suffix_append_cases has
  · apply isGpio_after (fun a ha => gpio_configure_output cfg a (has.subset ha))
    by_cases hmem : ∃ m, .gpioMux pad m ∈ as
    · exact .inr hmem
    · left
      apply hprepared ⟨frame, List.mem_append_right as hframe⟩ pad hpad
      intro m hm
      obtain hm | hm := List.mem_append.mp hm
      · exact hmem ⟨m, hm⟩
      · exact hbs pad m hm
  · -- the setting comes before the whole configuration
    rw [run_append]
    exact isGpio_after (gpio_configure_output cfg) _ _ (.inr (mem_configure_output cfg hpad))

/-- From such a point the panel takes whole frames, whatever the lines were before. -/
theorem Boundary.spec {as : List Access} (hb : Boundary cfg as) {h : Hw} {v : BitVec 32}
    (hprepared : Prepared as h) (hfresh : Fresh as h v) :
    (∃ fs h' v', run (h, v) as = (h', v') ∧ h'.log = h.log ++ fs.flatMap Frame.words ∧
        h'.sent = h.sent ++ fs) ∧
      (Complete h → During as (h, v)) := by
  cases hb with
  | @pins as last fs has hlast =>
    have hpins : Pins as := by
      intro a ha
      obtain ha | ha := List.mem_append.mp (has.subset ha)
      · obtain ⟨pad, m, rfl⟩ := pins_rgb cfg false a ha
        exact ⟨pad, m, .inl rfl⟩
      · obtain ⟨pad, m, rfl, -⟩ := gpio_configure_output cfg a ha
        exact ⟨pad, m, .inr rfl⟩
    have hmode : fs ≠ [] → (run (h, v) as).1.InGpioMode := by
      intro hfs
      obtain ⟨frame, hframe⟩ := strobe_mem hfs
      exact pins_inGpioMode has v hprepared ⟨frame, List.mem_append_left last hframe⟩
        (gpioMux_not_mem_rest hlast)
    obtain ⟨⟨mux, hrun⟩, hduring⟩ := pins_spec hpins h v
    rw [hrun] at hmode
    obtain ⟨⟨h', v', hrun', hlog, hsent, -⟩, hduring'⟩ := rest_spec hlast hmode v
    rw [run_append, during_append, hrun]
    exact ⟨⟨fs, h', v', hrun', hlog, hsent⟩, fun hc => ⟨hduring hc.framed, hduring' hc⟩⟩
  | @release as last fs has hlast =>
    have hio : ∀ a ∈ as, a.isIo = true := by
      intro a ha
      have hall : St7789v2.release.all Access.isIo = true := rfl
      exact List.all_eq_true.mp hall a (has.subset ha)
    have hmode : fs ≠ [] → h.InGpioMode := by
      intro hfs pad hpad
      obtain ⟨frame, hframe⟩ := strobe_mem hfs
      apply hprepared ⟨frame, List.mem_append_right as (List.mem_append_left last hframe)⟩ pad hpad
      intro m hm
      obtain hm | hm := List.mem_append.mp hm
      · exact absurd (hio _ hm) (by simp [Access.isIo])
      · exact gpioMux_not_mem_rest hlast pad m hm
    have hfresh' : Fresh as h v := by
      intro c hc
      exact hfresh c (by rw [List.head?_append, hc]; rfl)
    obtain ⟨⟨out, v', hrun⟩, hduring⟩ := release_spec has hfresh'
    obtain ⟨⟨h', v'', hrun', hlog, hsent, -⟩, hduring'⟩ :=
      rest_spec (h := { h with out := out }) hlast hmode v'
    rw [run_append, during_append, hrun]
    exact ⟨⟨fs, h', v'', hrun', hlog, hsent⟩, fun hc => ⟨hduring hc.framed, hduring' hc⟩⟩
  | @begun last f fs hlast =>
    have hio : ∀ a ∈ f.begun, a.isIo = true := by
      intro a ha
      apply frames_isIo [f]
      simp [Frame.accesses_eq, ha]
    have hmode : h.InGpioMode := by
      intro pad hpad
      have hstrobe : .strobe (some f) ∈ f.begun := by simp [Frame.begun, gpio_set_wr_high]
      apply hprepared ⟨some f, List.mem_append_left _ hstrobe⟩ pad hpad
      intro m hm
      obtain hm | hm := List.mem_append.mp hm
      · exact absurd (hio _ hm) (by simp [Access.isIo])
      · exact gpioMux_not_mem_rest hlast pad m hm
    obtain ⟨⟨out, v', hrun, -⟩, hduring⟩ := begun_spec hmode v f
    have hone : [f].flatMap Frame.words = f.words := by simp
    obtain ⟨⟨h', v'', hrun', hlog, hsent, -⟩, hduring'⟩ :=
      rest_spec (h := { h with out := out, log := h.log ++ f.words, sent := h.sent ++ [f] }) hlast
        (fun _ => hmode) v'
    rw [run_append, during_append, hrun]
    exact ⟨⟨f :: fs, h', v'', hrun', by simp [hlog], by simp [hsent]⟩, fun hc =>
      ⟨hduring hc, hduring' (hone ▸ complete_append hc [f])⟩⟩

/-! ### The interrupt handler -/

/-- Frames that are appended on both sides leave no difference. -/
theorem complete_iff {h h' : Hw} {fs : List Frame} (hlog : h'.log = h.log ++ fs.flatMap Frame.words)
    (hsent : h'.sent = h.sent ++ fs) : Complete h' ↔ Complete h := by
  unfold Complete Hw.words
  rw [hlog, hsent, List.flatMap_append, List.append_left_inj]

variable (cfg) in
/-- The setting of the RGB interface leaves the pad in GPIO mode. -/
def Keeps (padctl : Nat) : Prop :=
  ∀ func ∈ selected padctl (cfg.rgb_state.getD []), isGpio func = true

theorem isGpio_rgb {padctl : Nat} (hpad : padctl < PINPAD_MAX) (hkeeps : Keeps cfg padctl) {h : Hw}
    (v : BitVec 32) (hgpio : isGpio (h.mux padctl) = true) :
    isGpio ((run (h, v) (lcd_pinmux_rgb cfg true)).1.mux padctl) = true := by
  unfold Keeps at hkeeps
  unfold lcd_pinmux_rgb
  rw [if_pos rfl]
  cases hrgb : cfg.rgb_state with
  | none => exact hgpio
  | some setting =>
    rw [hrgb, Option.getD_some] at hkeeps
    dsimp only
    rw [mux_select cfg hpad]
    cases hsel : selected padctl setting with
    | none => exact hgpio
    | some func => exact (isGpio_muset cfg padctl func).trans (hkeeps func hsel)

variable (cfg) in
theorem session_spec (h : Hw) (v : BitVec 32) {fs : List Frame} (hfs : fs ≠ []) :
    ∃ h', (run (h, v) (session cfg fs)).1 = h' ∧ h'.log = h.log ++ fs.flatMap Frame.words ∧
      h'.sent = h.sent ++ fs ∧ h'.line lcd_wr_num = true ∧
      ∀ pad ∈ busPads, Keeps cfg pad → isGpio (h'.mux pad) = true := by
  have hlt : ∀ pad ∈ busPads, pad < PINPAD_MAX := by decide
  have hpins : ∀ b, Pins (lcd_pinmux_rgb cfg b) := by
    intro b a ha
    obtain ⟨pad, m, rfl⟩ := pins_rgb cfg b a ha
    exact ⟨pad, m, .inl rfl⟩
  have hcfg : Pins (lcd_configure_gpio_output cfg) := by
    intro a ha
    obtain ⟨pad, m, rfl, -⟩ := gpio_configure_output cfg a ha
    exact ⟨pad, m, .inr rfl⟩
  obtain ⟨⟨mux₁, hctl⟩, -⟩ := pins_spec (hpins false) h v
  obtain ⟨⟨mux₂, hout⟩, -⟩ := pins_spec hcfg { h with mux := mux₁ } v
  have hmode : Hw.InGpioMode { h with mux := mux₂ } := by
    intro pad hpad
    have hafter := isGpio_after (gpio_configure_output cfg) { h with mux := mux₁ } v
      (.inr (mem_configure_output cfg hpad))
    rw [hout] at hafter
    exact hafter
  obtain ⟨⟨out, v', hframes, hwr⟩, -⟩ :=
    frames_spec (h := { h with mux := mux₂ }) (fun _ => hmode) v
  obtain ⟨⟨mux₃, hrgb⟩, -⟩ := pins_spec (hpins true)
    ⟨mux₂, out, h.log ++ fs.flatMap Frame.words, h.sent ++ fs⟩ v'
  have hall : run (h, v) (session cfg fs) =
      run (⟨mux₂, out, h.log ++ fs.flatMap Frame.words, h.sent ++ fs⟩, v')
        (lcd_pinmux_rgb cfg true) := by
    unfold session
    rw [run_append, run_append, run_append, hctl, hout, hframes]
  have hkeeps : ∀ pad ∈ busPads, Keeps cfg pad →
      isGpio ((run (h, v) (session cfg fs)).1.mux pad) = true := by
    intro pad hpad hkeeps
    rw [hall]
    exact isGpio_rgb (hlt pad hpad) hkeeps v' (hmode pad hpad)
  rw [hall, hrgb] at hkeeps ⊢
  exact ⟨_, rfl, rfl, rfl, hwr fun heq => absurd heq hfs, hkeeps⟩

/-! ### Runs -/

variable (cfg)

/-- The condition on a step. An interrupt lands where no command of the task is under way, and if
    the task has words left, the setting of the RGB interface leaves the pads in GPIO mode that are
    not configured any more. A rotation starts in GPIO mode. -/
def Clean (s : State) : Action → Prop
  | .call (.st7789v2_rorate _) => s.hw.InGpioMode
  | .call (.sf2000_lcd_panel_brightness_probe _ _) => True
  | .access => True
  | .vsync => betweenFrames s.todo = true ∧
      ((∃ frame, .strobe frame ∈ s.todo) →
        ∀ pad ∈ busPads, (∀ m, .gpioMux pad m ∉ s.todo) → Keeps cfg pad)

/-- The panel takes the frames one after the other, and when the task has returned none is
    missing. -/
def Holds (s : State) : Prop := Framed s.hw ∧ (s.todo = [] → Complete s.hw)

structure Inv (s : State) : Prop where
  shape : Shape cfg s.todo
  fresh : Fresh s.todo s.hw s.value
  prepared : Prepared s.todo s.hw
  during : During s.todo (s.hw, s.value)
  complete : Complete (run (s.hw, s.value) s.todo).1

variable {cfg}

theorem inv_start (mux : Nat → BitVec 8) (out : Nat → BitVec 32) : Inv cfg (start mux out) where
  shape := ⟨[], [], List.nil_suffix, List.nil_suffix⟩
  fresh := fun c hc => by simp [start] at hc
  prepared := fun h => by simp [start] at h
  during := trivial
  complete := rfl

theorem Inv.holds {s : State} (h : Inv cfg s) : Holds s := by
  obtain ⟨-, -, -, hduring, hcomplete⟩ := h
  unfold Holds
  cases htodo : s.todo with
  | nil =>
    rw [htodo] at hcomplete
    exact ⟨hcomplete.framed, fun _ => hcomplete⟩
  | cons a as =>
    rw [htodo] at hduring
    exact ⟨hduring.1, fun hnil => absurd hnil (List.cons_ne_nil a as)⟩

/-- The task, at a point between two commands. -/
theorem inv_of_boundary {s : State} (hshape : Shape cfg s.todo) (hb : Boundary cfg s.todo)
    (hprepared : Prepared s.todo s.hw) (hfresh : Fresh s.todo s.hw s.value)
    (hcomplete : Complete s.hw) : Inv cfg s := by
  obtain ⟨⟨fs, h', v', hrun, hlog, hsent⟩, hduring⟩ := hb.spec hprepared hfresh
  have hend : Complete (run (s.hw, s.value) s.todo).1 := by
    rw [hrun]
    exact (complete_iff hlog hsent).mpr hcomplete
  exact ⟨hshape, hfresh, hprepared, hduring hcomplete, hend⟩

theorem inv_call {s : State} (h : Inv cfg s) (htodo : s.todo = []) {c : Call}
    (hclean : Clean cfg s (.call c)) : Inv cfg { s with todo := c.accesses cfg } := by
  have hcomplete : Complete s.hw := h.holds.2 htodo
  cases c with
  | sf2000_lcd_panel_brightness_probe brightness cabc =>
    -- the configuration of the outputs is still to come
    have hall : ∀ pad ∈ busPads, ∃ m, .gpioMux pad m ∈
        Call.accesses cfg (.sf2000_lcd_panel_brightness_probe brightness cabc) := by
      intro pad hpad
      obtain ⟨m, hm⟩ := mem_configure_output cfg hpad
      exact ⟨m, List.mem_append_left _ (List.mem_append_left _ (List.mem_append_right _ hm))⟩
    have hb : Boundary cfg
        (Call.accesses cfg (.sf2000_lcd_panel_brightness_probe brightness cabc)) := by
      have hform : Boundary cfg (_ ++ ([⟨0x53, [0x2c]⟩, ⟨0x51, [brightness.setWidth 16]⟩,
          ⟨0x55, [cabc.setWidth 16]⟩].flatMap Frame.accesses ++ _)) :=
        .pins List.suffix_rfl List.suffix_rfl
      rw [← List.append_assoc] at hform
      exact hform
    have hhead : ∀ c, (Call.accesses cfg
        (.sf2000_lcd_panel_brightness_probe brightness cabc)).head? ≠ some (.write 0 c) := by
      intro c hc
      unfold Call.accesses St7789v2.sf2000_lcd_panel_brightness_probe session at hc
      cases hctl : lcd_pinmux_rgb cfg false with
      | nil => simp [hctl, lcd_configure_gpio_output_eq, busPads] at hc
      | cons a as =>
        obtain ⟨pad, m, rfl⟩ := pins_rgb cfg false a (by simp [hctl])
        simp [hctl] at hc
    have hprepared : Prepared (Call.accesses cfg
        (.sf2000_lcd_panel_brightness_probe brightness cabc)) s.hw := by
      intro _ pad hpad hnone
      obtain ⟨m, hm⟩ := hall pad hpad
      exact absurd hm (hnone m)
    exact inv_of_boundary (shape_call cfg (.sf2000_lcd_panel_brightness_probe brightness cabc)) hb
      hprepared (fun c hc => absurd hc (hhead c)) hcomplete
  | st7789v2_rorate dir =>
    have hb : Boundary cfg (Call.accesses cfg (.st7789v2_rorate dir)) := by
      have hform : Boundary cfg
          ([] ++ ([⟨0x36, [rotateData dir]⟩].flatMap Frame.accesses ++ [])) :=
        .release List.nil_suffix List.nil_suffix
      simp only [List.flatMap_singleton, List.append_nil, List.nil_append] at hform
      exact hform
    exact inv_of_boundary (shape_call cfg (.st7789v2_rorate dir)) hb
      (fun _ pad hpad _ => hclean pad hpad)
      (fun c hc => by simp [Call.accesses, st7789v2_rorate, Frame.accesses_eq] at hc) hcomplete

theorem store_mux (h : Hw) (bank : Nat) (x : BitVec 32) : (h.store bank x).mux = h.mux := by
  unfold Hw.store
  dsimp only
  split <;> rfl

theorem inv_access {s : State} {a : Access} {as : List Access} (h : Inv cfg s)
    (htodo : s.todo = a :: as) :
    Inv cfg ⟨(exec (s.hw, s.value) a).1, (exec (s.hw, s.value) a).2, as⟩ := by
  obtain ⟨hshape, hfresh, hprepared, hduring, hcomplete⟩ := h
  rw [htodo] at hshape hprepared hduring hcomplete
  have hkeep : a.isIo = true → (exec (s.hw, s.value) a).1.mux = s.hw.mux := by
    intro hio
    cases a with
    | mux | gpioMux => exact absurd hio (by simp [Access.isIo])
    | read => rfl
    | write | strobe => exact store_mux _ _ _
  have hfresh' : Fresh as (exec (s.hw, s.value) a).1 (exec (s.hw, s.value) a).2 := by
    intro c hc
    obtain rfl := hshape.fresh hc
    exact fun hv => hv
  have hprepared' : Prepared as (exec (s.hw, s.value) a).1 := by
    rintro ⟨frame, hframe⟩ pad hpad hnone
    have hold : ∀ b, a = b → (∀ m, b ≠ .gpioMux pad m) → isGpio (s.hw.mux pad) = true := by
      rintro b rfl hne
      apply hprepared ⟨frame, List.mem_cons_of_mem a hframe⟩ pad hpad
      intro m hm
      obtain heq | hm := List.mem_cons.mp hm
      · exact hne m heq.symm
      · exact hnone m hm
    cases a with
    | mux padctl m =>
      obtain ⟨m', hm'⟩ := hshape.mux ⟨frame, hframe⟩ hpad
      exact absurd hm' (hnone m')
    | gpioMux padctl m =>
      change isGpio (Function.update s.hw.mux padctl m pad) = true
      by_cases heq : pad = padctl
      · subst heq
        rw [Function.update_self]
        exact hshape.gpioMux
      · rw [Function.update_of_ne heq]
        exact hold _ rfl fun m' h => heq (by cases h; rfl)
    | read bank =>
      rw [hkeep rfl]
      exact hold _ rfl fun m h => by cases h
    | write bank c =>
      rw [hkeep rfl]
      exact hold _ rfl fun m h => by cases h
    | strobe f =>
      rw [hkeep rfl]
      exact hold _ rfl fun m h => by cases h
  exact ⟨hshape.tail, hfresh', hprepared', hduring.2, hcomplete⟩

theorem inv_vsync {s : State} (h : Inv cfg s) (hclean : Clean cfg s .vsync) :
    Inv cfg { s with hw := ((vsync_irq cfg).foldl exec (s.hw, 0)).1 } := by
  obtain ⟨hbetween, hkeeps⟩ := hclean
  have hb := h.shape.boundary hbetween
  obtain ⟨⟨fs, h', v', hrun, hlog, hsent⟩, -⟩ := hb.spec h.prepared h.fresh
  have hcomplete : Complete s.hw := by
    have hend := h.complete
    rw [hrun] at hend
    exact (complete_iff hlog hsent).mp hend
  have hframes : st7789v2_restart_frame ≠ [] := by decide
  obtain ⟨hw, hrun', hlog', hsent', hwr, hmux⟩ := session_spec cfg s.hw 0 hframes
  change Inv cfg { s with hw := (run (s.hw, 0) (session cfg st7789v2_restart_frame)).1 }
  rw [hrun']
  exact inv_of_boundary h.shape hb
    (fun hstrobe pad hpad hnone => hmux pad hpad (hkeeps hstrobe pad hpad hnone))
    (fun _ _ _ => hwr) ((complete_iff hlog' hsent').mpr hcomplete)

theorem inv_step {s s' : State} {a : Action} (h : Inv cfg s) (hclean : Clean cfg s a)
    (hstep : step cfg s a = some s') : Inv cfg s' := by
  cases a with
  | call c =>
    simp only [step] at hstep
    split at hstep
    · next htodo =>
      cases hstep
      exact inv_call h htodo hclean
    · cases hstep
  | access =>
    simp only [step] at hstep
    split at hstep
    · cases hstep
    · next a as htodo =>
      cases hstep
      exact inv_access h htodo
  | vsync =>
    cases hstep
    exact inv_vsync h hclean

/-- In a run whose steps all meet the condition, the panel takes each command followed by its own
    parameters, and misses none. -/
theorem framed_of_clean (cfg : Config) (mux : Nat → BitVec 8) (out : Nat → BitVec 32)
    (tr : List Action) (h : Lts.Meets (step cfg) (Clean cfg) (start mux out) tr) :
    Lts.Always (step cfg) Holds (start mux out) tr :=
  Lts.always_of_meets (step cfg) (fun _ => Inv.holds) (fun _ _ _ => inv_step) (inv_start mux out) h

/-- CS in the function of the RGB interface. -/
def rgbConfig : Config where
  hc16xx := false
  control_state := none
  rgb_state := some [(lcd_cs_num, 6)]

def rgbMux (padctl : Nat) : BitVec 8 := if padctl = lcd_cs_num then 6 else 0

/-- An interrupt, a probe and an interrupt before the outputs are configured again. -/
theorem framed_probe :
    Lts.Always (step rgbConfig) Holds (start rgbMux fun _ => 0xffffffff)
      [.vsync, .call (.sf2000_lcd_panel_brightness_probe 128 1), .vsync, .access] :=
  framed_of_clean rgbConfig rgbMux (fun _ => 0xffffffff) _ (by
    have hempty : Clean rgbConfig (start rgbMux fun _ => 0xffffffff) .vsync :=
      ⟨rfl, fun hstrobe => by simp [start] at hstrobe⟩
    have hall : ∀ pad ∈ busPads, ∃ m, .gpioMux pad m ∈
        sf2000_lcd_panel_brightness_probe rgbConfig 128 1 := by
      intro pad hpad
      obtain ⟨m, hm⟩ := mem_configure_output rgbConfig hpad
      exact ⟨m, List.mem_append_left _ (List.mem_append_left _ (List.mem_append_right _ hm))⟩
    refine ⟨hempty, fun s hs => ⟨trivial, fun t ht => ?_⟩⟩
    cases hs
    cases ht
    refine ⟨⟨by decide, fun _ pad hpad hnone => ?_⟩, fun _ _ => ⟨trivial, fun _ _ => trivial⟩⟩
    obtain ⟨m, hm⟩ := hall pad hpad
    exact absurd hm (hnone m))

instance (s : State) : Decidable (Holds s) := by
  unfold Holds Framed Complete
  infer_instance

/-- An interrupt between the first command of a probe and its parameter, when the pads are in GPIO
    mode. -/
theorem framed_fails :
    ¬ ∀ (cfg : Config) (mux : Nat → BitVec 8) (out : Nat → BitVec 32) (tr : List Action),
      Lts.Always (step cfg) Holds (start mux out) tr := by
  intro h
  have hrun := h rgbConfig rgbMux (fun _ => 0xffffffff)
    (.call (.sf2000_lcd_panel_brightness_probe 128 1) :: List.replicate 37 .access ++ [.vsync])
  exact absurd hrun (by decide +kernel)

end Hcrtos.Native.St7789v2
