import Hcrtos.Native.Hcfb
import Hcrtos.Spec.HcfbContainment

/-!
# Mode changes that fail

`fb_set_var` puts the old settings back when the driver fails, and the driver only fails when
there is no memory for the new buffer. By then it has stored the new length of a line and the
new colour format, and it has given the old buffer back.

## Key results

- `fb_fb_set_var`: on the settings of the display, the call is that of `Fb`
- `hcfb_set_par_fails`: when the driver fails, and what it leaves
- `fb_set_var_kept_iff`: the calls that change nothing when they fail
- `fb_set_var_fails`: a larger screen without memory for it
-/

namespace Hcrtos.Native.Hcfb

/-- The settings, the length of a line, the format and the frame buffer are the old ones. -/
structure Kept (s t : Info) : Prop where
  var : t.fb.var = s.fb.var
  line_length : t.fb.line_length = s.fb.line_length
  color_format : t.fb.color_format = s.fb.color_format
  fb_mem : t.fb.fb_mem = s.fb.fb_mem
  fb_len : t.fb.fb_len = s.fb.fb_len
  smem_start : t.smem_start = s.smem_start
  smem_len : t.smem_len = s.smem_len
  screen_base : t.screen_base = s.screen_base
  screen_size : t.screen_size = s.screen_size
  contents : ∀ p ∈ s.fb.fb_mem, ∀ i < s.fb.fb_len, t.memory (p + i) = s.memory (p + i)

/-- The mode of `v` is not that of the display, and it needs a buffer of another length from the
    allocator. -/
structure Fb.Asks (s : Fb) (v : Var) : Prop where
  mode : s.sameMode v = false
  ne_none : s.buffer_source ≠ .none
  ne_static : s.buffer_source ≠ .static
  length : s.fb_mem.isSome → Fb.layer_size { s with var := v } ≠ s.fb_len

/-- The length of a line and the format of `v` are stored already, and there is no buffer. -/
structure Fb.Bare (s : Fb) (v : Var) : Prop where
  fb_mem : s.fb_mem = none
  line_length : s.line_length = v.lineBytes.toUInt16.toUInt32
  color_format : s.color_format = hcfb_set_color_format s.color_format v

/-- The condition of a call: new settings that are accepted and need memory get it, or there is
    nothing to lose. -/
def KeepsOnError (s : Fb) (var : Var) (mem : Option UInt32) : Prop :=
  s.var ≠ var → ∀ v ∈ hcfb_check_var var, s.Asks v → mem = none → s.Bare v

/-! ### The settings of the display -/

section

variable (s : Info)

theorem fb_dropMem : s.dropMem.fb = s.fb.dropMem := by
  rw [Info.dropMem]
  split
  · rfl
  · rename_i hmem
    rw [Fb.dropMem, if_neg hmem]

theorem fb_hcfb_alloc_mem (mem : Option UInt32) :
    ((s.hcfb_alloc_mem mem).1.fb, (s.hcfb_alloc_mem mem).2) = s.fb.hcfb_alloc_mem mem := by
  have hdrop := fb_dropMem { s with fb := s.fb.storePitch }
  have htaken (p len : UInt32) := congrArg
    (fun t : Fb => ({ t with fb_mem := some p, fb_len := len }, true)) hdrop
  unfold Info.hcfb_alloc_mem
  by_cases hkept : s.fb.buffer_source = .none ∨ s.fb.fb_mem.isSome ∧ s.fb.layer_size = s.fb.fb_len
  · rw [if_pos hkept]
    exact (if_pos hkept).symm
  rw [if_neg hkept]
  refine Eq.trans ?_ (if_neg hkept).symm
  by_cases hstatic : s.fb.buffer_source = .static
  · rw [if_pos hstatic]
    exact (htaken _ _).trans (if_pos hstatic).symm
  rw [if_neg hstatic]
  refine Eq.trans ?_ (if_neg hstatic).symm
  cases mem with
  | none => exact congrArg (·, false) hdrop
  | some p => exact htaken p s.fb.layer_size

theorem fb_hcfb_set_par (mem : Option UInt32) :
    ((s.hcfb_set_par mem).1.fb, (s.hcfb_set_par mem).2) = s.fb.hcfb_set_par mem := by
  rcases halloc : Info.hcfb_alloc_mem { s with fb := s.fb.prepareMode } mem with ⟨t, ok⟩
  have hfb := fb_hcfb_alloc_mem { s with fb := s.fb.prepareMode } mem
  rw [halloc] at hfb
  dsimp only [Fb.prepareMode] at hfb
  rw [Info.hcfb_set_par, Fb.hcfb_set_par, halloc]
  by_cases hsame : s.fb.sameMode s.fb.var
  · rw [if_pos hsame]
    exact (if_pos hsame).symm
  · rw [if_neg hsame]
    refine Eq.trans ?_ (if_neg hsame).symm
    dsimp only
    rw [← hfb]
    cases ok <;> rfl

theorem fb_fb_set_var (var : Var) (mem : Option UInt32) :
    ((s.fb_set_var var mem).1.fb, (s.fb_set_var var mem).2) = s.fb.fb_set_var var mem := by
  rw [Info.fb_set_var, Fb.fb_set_var]
  split
  · rfl
  cases hcfb_check_var var with
  | none => rfl
  | some v =>
    dsimp only
    rw [← fb_hcfb_set_par { s with fb := { s.fb with var := v } }]
    rcases Info.hcfb_set_par { s with fb := { s.fb with var := v } } mem with ⟨t, ok⟩
    cases ok <;> rfl

end

/-! ### The failure -/

/-- A mode that is prepared has the buffer of the old one. -/
theorem prepareMode_buffer (s : Fb) : s.prepareMode.buffer_source = s.buffer_source ∧
    s.prepareMode.fb_mem = s.fb_mem ∧ s.prepareMode.fb_len = s.fb_len ∧
    s.prepareMode.layer_size = s.layer_size ∧ s.prepareMode.var = s.var := by
  rw [Fb.prepareMode]
  dsimp only
  split <;> exact ⟨rfl, rfl, rfl, rfl, rfl⟩

theorem prepareMode_color_format (s : Fb) :
    s.prepareMode.color_format = hcfb_set_color_format s.color_format s.var := by
  rw [Fb.prepareMode]
  dsimp only
  split <;> rfl

theorem hcfb_alloc_mem_of_asks {s : Info} (hnone : s.fb.buffer_source ≠ .none)
    (hstatic : s.fb.buffer_source ≠ .static)
    (hlength : s.fb.fb_mem.isSome → s.fb.layer_size ≠ s.fb.fb_len) :
    s.hcfb_alloc_mem none = (Info.dropMem { s with fb := s.fb.storePitch }, false) := by
  have hkeep : ¬ (s.fb.buffer_source = .none ∨
      s.fb.fb_mem.isSome ∧ s.fb.layer_size = s.fb.fb_len) := by
    rintro (h | ⟨hmem, hlen⟩)
    · exact hnone h
    · exact hlength hmem hlen
  unfold Info.hcfb_alloc_mem
  dsimp only
  rw [if_neg hkeep, if_neg hstatic]

theorem hcfb_alloc_mem_fails {s : Info} {mem : Option UInt32} (h : (s.hcfb_alloc_mem mem).2 = false) :
    s.fb.buffer_source ≠ .none ∧ s.fb.buffer_source ≠ .static ∧
      (s.fb.fb_mem.isSome → s.fb.layer_size ≠ s.fb.fb_len) ∧ mem = none := by
  unfold Info.hcfb_alloc_mem at h
  dsimp only at h
  split at h
  · contradiction
  rename_i hkeep
  rw [not_or, not_and] at hkeep
  split at h
  · contradiction
  rename_i hstatic
  cases mem with
  | none => exact ⟨hkeep.1, hstatic, hkeep.2, rfl⟩
  | some p => contradiction

/-- The driver fails when the new mode asks for memory in vain. The old buffer is gone by then. -/
theorem hcfb_set_par_of_asks {s : Info} (h : s.fb.Asks s.fb.var) :
    s.hcfb_set_par none = (Info.dropMem { s with fb := s.fb.prepareMode.storePitch }, false) := by
  obtain ⟨hsource, hmem, hlen, hsize, -⟩ := prepareMode_buffer s.fb
  have halloc := @hcfb_alloc_mem_of_asks { s with fb := s.fb.prepareMode }
    (hsource ▸ h.ne_none) (hsource ▸ h.ne_static) (by
      dsimp only
      rw [hmem, hlen, hsize]
      exact h.length)
  rw [Info.hcfb_set_par, if_neg (by rw [h.mode]; exact Bool.false_ne_true), halloc]

theorem hcfb_set_par_fails {s : Info} {mem : Option UInt32} (h : (s.hcfb_set_par mem).2 = false) :
    s.fb.Asks s.fb.var ∧ mem = none := by
  rw [Info.hcfb_set_par] at h
  split at h
  · contradiction
  rename_i hmode
  obtain ⟨hsource, hmem, hlen, hsize, -⟩ := prepareMode_buffer s.fb
  have hfail : (Info.hcfb_alloc_mem { s with fb := s.fb.prepareMode } mem).2 = false := by
    revert h
    rcases Info.hcfb_alloc_mem { s with fb := s.fb.prepareMode } mem with ⟨t, ok⟩
    intro h
    cases ok with
    | false => rfl
    | true => exact h
  obtain ⟨hnone, hstatic, hlength, rfl⟩ := hcfb_alloc_mem_fails hfail
  dsimp only at hnone hstatic hlength
  rw [hsource] at hnone hstatic
  rw [hmem, hlen, hsize] at hlength
  exact ⟨⟨Bool.eq_false_iff.mpr hmode, hnone, hstatic, hlength⟩, rfl⟩

/-- What is left when there is no memory for the settings `v`. -/
def Info.bereft (s : Info) (v : Var) : Info :=
  Info.dropMem { s with fb := (Fb.prepareMode { s.fb with var := v }).storePitch }

/-- The settings that are asked for do not matter to what the old mode is compared with. -/
theorem Fb.Asks.withVar {s : Fb} {v : Var} (h : s.Asks v) : Fb.Asks { s with var := v } v :=
  ⟨h.mode, h.ne_none, h.ne_static, h.length⟩

theorem fb_set_var_of_asks {s : Info} {var v : Var} (hne : s.fb.var ≠ var)
    (hcheck : hcfb_check_var var = some v) (h : s.fb.Asks v) :
    s.fb_set_var var none =
      ({ s.bereft v with fb := { (s.bereft v).fb with var := s.fb.var } }, false) := by
  have hpar := @hcfb_set_par_of_asks { s with fb := { s.fb with var := v } } h.withVar
  rw [Info.fb_set_var, if_neg hne, hcheck]
  dsimp only at hpar ⊢
  rw [hpar]
  rfl

theorem fb_bereft (s : Info) (v : Var) :
    (s.bereft v).fb = ((Fb.prepareMode { s.fb with var := v }).storePitch).dropMem :=
  fb_dropMem _

theorem bereft_fb_mem (s : Info) (v : Var) : (s.bereft v).fb.fb_mem = none := by
  rw [fb_bereft, Fb.dropMem]
  split
  · rfl
  · rename_i hmem
    rwa [Option.not_isSome_iff_eq_none] at hmem

theorem bereft_line_length (s : Info) (v : Var) :
    (s.bereft v).fb.line_length = v.lineBytes.toUInt16.toUInt32 := by
  obtain ⟨-, -, -, -, hvar⟩ := prepareMode_buffer { s.fb with var := v }
  have hpitch : (Fb.prepareMode { s.fb with var := v }).storePitch.line_length =
      (Fb.prepareMode { s.fb with var := v }).var.lineBytes.toUInt16.toUInt32 := rfl
  rw [hvar] at hpitch
  rw [fb_bereft, Fb.dropMem]
  split <;> exact hpitch

theorem bereft_color_format (s : Info) (v : Var) :
    (s.bereft v).fb.color_format = hcfb_set_color_format s.fb.color_format v := by
  have hformat := prepareMode_color_format { s.fb with var := v }
  rw [fb_bereft, Fb.dropMem]
  split <;> exact hformat

/-- Without a buffer nothing is given back. -/
theorem bereft_of_none {s : Info} {v : Var} (h : s.fb.fb_mem = none) :
    s.bereft v = { s with fb := (Fb.prepareMode { s.fb with var := v }).storePitch } := by
  obtain ⟨-, hmem, -⟩ := prepareMode_buffer { s.fb with var := v }
  have hnone : (Fb.prepareMode { s.fb with var := v }).storePitch.fb_mem = none := hmem.trans h
  rw [Info.bereft, Info.dropMem, if_neg]
  rw [hnone]
  exact Bool.false_ne_true

theorem Fb.Bare.kept {s : Info} {v : Var} (h : s.fb.Bare v) :
    Kept s { s.bereft v with fb := { (s.bereft v).fb with var := s.fb.var } } where
  var := rfl
  line_length := (bereft_line_length s v).trans h.line_length.symm
  color_format := (bereft_color_format s v).trans h.color_format.symm
  fb_mem := (bereft_fb_mem s v).trans h.fb_mem.symm
  fb_len := by
    obtain ⟨-, -, hlen, -⟩ := prepareMode_buffer { s.fb with var := v }
    rw [bereft_of_none h.fb_mem]
    exact hlen
  smem_start := by rw [bereft_of_none h.fb_mem]
  smem_len := by rw [bereft_of_none h.fb_mem]
  screen_base := by rw [bereft_of_none h.fb_mem]
  screen_size := by rw [bereft_of_none h.fb_mem]
  contents := fun p hp => by
    rw [h.fb_mem] at hp
    cases hp

theorem Kept.refl (s : Info) : Kept s s :=
  ⟨rfl, rfl, rfl, rfl, rfl, rfl, rfl, rfl, rfl, fun _ _ _ _ => rfl⟩

/-- The calls that leave everything as it was when they fail. -/
theorem fb_set_var_kept_iff (s : Info) (var : Var) (mem : Option UInt32) :
    ((s.fb_set_var var mem).2 = false → Kept s (s.fb_set_var var mem).1) ↔
      KeepsOnError s.fb var mem := by
  constructor
  · intro hkept hne v hcheck hasks hmem
    subst hmem
    rw [fb_set_var_of_asks hne hcheck hasks] at hkept
    have h := hkept rfl
    exact ⟨h.fb_mem.symm.trans (bereft_fb_mem s v), h.line_length.symm.trans (bereft_line_length s v),
      h.color_format.symm.trans (bereft_color_format s v)⟩
  · intro hkeeps hfail
    by_cases hvar : s.fb.var = var
    · rw [Info.fb_set_var, if_pos hvar] at hfail
      contradiction
    cases hcheck : hcfb_check_var var with
    | none =>
      -- refused settings are not stored
      rw [Info.fb_set_var, if_neg hvar, hcheck]
      exact Kept.refl s
    | some v =>
      obtain ⟨hasks, rfl⟩ : s.fb.Asks v ∧ mem = none := by
        rw [Info.fb_set_var, if_neg hvar, hcheck] at hfail
        have hpar : (Info.hcfb_set_par { s with fb := { s.fb with var := v } } mem).2 = false := by
          dsimp only at hfail
          revert hfail
          rcases Info.hcfb_set_par { s with fb := { s.fb with var := v } } mem with ⟨t, ok⟩
          intro hfail
          cases ok with
          | false => rfl
          | true => exact hfail
        obtain ⟨⟨hmode, hnone, hstatic, hlength⟩, hmem⟩ := hcfb_set_par_fails hpar
        exact ⟨⟨hmode, hnone, hstatic, hlength⟩, hmem⟩
      rw [fb_set_var_of_asks hvar hcheck hasks]
      exact (hkeeps hvar v hcheck hasks rfl).kept

/-- The buffer of the default screen is gone when a larger screen finds no memory. -/
theorem fb_set_var_fails : ∃ (s₀ : Fb) (s : Info), hcfb_probe defaultNode (some 0x80100000) = some s₀ ∧
    step s₀ (.openDev none) = some s.fb ∧
    ¬ ((s.fb_set_var { defaultNode.var with yres_virtual := 1440, yres := 1080 } none).2 = false →
      Kept s (s.fb_set_var { defaultNode.var with yres_virtual := 1440, yres := 1080 } none).1) := by
  refine ⟨_, ⟨_, 0x100000, 3686400, some 0x80100000, 3686400, fun _ => 0⟩, rfl, rfl, fun h => ?_⟩
  have hkept := (h (by decide +kernel)).fb_mem
  revert hkept
  decide +kernel

end Hcrtos.Native.Hcfb
