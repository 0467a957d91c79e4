import Mathlib.Data.List.TakeWhile
import Hcrtos.Native.SndCore

/-!
# Failures of the sound core

When a callback fails, `snd_hw_params` returns its error, and takes back the selection of the very
DAI that failed. What it has done to the components before stays, so that nothing is left over
only if all of these had been selected and configured already. `snd_hw_free` overwrites what the
platform has returned as soon as there is a DAI.

## Key results

- `snd_hw_params_ret`: the error of the first callback that fails
- `addsNothing_iff`: when a failure leaves nothing over
- `snd_hw_free_success_iff`: when a release reports success
- `soundAtomic_iff`: both together
- `soundAtomic_fails`: a codec that fails behind a DAI, and a platform that does not let go
-/

namespace Hcrtos.Native.SndCore

open ErrorLoop

/-! ### The callbacks, in order -/

inductive Kind where
  | select
  | configure

/-- The callback that configures a DAI. -/
def configureCall (p : Params) (d : Dai) : List (Kind × Int) :=
  (d.hw_params.map fun hw_params =>
    (.configure, hw_params p.rate p.format p.channels p.align)).toList

/-- The callbacks of a DAI of the platform, with what they return. One without `hw_params` is not
    selected either. -/
def cpuCalls (p : Params) (d : Dai) : List (Kind × Int) :=
  match d.hw_params, d.ioctl with
  | some _, some ioctl => (.select, ioctl (.SRC_SEL p.pcm_source)) :: configureCall p d
  | _, _ => configureCall p d

/-- The callbacks of `snd_hw_params`. -/
def Platform.paramsCalls (pl : Platform) (p : Params) : List (Kind × Int) :=
  pl.dais.flatMap (cpuCalls p) ++ pl.card.dais.flatMap (configureCall p) ++
    [(.configure, pl.hw_params p)]

/-- The first callback that fails. -/
def firstFailure (calls : List (Kind × Int)) : Option (Kind × Int) := calls.find? fun c => c.2 ≠ 0

theorem firstFailure_append (xs ys : List (Kind × Int)) :
    firstFailure (xs ++ ys) = (firstFailure xs).or (firstFailure ys) := List.find?_append

/-- The calls of a loop: of each entry, the code is that of the first call that fails. -/
structure CallsOf (f : Dai → Dai × Option Int) (calls : Dai → List (Kind × Int)) : Prop where
  code : ∀ d, (firstFailure (calls d)).map Prod.snd = (f d).2.filter fun c => c ≠ 0

section

variable {f : Dai → Dai × Option Int} {calls : Dai → List (Kind × Int)}

theorem CallsOf.succeeds_iff (h : CallsOf f calls) (d : Dai) :
    Succeeds f d ↔ firstFailure (calls d) = none := by
  rw [← Option.map_eq_none_iff (f := Prod.snd), h.code d]
  unfold Succeeds
  cases (f d).2 <;> simp

/-- The first failure in a loop is that of the first entry that fails. -/
theorem CallsOf.firstFailure_flatMap (h : CallsOf f calls) (ds : List Dai) :
    firstFailure (ds.flatMap calls) =
      (ds.dropWhile fun d => decide (Succeeds f d)).head?.bind fun d => firstFailure (calls d) := by
  induction ds with
  | nil => rfl
  | cons d next ih =>
    rw [List.flatMap_cons, firstFailure_append]
    by_cases hd : Succeeds f d
    · simp [hd, (h.succeeds_iff d).mp hd, ih]
    · obtain ⟨c, hc⟩ := Option.ne_none_iff_exists'.mp fun hnone => hd ((h.succeeds_iff d).mpr hnone)
      simp [hd, hc]

theorem CallsOf.find_codes (h : CallsOf f calls) (ds : List Dai) :
    (codes f ds).find? (· ≠ 0) = (firstFailure (ds.flatMap calls)).map Prod.snd := by
  induction ds with
  | nil => rfl
  | cons d next ih =>
    rw [List.flatMap_cons, firstFailure_append]
    have hd := h.code d
    cases hc : (f d).2 with
    | none =>
      rw [hc] at hd
      rw [codes_cons_none hc, ih, Option.map_eq_none_iff.mp hd]
      rfl
    | some c =>
      rw [hc] at hd
      rw [codes_cons_some hc]
      by_cases hzero : c = 0
      · subst hzero
        rw [List.find?_cons_of_neg (by simp), ih, Option.map_eq_none_iff.mp hd]
        rfl
      · obtain ⟨failure, hfailure, rfl⟩ := Option.map_eq_some_iff.mp
          (hd.trans (by simp [hzero] : (some c).filter (fun c => decide (c ≠ 0)) = some c))
        rw [List.find?_cons_of_pos (by simpa using hzero), hfailure]
        rfl

theorem CallsOf.error_iff (h : CallsOf f calls) {ds : List Dai} {ret e : Int} :
    (forEach f ret ds).2 = .error e ↔
      (firstFailure (ds.flatMap calls)).map Prod.snd = some e := by
  rw [forEach_error_iff, h.find_codes]

/-- A loop that ends has had no failure. -/
theorem CallsOf.none_of_ok (h : CallsOf f calls) {ds : List Dai} {ret r : Int}
    (hok : (forEach f ret ds).2 = .ok r) : firstFailure (ds.flatMap calls) = none := by
  rw [← Option.map_eq_none_iff (f := Prod.snd), ← h.find_codes, List.find?_eq_none]
  intro c hc
  simp [(forEach_ok_iff.mp hok).1 c hc]

end

theorem callsOf_codec (p : Params) : CallsOf (codecParams p) (configureCall p) where
  code d := by
    unfold configureCall codecParams firstFailure
    cases d.hw_params with
    | none => rfl
    | some hw_params =>
      by_cases h : hw_params p.rate p.format p.channels p.align = 0 <;>
        simp [Dai.configure, Option.filter, h]

theorem callsOf_cpu (p : Params) : CallsOf (cpuParams p) (cpuCalls p) where
  code d := by
    unfold cpuCalls configureCall cpuParams firstFailure
    cases d.hw_params with
    | none => rfl
    | some hw_params =>
      cases d.ioctl with
      | none =>
        by_cases h : hw_params p.rate p.format p.channels p.align = 0 <;>
        simp [Dai.configure, Option.filter, h]
      | some ioctl =>
        by_cases hs : ioctl (.SRC_SEL p.pcm_source) = 0
        · by_cases h : hw_params p.rate p.format p.channels p.align = 0 <;>
            simp [Dai.configure, Dai.src_sel, Option.filter, hs, h]
        · simp [Dai.src_sel, Option.filter, hs]

/-! ### What becomes of the components -/

/-- The DAI is selected, or configured, only if it was so before. -/
structure AddsNothing (d d' : Dai) : Prop where
  selected : d'.selected = true → d.selected = true
  configured : d'.configured = true → d.configured = true

theorem AddsNothing.refl (d : Dai) : AddsNothing d d := ⟨id, id⟩

/-- The DAI was configured, and selected if it can be, or it has nothing to configure. -/
def Dai.Ready (d : Dai) : Prop :=
  d.hw_params ≠ none → d.configured = true ∧ (d.ioctl ≠ none → d.selected = true)

/-- A selection is taken back with success, or was there before. -/
def Dai.Cleared (d : Dai) : Prop :=
  ∀ ioctl, d.ioctl = some ioctl → ioctl .SRC_SEL_CLEAR = 0 ∨ d.selected = true

/-- A DAI of the platform that has succeeded. -/
theorem addsNothing_cpu_iff {p : Params} {d : Dai} (h : Succeeds (cpuParams p) d) :
    AddsNothing d (cpuParams p d).1 ↔ d.Ready := by
  unfold Succeeds at h
  unfold cpuParams at h ⊢
  unfold Dai.Ready
  cases hw : d.hw_params with
  | none => exact iff_of_true (.refl d) nofun
  | some hw_params =>
    rw [hw] at h
    cases hi : d.ioctl with
    | none =>
      simp only [hi, Dai.configure, Option.mem_def, Option.some.injEq, forall_eq'] at h
      simp only [Dai.configure, h]
      exact ⟨fun h _ => ⟨h.configured rfl, nofun⟩, fun h => ⟨id, fun _ => (h nofun).1⟩⟩
    | some ioctl =>
      rw [hi] at h
      by_cases hs : ioctl (.SRC_SEL p.pcm_source) = 0
      · by_cases hc : hw_params p.rate p.format p.channels p.align = 0
        · simp only [Dai.configure, Dai.src_sel, hs, hc]
          exact ⟨fun h _ => ⟨h.configured rfl, fun _ => h.selected rfl⟩,
            fun h => ⟨fun _ => (h nofun).2 nofun, fun _ => (h nofun).1⟩⟩
        · exact absurd (h _ (by simp [Dai.configure, Dai.src_sel, hs, hc])) hc
      · exact absurd (h _ (by simp [Dai.src_sel, hs])) hs

/-- A DAI of the platform that fails to be configured. -/
theorem addsNothing_cpu_failed {p : Params} {d : Dai} {e : Int}
    (h : firstFailure (cpuCalls p d) = some (.configure, e)) :
    AddsNothing d (cpuParams p d).1 ↔ d.Cleared := by
  unfold firstFailure cpuCalls configureCall at h
  unfold Dai.Cleared
  cases hw : d.hw_params with
  | none => simp [hw] at h
  | some hw_params =>
    rw [hw] at h
    cases hi : d.ioctl with
    | none =>
      rw [hi] at h
      have hc : hw_params p.rate p.format p.channels p.align ≠ 0 := fun hc => by simp [hc] at h
      have hsame : (cpuParams p d).1 = d := by simp [cpuParams, hw, hi, Dai.configure, hc]
      rw [hsame]
      exact iff_of_true (.refl d) nofun
    | some ioctl =>
      rw [hi] at h
      -- it has been selected, or the first failure would be that
      have hs : ioctl (.SRC_SEL p.pcm_source) = 0 := by_contra fun hs => by simp [hs] at h
      have hc : hw_params p.rate p.format p.channels p.align ≠ 0 := fun hc => by simp [hs, hc] at h
      by_cases hclear : ioctl .SRC_SEL_CLEAR = 0
      · have hcleared : (cpuParams p d).1 = { d with selected := false } := by
          simp [cpuParams, hw, hi, Dai.configure, Dai.src_sel, Dai.src_sel_clear, hs, hc, hclear]
        rw [hcleared]
        exact iff_of_true ⟨nofun, id⟩ fun _ hi => .inl (Option.some.inj hi ▸ hclear)
      · have hleft : (cpuParams p d).1 = { d with selected := true } := by
          simp [cpuParams, hw, hi, Dai.configure, Dai.src_sel, Dai.src_sel_clear, hs, hc, hclear]
        rw [hleft]
        exact ⟨fun h _ _ => .inr (h.selected rfl),
          fun h => ⟨fun _ => (h ioctl rfl).resolve_left hclear, id⟩⟩

theorem addsNothing_codec_iff {p : Params} {d : Dai} (h : Succeeds (codecParams p) d) :
    AddsNothing d (codecParams p d).1 ↔ (d.hw_params ≠ none → d.configured = true) := by
  unfold Succeeds at h
  unfold codecParams at h ⊢
  cases hw : d.hw_params with
  | none => exact iff_of_true (.refl d) nofun
  | some hw_params =>
    rw [hw] at h
    simp only [Dai.configure, Option.mem_def, Option.some.injEq, forall_eq'] at h
    simp only [Dai.configure, h]
    exact ⟨fun h _ => h.configured rfl, fun h => ⟨id, fun _ => h nofun⟩⟩

/-- A DAI of the card that fails is as it was. -/
theorem addsNothing_codec_failed {p : Params} {d : Dai} (h : ¬ Succeeds (codecParams p) d) :
    AddsNothing d (codecParams p d).1 := by
  unfold Succeeds at h
  unfold codecParams at h ⊢
  cases hw : d.hw_params with
  | none => exact .refl d
  | some hw_params =>
    rw [hw] at h
    simp only [Dai.configure, Option.mem_def, Option.some.injEq, forall_eq'] at h
    simp only [Dai.configure, h]
    exact .refl d

/-! ### `snd_hw_params` -/

/-- No component is selected or configured that was not before. -/
structure Platform.AddsNothing (pl pl' : Platform) : Prop where
  dais : List.Forall₂ SndCore.AddsNothing pl.dais pl'.dais
  card : List.Forall₂ SndCore.AddsNothing pl.card.dais pl'.card.dais
  platform : pl'.configured = true → pl.configured = true

section

variable (pl : Platform) (p : Params)

/-- The ways through `snd_hw_params`: a DAI of the platform fails, or one of the card, or the
    platform has the last word. -/
theorem snd_hw_params_cases :
    (∃ e, (forEach (cpuParams p) (-EFAULT) pl.dais).2 = .error e ∧
      pl.snd_hw_params (some p) =
        ({ pl with dais := (forEach (cpuParams p) (-EFAULT) pl.dais).1 }, e)) ∨
    ∃ ret, (forEach (cpuParams p) (-EFAULT) pl.dais).2 = .ok ret ∧
      ((∃ e, (forEach (codecParams p) ret pl.card.dais).2 = .error e ∧
        pl.snd_hw_params (some p) =
          ({ pl with
            dais := (forEach (cpuParams p) (-EFAULT) pl.dais).1
            card := ⟨(forEach (codecParams p) ret pl.card.dais).1⟩ }, e)) ∨
      ∃ ret', (forEach (codecParams p) ret pl.card.dais).2 = .ok ret' ∧
        pl.snd_hw_params (some p) =
          ({ pl with
            dais := (forEach (cpuParams p) (-EFAULT) pl.dais).1
            card := ⟨(forEach (codecParams p) ret pl.card.dais).1⟩
            configured := if pl.hw_params p = 0 then true else pl.configured },
            pl.hw_params p)) := by
  unfold Platform.snd_hw_params
  cases hcpu : (forEach (cpuParams p) (-EFAULT) pl.dais).2 with
  | error e => exact .inl ⟨e, rfl, by simp [hcpu]⟩
  | ok ret =>
    refine .inr ⟨ret, rfl, ?_⟩
    cases hcodec : (forEach (codecParams p) ret pl.card.dais).2 with
    | error e => exact .inl ⟨e, rfl, by simp [hcpu, hcodec]⟩
    | ok ret' =>
      refine .inr ⟨ret', rfl, ?_⟩
      by_cases hret : pl.hw_params p = 0 <;> simp [hcpu, hcodec, hret]

/-- A call returns the error of the first callback that fails. -/
theorem snd_hw_params_ret : (pl.snd_hw_params (some p)).2 =
    ((firstFailure (pl.paramsCalls p)).map Prod.snd).getD 0 := by
  unfold Platform.paramsCalls
  rw [firstFailure_append, firstFailure_append]
  rcases snd_hw_params_cases pl p with
    ⟨e, hcpu, heq⟩ | ⟨ret, hcpu, ⟨e, hcodec, heq⟩ | ⟨ret', hcodec, heq⟩⟩
  · obtain ⟨c, hc, rfl⟩ := Option.map_eq_some_iff.mp ((callsOf_cpu p).error_iff.mp hcpu)
    rw [heq, hc]
    rfl
  · obtain ⟨c, hc, rfl⟩ := Option.map_eq_some_iff.mp ((callsOf_codec p).error_iff.mp hcodec)
    rw [heq, (callsOf_cpu p).none_of_ok hcpu, hc]
    rfl
  · rw [heq, (callsOf_cpu p).none_of_ok hcpu, (callsOf_codec p).none_of_ok hcodec]
    by_cases hret : pl.hw_params p = 0 <;> simp [firstFailure, hret]

/-- What was handled before the callback that fails: the DAIs of the platform were ready, and so
    were those of the card if it came to them. If a DAI of the platform fails, its selection is
    taken back. -/
structure ReadyBefore : Prop where
  dais : ∀ d ∈ pl.dais.takeWhile fun d => decide (Succeeds (cpuParams p) d), d.Ready
  failed : ∀ d ∈ (pl.dais.dropWhile fun d => decide (Succeeds (cpuParams p) d)).head?, d.Cleared
  card : (∀ d ∈ pl.dais, Succeeds (cpuParams p) d) →
    ∀ d ∈ pl.card.dais.takeWhile fun d => decide (Succeeds (codecParams p) d),
      d.hw_params ≠ none → d.configured = true

/-- The DAIs of the platform, when a callback fails that configures. -/
theorem addsNothing_dais_iff {ret e : Int}
    (h : firstFailure (pl.paramsCalls p) = some (.configure, e)) :
    List.Forall₂ AddsNothing pl.dais (forEach (cpuParams p) ret pl.dais).1 ↔
      (∀ d ∈ pl.dais.takeWhile fun d => decide (Succeeds (cpuParams p) d), d.Ready) ∧
        ∀ d ∈ (pl.dais.dropWhile fun d => decide (Succeeds (cpuParams p) d)).head?,
          d.Cleared := by
  rw [forEach_forall₂_iff AddsNothing.refl]
  refine and_congr (forall₂_congr fun d hd => ?_) (forall₂_congr fun d hd => ?_)
  · have hs := List.mem_takeWhile_imp hd
    exact addsNothing_cpu_iff (of_decide_eq_true hs)
  · -- the failure is that of the first DAI that does not succeed
    have hfails : ¬ Succeeds (cpuParams p) d := by
      have hnot := List.head?_dropWhile_not (fun d => decide (Succeeds (cpuParams p) d)) pl.dais
      rw [Option.mem_def.mp hd] at hnot
      simpa using hnot
    obtain ⟨c, hc⟩ := Option.ne_none_iff_exists'.mp
      fun hnone => hfails (((callsOf_cpu p).succeeds_iff d).mpr hnone)
    unfold Platform.paramsCalls at h
    rw [firstFailure_append, firstFailure_append, (callsOf_cpu p).firstFailure_flatMap,
      Option.mem_def.mp hd] at h
    have hfirst : firstFailure (cpuCalls p d) = some (.configure, e) := by
      rw [hc]
      simpa [hc] using h
    exact addsNothing_cpu_failed hfirst

/-- The DAIs of the card. -/
theorem addsNothing_card_iff {ret : Int} :
    List.Forall₂ AddsNothing pl.card.dais (forEach (codecParams p) ret pl.card.dais).1 ↔
      ∀ d ∈ pl.card.dais.takeWhile fun d => decide (Succeeds (codecParams p) d),
        d.hw_params ≠ none → d.configured = true := by
  rw [forEach_forall₂_iff AddsNothing.refl, and_iff_left]
  · refine forall₂_congr fun d hd => ?_
    have hs := List.mem_takeWhile_imp hd
    exact addsNothing_codec_iff (of_decide_eq_true hs)
  · intro d hd
    refine addsNothing_codec_failed ?_
    have hnot := List.head?_dropWhile_not (fun d => decide (Succeeds (codecParams p) d))
      pl.card.dais
    rw [Option.mem_def.mp hd] at hnot
    simpa using hnot

/-- A failure to configure leaves nothing over exactly if everything before was ready. -/
theorem addsNothing_iff {e : Int} (h : firstFailure (pl.paramsCalls p) = some (.configure, e)) :
    pl.AddsNothing (pl.snd_hw_params (some p)).1 ↔ ReadyBefore pl p := by
  have hdais := @addsNothing_dais_iff pl p (-EFAULT) e h
  have hret := snd_hw_params_ret pl p
  rw [h] at hret
  have hcard : List.Forall₂ AddsNothing pl.card.dais pl.card.dais :=
    List.forall₂_same.mpr fun d _ => .refl d
  rcases snd_hw_params_cases pl p with
    ⟨e', hcpu, heq⟩ | ⟨ret, hcpu, ⟨e', hcodec, heq⟩ | ⟨ret', hcodec, heq⟩⟩
  · -- a DAI of the platform fails, and the card is not reached
    have hnot : ¬ ∀ d ∈ pl.dais, Succeeds (cpuParams p) d := by
      rw [forall_succeeds_iff]
      intro hall
      have hfind := forEach_error_iff.mp hcpu
      have hzero := hall e' (List.mem_of_find?_eq_some hfind)
      have hne := List.find?_some hfind
      simp [hzero] at hne
    rw [heq]
    exact ⟨fun hadds => ⟨(hdais.mp hadds.dais).1, (hdais.mp hadds.dais).2,
        fun hall => absurd hall hnot⟩,
      fun hready => ⟨hdais.mpr ⟨hready.dais, hready.failed⟩, hcard, id⟩⟩
  · have hall : ∀ d ∈ pl.dais, Succeeds (cpuParams p) d :=
      forall_succeeds_iff.mpr (forEach_ok_iff.mp hcpu).1
    have hcodecs := @addsNothing_card_iff pl p ret
    rw [heq]
    exact ⟨fun hadds => ⟨(hdais.mp hadds.dais).1, (hdais.mp hadds.dais).2,
        fun _ => hcodecs.mp hadds.card⟩,
      fun hready => ⟨hdais.mpr ⟨hready.dais, hready.failed⟩, hcodecs.mpr (hready.card hall), id⟩⟩
  · have hall : ∀ d ∈ pl.dais, Succeeds (cpuParams p) d :=
      forall_succeeds_iff.mpr (forEach_ok_iff.mp hcpu).1
    have hcodecs := @addsNothing_card_iff pl p ret
    -- the platform is the one that fails
    have hne : pl.hw_params p ≠ 0 := by
      rw [heq] at hret
      have hplatform : pl.hw_params p = e := hret
      have hfails := List.find?_some h
      rw [hplatform]
      simpa using hfails
    rw [heq]
    simp only [if_neg hne]
    exact ⟨fun hadds => ⟨(hdais.mp hadds.dais).1, (hdais.mp hadds.dais).2,
        fun _ => hcodecs.mp hadds.card⟩,
      fun hready => ⟨hdais.mpr ⟨hready.dais, hready.failed⟩, hcodecs.mpr (hready.card hall), id⟩⟩

/-! ### `snd_hw_free` -/

/-- The callbacks of `snd_hw_free`. -/
def freeCalls (d : Dai) : List Int := [d.trigger .STOP, d.hw_free]

def Platform.freeCalls : List Int :=
  [pl.trigger .STOP, pl.hw_free] ++ (pl.dais ++ pl.card.dais).flatMap SndCore.freeCalls

/-- A DAI is let go if both of its callbacks succeed. -/
theorem succeeds_daiFree_iff (d : Dai) : Succeeds daiFree d ↔ ∀ c ∈ SndCore.freeCalls d, c = 0 := by
  unfold Succeeds daiFree SndCore.freeCalls
  by_cases h : d.trigger .STOP = 0 <;> simp [h]

/-- No DAI is passed over. -/
theorem codes_daiFree_eq_nil_iff {ds : List Dai} : codes daiFree ds = [] ↔ ds = [] := by
  unfold codes daiFree
  cases ds with
  | nil => exact iff_of_true rfl rfl
  | cons d next =>
    refine iff_of_false ?_ nofun
    by_cases h : d.trigger .STOP = 0 <;> simp [h]

/-- A loop that is left from its middle has met an error. -/
theorem not_forall_succeeds_of_error {f : Dai → Dai × Option Int} {ds : List Dai} {ret e : Int}
    (h : (forEach f ret ds).2 = .error e) : e ≠ 0 ∧ ¬ ∀ d ∈ ds, Succeeds f d := by
  have hfind := forEach_error_iff.mp h
  have hne : e ≠ 0 := by simpa using List.find?_some hfind
  rw [forall_succeeds_iff]
  exact ⟨hne, fun hall => hne (hall e (List.mem_of_find?_eq_some hfind))⟩

/-- A release succeeds when the platform stops and all DAIs let go; what the platform's own release
    returns only counts if there are none. -/
theorem snd_hw_free_success_iff : pl.snd_hw_free.2 = 0 ↔
    pl.trigger .STOP = 0 ∧ (∀ d ∈ pl.dais ++ pl.card.dais, Succeeds daiFree d) ∧
      (pl.dais ++ pl.card.dais = [] → pl.hw_free = 0) := by
  unfold Platform.snd_hw_free
  by_cases hstop : pl.trigger .STOP = 0
  swap
  · simp [hstop]
  simp only [hstop, ne_eq, not_true, if_false, true_and]
  have hdais : (if pl.hw_free = 0 then { pl with configured := false } else pl).dais = pl.dais := by
    split <;> rfl
  have hcard : (if pl.hw_free = 0 then { pl with configured := false } else pl).card = pl.card := by
    split <;> rfl
  rw [hdais, hcard, List.forall_mem_append, List.append_eq_nil_iff]
  cases hcpu : (forEach daiFree pl.hw_free pl.dais).2 with
  | error e =>
    obtain ⟨hne, hnot⟩ := not_forall_succeeds_of_error hcpu
    exact iff_of_false hne fun h => hnot h.1.1
  | ok r =>
    obtain ⟨hall, hr⟩ := forEach_ok_iff.mp hcpu
    rw [← forall_succeeds_iff] at hall
    simp only [codes_daiFree_eq_nil_iff] at hr
    dsimp only
    cases hcodec : (forEach daiFree r pl.card.dais).2 with
    | error e =>
      obtain ⟨hne, hnot⟩ := not_forall_succeeds_of_error hcodec
      exact iff_of_false hne fun h => hnot h.1.2
    | ok r' =>
      obtain ⟨hall', hr'⟩ := forEach_ok_iff.mp hcodec
      rw [← forall_succeeds_iff] at hall'
      simp only [codes_daiFree_eq_nil_iff] at hr'
      -- the last word is the platform's only without a DAI
      by_cases hnil : pl.dais = [] <;> by_cases hnil' : pl.card.dais = [] <;>
        simp_all

/-! ### Both -/

/-- The first callback that fails to configure gives its error to the caller, and leaves nothing
    over. -/
def ParamsAtomic : Prop :=
  ∀ e, firstFailure (pl.paramsCalls p) = some (.configure, e) →
    (pl.snd_hw_params (some p)).2 = e ∧ pl.AddsNothing (pl.snd_hw_params (some p)).1

/-- A release returns zero exactly if all of its callbacks have. -/
def FreeReports : Prop := pl.snd_hw_free.2 = 0 ↔ ∀ c ∈ pl.freeCalls, c = 0

/-- Whatever a call has gone through before a callback fails was ready. -/
def ReadyAtFailure : Prop :=
  ∀ e, firstFailure (pl.paramsCalls p) = some (.configure, e) → ReadyBefore pl p

/-- The platform is released, or there is no DAI, or something else fails. -/
def ReleaseSeen : Prop :=
  pl.hw_free = 0 ∨ pl.dais ++ pl.card.dais = [] ∨ pl.trigger .STOP ≠ 0 ∨
    ∃ d ∈ pl.dais ++ pl.card.dais, ∃ c ∈ SndCore.freeCalls d, c ≠ 0

theorem paramsAtomic_iff : ParamsAtomic pl p ↔ ReadyAtFailure pl p := by
  refine forall₂_congr fun e h => ?_
  have hret : (pl.snd_hw_params (some p)).2 = e := by
    rw [snd_hw_params_ret, h]
    rfl
  rw [and_iff_right hret]
  exact addsNothing_iff pl p h

theorem freeReports_iff : FreeReports pl ↔ ReleaseSeen pl := by
  have hcalls : (∀ c ∈ pl.freeCalls, c = 0) ↔ pl.trigger .STOP = 0 ∧ pl.hw_free = 0 ∧
      ∀ d ∈ pl.dais ++ pl.card.dais, ∀ c ∈ SndCore.freeCalls d, c = 0 := by
    unfold Platform.freeCalls
    simp only [List.forall_mem_append, List.forall_mem_flatMap, List.forall_mem_cons, and_assoc]
    simp
  unfold FreeReports ReleaseSeen
  rw [snd_hw_free_success_iff, hcalls]
  simp only [succeeds_daiFree_iff]
  generalize pl.dais ++ pl.card.dais = ds
  have hex : (∃ d ∈ ds, ∃ c ∈ SndCore.freeCalls d, c ≠ 0) ↔
      ¬ ∀ d ∈ ds, ∀ c ∈ SndCore.freeCalls d, c = 0 := by
    simp only [not_forall, exists_prop]
  rw [hex]
  by_cases hfree : pl.hw_free = 0
  · simp [hfree]
  · tauto

/-- The topologies, parameters and callbacks for which both are as they should be. -/
theorem soundAtomic_iff : ParamsAtomic pl p ∧ FreeReports pl ↔
    ReadyAtFailure pl p ∧ ReleaseSeen pl :=
  and_congr (paramsAtomic_iff pl p) (freeReports_iff pl)

end

/-- A DAI that can be selected, behind it a codec that cannot be configured, and a platform that
    does not let go. -/
def exampleDai : Dai := ⟨some fun _ _ _ _ => 0, 0, fun _ => 0, some fun _ => 0, false, false⟩
def exampleCodec : Dai := ⟨some fun _ _ _ _ => -5, 0, fun _ => 0, none, false, false⟩
def examplePlatform : Platform :=
  ⟨[exampleDai], ⟨[exampleCodec]⟩, fun _ => 0, -5, fun _ => 0, false⟩
def exampleParams : Params := ⟨48000, 2, 2, 0, 0⟩

/-- The DAI stays selected and configured, and the failure to let go is not reported. -/
theorem soundAtomic_fails : ¬ ParamsAtomic examplePlatform exampleParams ∧
    examplePlatform.snd_hw_free.2 = 0 ∧ ¬ FreeReports examplePlatform := by
  refine ⟨fun h => ?_, rfl, fun h => ?_⟩
  · have hdais := (h (-5) rfl).2.dais
    have hadds := (List.forall₂_cons.mp hdais).1
    exact absurd (hadds.selected rfl) (by decide)
  · have hfree := h.mp rfl (-5) (by decide)
    exact absurd hfree (by decide)

end Hcrtos.Native.SndCore
