import Hcrtos.Spec.UartReceiveCorrect

/-!
# The count that `sci_read` returns

One call of `sci_read` is followed from its start to its return, whatever arrives and however the
handler runs in between. The bytes that the call takes from the ring are collected along the way
and compared with the count and with the buffer.

## Key results

- `progress_step`: what one step does to the buffer of the call
- `read_count_iff`: the count is that of the bytes taken exactly when the call never gives up on
  a single byte
- `read_count_fails`: a read of one byte on a silent line
-/

namespace Hcrtos.Native.UartReceive

open Lts

/-- The byte that a step takes from the ring. -/
def fetchedBy (s : State) : Action → List UInt8
  | .task =>
    match s.isr, s.call with
    | .idle, some c => if c.stage = .fetch then [s.rx_buf s.rx_rd] else []
    | _, _ => []
  | _ => []

/-- The bytes that the steps of a run take from the ring. -/
def taken : State → List Action → List UInt8
  | _, [] => []
  | s, a :: tr => fetchedBy s a ++ (step s a).elim [] fun s' => taken s' tr

/-- What the next step of the call returns, if it is the last one. -/
def Call.returns (c : Call) : Option Nat :=
  match c.stage with
  | .loop => if c.index < c.buffer.length then none else some c.index
  | .asleep cnt => if cnt > 100 ∧ c.buffer.length ≠ 1 then some c.index else none
  | _ => none

/-- A positive count `n` is that of the bytes that were taken, which are the first `n` of the
    buffer; behind them the buffer is as the caller passed it. -/
def CountExact (passed buffer bytes : List UInt8) (n : Nat) : Prop :=
  0 < n → bytes.length = n ∧ buffer.take n = bytes ∧ buffer.drop n = passed.drop n

instance (passed buffer bytes : List UInt8) (n : Nat) :
    Decidable (CountExact passed buffer bytes n) := inferInstanceAs (Decidable (_ → _))

theorem sci_read_of_returns {s : State} {c : Call} {n : Nat} (h : c.returns = some n) :
    sci_read s c = ret s c n := by
  unfold Call.returns at h
  cases hstage : c.stage with
  | loop =>
    simp only [hstage] at h
    split at h
    · cases h
    · rename_i hge
      cases h
      simp [sci_read, hstage, hge]
  | asleep cnt =>
    simp only [hstage] at h
    split at h
    · rename_i hlast
      cases h
      simp [sci_read, hstage, hlast.1, hlast.2]
    · cases h
  | check cnt => simp [hstage] at h
  | fetch => simp [hstage] at h
  | wrap => simp [hstage] at h

/-! ### A call that does not give up -/

/-- The call has put the bytes it took in front of the rest of the buffer that was passed. -/
structure Progress (passed bytes : List UInt8) (c : Call) : Prop where
  buffer : c.buffer = bytes ++ passed.drop bytes.length
  count : bytes.length = if c.stage = .wrap then c.index + 1 else c.index
  index_lt : c.stage ≠ .loop → c.index < passed.length
  index_le : c.index ≤ passed.length

/-- The call gave up on its single byte, and counted it. -/
structure GaveUp (passed bytes : List UInt8) (c : Call) : Prop where
  stage : c.stage = .loop
  index : c.index = 1
  length : c.buffer.length = 1
  bytes : bytes = []

theorem Progress.length {passed bytes : List UInt8} {c : Call} (h : Progress passed bytes c) :
    c.buffer.length = passed.length := by
  have hcount := h.count
  have hle : bytes.length ≤ passed.length := by
    split at hcount
    · rename_i hstage
      have := h.index_lt (by simp [hstage])
      omega
    · rw [hcount]
      exact h.index_le
  rw [h.buffer]
  simp
  omega

/-- The reader goes on with the call. -/
theorem progress_sci_read {s : State} {passed bytes : List UInt8} {c c' : Call}
    (h : Progress passed bytes c) (hc' : (sci_read s c).call = some c')
    (hgive : ∀ cnt > 100, c.stage = .asleep cnt → c.buffer.length ≠ 1) :
    Progress passed (bytes ++ if c.stage = .fetch then [s.rx_buf s.rx_rd] else []) c' := by
  have hcount := h.count
  have hlength := h.length
  cases hstage : c.stage with
  | loop =>
    have hnil : (if Stage.loop = .fetch then [s.rx_buf s.rx_rd] else []) = [] := if_neg (by simp)
    by_cases hlt : c.index < c.buffer.length
    · simp only [sci_read, hstage, hlt, if_true, Option.some.injEq] at hc'
      subst hc'
      simp only [hstage] at hcount
      rw [hnil, List.append_nil]
      exact ⟨h.buffer, by simpa using hcount, fun _ => hlength ▸ hlt, h.index_le⟩
    · simp [sci_read, hstage, hlt, ret] at hc'
  | check cnt =>
    have hnil : (if Stage.check cnt = .fetch then [s.rx_buf s.rx_rd] else []) = [] :=
      if_neg (by simp)
    have hindex := h.index_lt (by simp [hstage])
    simp only [hstage] at hcount
    rw [hnil, List.append_nil]
    simp only [sci_read, hstage] at hc'
    split at hc' <;> cases hc' <;>
      exact ⟨h.buffer, by simpa using hcount, fun _ => hindex, h.index_le⟩
  | asleep cnt =>
    have hnil : (if Stage.asleep cnt = .fetch then [s.rx_buf s.rx_rd] else []) = [] :=
      if_neg (by simp)
    have hindex := h.index_lt (by simp [hstage])
    simp only [hstage] at hcount
    rw [hnil, List.append_nil]
    by_cases hcnt : cnt > 100
    · -- the call returns, as it is not one of a single byte
      simp [sci_read, hstage, hcnt, hgive cnt hcnt hstage, ret] at hc'
    · simp only [sci_read, hstage, hcnt, if_false, Option.some.injEq] at hc'
      subst hc'
      exact ⟨h.buffer, by simpa using hcount, fun _ => hindex, h.index_le⟩
  | fetch =>
    have hindex := h.index_lt (by simp [hstage])
    simp only [hstage] at hcount
    simp only [sci_read, hstage, Option.some.injEq] at hc'
    subst hc'
    have hbytes : bytes.length = c.index := by simpa using hcount
    refine ⟨?_, by simp [hbytes], fun _ => hindex, h.index_le⟩
    -- the byte goes behind those that were taken before
    show c.buffer.set c.index _ = _
    rw [h.buffer, ← hbytes, List.set_append_right _ _ (Nat.le_refl _), Nat.sub_self]
    rw [← hbytes] at hindex
    rw [List.drop_eq_getElem_cons hindex, List.set_cons_zero]
    simp
  | wrap =>
    have hnil : (if Stage.wrap = .fetch then [s.rx_buf s.rx_rd] else []) = [] := if_neg (by simp)
    have hindex := h.index_lt (by simp [hstage])
    simp only [hstage] at hcount
    simp only [sci_read, hstage, Option.some.injEq] at hc'
    subst hc'
    rw [hnil, List.append_nil]
    exact ⟨h.buffer, by simpa using hcount, fun hne => absurd rfl hne, hindex⟩

/-- A read of a single byte that gives up counts it. -/
theorem gaveUp_sci_read {s : State} {passed bytes : List UInt8} {c c' : Call} {cnt : Nat}
    (h : Progress passed bytes c) (hc' : (sci_read s c).call = some c')
    (hcnt : cnt > 100) (hstage : c.stage = .asleep cnt) (hone : c.buffer.length = 1) :
    GaveUp passed bytes c' := by
  have hindex := h.index_lt (by simp [hstage])
  have hcount := h.count
  have hlength := h.length
  simp only [sci_read, hstage, hcnt, hone, if_true, Option.some.injEq] at hc'
  subst hc'
  have hzero : c.index = 0 := by omega
  refine ⟨rfl, by simp [hzero], hone, ?_⟩
  rw [← List.length_eq_zero_iff, hcount, if_neg (by simp [hstage]), hzero]

/-- A step other than a call of `sci_read` or a step of the reader leaves the call alone. -/
theorem call_of_not_task {s s' : State} {a : Action} (hs : step s a = some s') (htask : a ≠ .task)
    (hread : ∀ b, a ≠ .read b) : s'.call = s.call := by
  cases a with
  | receive byte =>
    cases hs
    rfl
  | interrupt =>
    simp only [step] at hs
    split at hs
    · cases hs
      rfl
    · cases hs
  | isr uiir dr =>
    simp only [step, sci_isr] at hs
    split at hs
    · cases hs
    · cases hs
      rfl
    · split at hs <;> cases hs <;> rfl
    · split at hs <;> cases hs <;> rfl
    · split at hs <;> cases hs <;> rfl
  | read b => exact absurd rfl (hread b)
  | task => exact absurd rfl htask

/-- One step of a run during the call. -/
theorem progress_step {s s' : State} {a : Action} {passed bytes : List UInt8} {c c' : Call}
    (h : Progress passed bytes c) (hc : s.call = some c) (hs : step s a = some s')
    (hread : ∀ b, a ≠ .read b) (hc' : s'.call = some c') :
    (NoGiveUp s a → Progress passed (bytes ++ fetchedBy s a) c') ∧
      (¬ NoGiveUp s a → GaveUp passed (bytes ++ fetchedBy s a) c') := by
  by_cases htask : a = .task
  · subst htask
    simp only [step] at hs
    split at hs
    · rename_i d hidle hd
      obtain rfl : c = d := Option.some.inj (hc.symm.trans hd)
      cases hs
      have hfetched : fetchedBy s .task = if c.stage = .fetch then [s.rx_buf s.rx_rd] else [] := by
        simp [fetchedBy, hidle, hc]
      rw [hfetched]
      constructor
      · intro hgive
        exact progress_sci_read h hc' fun cnt hcnt => hgive c hc cnt hcnt hidle
      · intro hgive
        simp only [NoGiveUp, not_forall, not_not] at hgive
        obtain ⟨d, hd, cnt, hcnt, -, hstage, hone⟩ := hgive
        obtain rfl : c = d := Option.some.inj (hc.symm.trans hd)
        rw [if_neg (by simp [hstage]), List.append_nil]
        exact gaveUp_sci_read h hc' hcnt hstage hone
    · cases hs
  · have hcall := call_of_not_task hs htask hread
    obtain rfl : c' = c := by
      rw [hc', hc] at hcall
      exact Option.some.inj hcall
    have hfetched : fetchedBy s a = [] := by
      cases a with
      | task => exact absurd rfl htask
      | _ => rfl
    have hgive : NoGiveUp s a := by
      cases a with
      | task => exact absurd rfl htask
      | _ => trivial
    rw [hfetched, List.append_nil]
    exact ⟨fun _ => h, fun hno => absurd hgive hno⟩

/-! ### The whole call -/

/-- A returned call stays returned until `sci_read` is called again. -/
theorem call_none_run {tr : List Action} (htr : ∀ a ∈ tr, ∀ b, a ≠ .read b) :
    ∀ {s s' : State}, s.call = none → run step s tr = some s' → s'.call = none := by
  induction tr with
  | nil =>
    intro s s' hc hrun
    cases hrun
    exact hc
  | cons a tr ih =>
    intro s s' hc hrun
    obtain ⟨t, hs, hrun⟩ := (run_cons_some step).mp hrun
    refine ih (fun b hb => htr b (List.mem_cons_of_mem a hb)) ?_ hrun
    have htask : a ≠ .task := by
      rintro rfl
      simp [step, hc] at hs
    rw [call_of_not_task hs htask (htr a List.mem_cons_self), hc]

/-- A call that gave up keeps its count of one to the end, and takes nothing any more. -/
theorem gaveUp_run {tr : List Action} (htr : ∀ a ∈ tr, ∀ b, a ≠ .read b)
    {passed bytes : List UInt8} :
    ∀ {s s' : State} {c c' : Call}, GaveUp passed bytes c → s.call = some c →
      run step s tr = some s' → s'.call = some c' → c' = c ∧ taken s tr = [] := by
  induction tr with
  | nil =>
    intro s s' c c' _ hc hrun hc'
    cases hrun
    rw [hc'] at hc
    exact ⟨Option.some.inj hc, rfl⟩
  | cons a tr ih =>
    intro s s' c c' h hc hrun hc'
    obtain ⟨t, hs, hrun⟩ := (run_cons_some step).mp hrun
    have htr' : ∀ b ∈ tr, ∀ passed, b ≠ .read passed :=
      fun b hb => htr b (List.mem_cons_of_mem a hb)
    by_cases htask : a = .task
    · -- the next step of the reader returns
      subst htask
      have hreturns : c.returns = some 1 := by
        simp [Call.returns, h.stage, h.index, h.length]
      simp only [step] at hs
      split at hs
      · rename_i d _ hd
        obtain rfl : c = d := Option.some.inj (hc.symm.trans hd)
        cases hs
        have hnone := call_none_run htr' (by rw [sci_read_of_returns hreturns]; rfl) hrun
        rw [hnone] at hc'
        cases hc'
      · cases hs
    · have hcall := call_of_not_task hs htask (htr a List.mem_cons_self)
      obtain ⟨heq, htaken⟩ := ih htr' h (hcall.trans hc) hrun hc'
      refine ⟨heq, ?_⟩
      have hfetched : fetchedBy s a = [] := by
        cases a with
        | task => exact absurd rfl htask
        | _ => rfl
      rw [taken, hs, hfetched]
      exact htaken

/-- The rest of a call, up to a state in which it has not returned. -/
theorem progress_run {tr : List Action} (htr : ∀ a ∈ tr, ∀ b, a ≠ .read b) {passed : List UInt8} :
    ∀ {s s' : State} {bytes : List UInt8} {c c' : Call}, Progress passed bytes c →
      s.call = some c → run step s tr = some s' → s'.call = some c' →
      (Meets step NoGiveUp s tr → Progress passed (bytes ++ taken s tr) c') ∧
        (¬ Meets step NoGiveUp s tr → GaveUp passed (bytes ++ taken s tr) c') := by
  induction tr with
  | nil =>
    intro s s' bytes c c' h hc hrun hc'
    cases hrun
    obtain rfl : c' = c := Option.some.inj (hc'.symm.trans hc)
    rw [taken, List.append_nil]
    exact ⟨fun _ => h, fun hno => absurd trivial hno⟩
  | cons a tr ih =>
    intro s s' bytes c c' h hc hrun hc'
    obtain ⟨t, hs, hrun⟩ := (run_cons_some step).mp hrun
    have htr' : ∀ b ∈ tr, ∀ passed, b ≠ .read passed :=
      fun b hb => htr b (List.mem_cons_of_mem a hb)
    obtain ⟨d, hd⟩ : ∃ d, t.call = some d := by
      cases hd : t.call with
      | none =>
        rw [call_none_run htr' hd hrun] at hc'
        cases hc'
      | some d => exact ⟨d, rfl⟩
    obtain ⟨hgo, hstop⟩ := progress_step h hc hs (htr a List.mem_cons_self) hd
    have htaken : bytes ++ taken s (a :: tr) = bytes ++ fetchedBy s a ++ taken t tr := by
      rw [taken, hs, List.append_assoc]
      rfl
    have hmeets : Meets step NoGiveUp s (a :: tr) ↔ NoGiveUp s a ∧ Meets step NoGiveUp t tr := by
      simp [Meets, hs]
    rw [htaken, hmeets]
    by_cases hgive : NoGiveUp s a
    · simpa [hgive] using ih htr' (hgo hgive) hd hrun hc'
    · refine ⟨fun hm => absurd hm.1 hgive, fun _ => ?_⟩
      have hgaveUp := hstop hgive
      obtain ⟨rfl, hnone⟩ := gaveUp_run htr' hgaveUp hd hrun hc'
      rw [hnone, List.append_nil]
      exact hgaveUp

/-- The call made by `sci_read(filep, passed, passed.length)` is about to return `n`: the count is
    exact if and only if it never gave up on a single byte. -/
theorem read_count_iff {s s' : State} {passed : List UInt8} {tr : List Action} {c : Call} {n : Nat}
    (hrun : run step s (.read passed :: tr) = some s') (htr : ∀ a ∈ tr, ∀ b, a ≠ .read b)
    (hc : s'.call = some c) (hret : c.returns = some n) :
    CountExact passed c.buffer (taken s (.read passed :: tr)) n ↔
      Meets step NoGiveUp s (.read passed :: tr) := by
  obtain ⟨t, hs, hrun⟩ := (run_cons_some step).mp hrun
  have ht : t.call = some ⟨passed, 0, .loop⟩ := by
    simp only [step] at hs
    split at hs
    · cases hs
      rfl
    · cases hs
  have hstart : Progress passed [] ⟨passed, 0, .loop⟩ :=
    ⟨rfl, rfl, fun hne => absurd rfl hne, Nat.zero_le _⟩
  have htaken : taken s (.read passed :: tr) = taken t tr := by
    rw [taken, hs]
    rfl
  have hmeets : Meets step NoGiveUp s (.read passed :: tr) ↔ Meets step NoGiveUp t tr := by
    simp [Meets, hs, NoGiveUp]
  obtain ⟨hgo, hstop⟩ := progress_run htr hstart ht hrun hc
  rw [List.nil_append] at hgo hstop
  rw [htaken, hmeets]
  constructor
  · intro hexact
    by_contra hm
    have hgaveUp := hstop hm
    have hone : c.returns = some 1 := by
      simp [Call.returns, hgaveUp.stage, hgaveUp.index, hgaveUp.length]
    obtain rfl : n = 1 := Option.some.inj (hret.symm.trans hone)
    -- one byte is reported, none was taken
    obtain ⟨hlen, -⟩ := hexact Nat.one_pos
    rw [hgaveUp.bytes] at hlen
    cases hlen
  · intro hm _
    have h := hgo hm
    have hn : (taken t tr).length = n := by
      have hcount := h.count
      unfold Call.returns at hret
      cases hstage : c.stage <;> simp only [hstage] at hret hcount
      case loop =>
        split at hret
        · cases hret
        · cases hret
          simpa using hcount
      case asleep cnt =>
        split at hret
        · cases hret
          simpa using hcount
        · cases hret
      all_goals cases hret
    refine ⟨hn, ?_, ?_⟩
    · rw [h.buffer, List.take_append_of_le_length (Nat.le_of_eq hn.symm), ← hn, List.take_length]
    · rw [h.buffer, List.drop_append_of_le_length (Nat.le_of_eq hn.symm), ← hn, List.drop_length,
        List.nil_append]

/-- Two bytes wait in the ring, and both are read. -/
theorem read_count_two :
    let s : State := { init with rx_buf := fun i => if i = 0 then 65 else 66, rx_wt := 2 }
    let tr : List Action := .read [7, 8] :: .replicate 8 .task
    ∃ s' c, run step s tr = some s' ∧ s'.call = some c ∧ c.returns = some 2 ∧
      (CountExact [7, 8] c.buffer (taken s tr) 2 ↔ Meets step NoGiveUp s tr) := by
  refine ⟨_, _, rfl, rfl, rfl, read_count_iff rfl ?_ rfl rfl⟩
  intro a ha b
  rw [List.eq_of_mem_replicate ha]
  simp

/-- A read of one byte on a silent line returns 1, although no byte was taken. -/
theorem read_count_fails :
    ∃ s' c, run step init silentRun = some s' ∧ s'.call = some c ∧ c.returns = some 1 ∧
      taken init silentRun = [] ∧ ¬ CountExact [7] c.buffer (taken init silentRun) 1 := by
  have hcall : (run step init silentRun).bind State.call = some ⟨[7], 1, .loop⟩ := by
    decide +kernel
  have htaken : taken init silentRun = [] := by
    decide +kernel
  obtain ⟨s', hrun, hc⟩ := Option.bind_eq_some_iff.mp hcall
  refine ⟨s', _, hrun, hc, rfl, htaken, ?_⟩
  rw [htaken]
  decide

end Hcrtos.Native.UartReceive
