import Hcrtos.Native.Module

/-!
# The flags of the modules

## Key results

- `bookkeeping_initEntry`, `bookkeeping_exitEntry`: what one action preserves
- `initLoop_spec`: how the loop over a group ends
- `bookkeeping_after`: the flags say what was done last, after every sequence of calls
-/

namespace Hcrtos.Native.Module

open CString

/-- Init functions ran while the flag was clear and exit functions while it was set, and the flag
    of an entry is set exactly when the last action on it was a successful init. -/
structure Bookkeeping (s : State) : Prop where
  init_clear : ∀ p res flag, .init p res flag ∈ s.log → flag = false
  exit_set : ∀ p flag, .exit p flag ∈ s.log → flag = true
  flag_iff : ∀ p, s.initialized p = true ↔
    ∃ flag, s.log.find? (fun e => e.entry = p) = some (.init p 0 flag)

/-- How a call for a group ends: with 0 all entries that are not excluded are initialised; with
    another result, which an entry of the group returned, those before this entry are, and the
    flags from this entry on are as before. -/
structure GroupInit (t : Table) (excludes : List CStr) (res : Nat → Int) (ps : List Nat)
    (s : State) (r : Int) (s' : State) : Prop where
  done : r = 0 → ∀ p ∈ ps, t.name p ∉ excludes → s'.initialized p = true
  failed : r ≠ 0 → ∃ before k later, ps = before ++ k :: later ∧ t.name k ∉ excludes ∧
    r = res k ∧ s.initialized k = false ∧
    (∀ p ∈ before, t.name p ∉ excludes → s'.initialized p = true) ∧
    ∀ p ∈ k :: later, s'.initialized p = s.initialized p

variable {t : Table} {excludes : List CStr} {res : Nat → Int} {s s' : State} {p : Nat} {r : Int}

/-! ### One action -/

theorem bookkeeping_init : Bookkeeping init := by
  constructor
  · intro p res flag h
    cases h
  · intro p flag h
    cases h
  · intro p
    constructor
    · intro h
      cases h
    · rintro ⟨flag, h⟩
      cases h

/-- The latest action on another entry stays the latest one. -/
theorem find?_cons_of_ne {e : Event} {log : List Event} (h : e.entry ≠ p) :
    (e :: log).find? (fun e => e.entry = p) = log.find? (fun e => e.entry = p) :=
  List.find?_cons_of_neg (by simpa using h)

theorem find?_cons_self {e : Event} {log : List Event} (h : e.entry = p) :
    (e :: log).find? (fun e => e.entry = p) = some e :=
  List.find?_cons_of_pos (by simpa using h)

/-- An init that succeeds sets the flag; one that fails leaves it. -/
theorem initEntry_cases (h : s.initEntry t res p = (r, s')) :
    (r = 0 ∧ s' = ⟨Function.update s.initialized p true,
      .init p 0 (s.initialized p) :: s.log⟩) ∨
    (r ≠ 0 ∧ r = res p ∧ s' = { s with log := .init p r (s.initialized p) :: s.log }) := by
  unfold State.initEntry at h
  dsimp only at h
  by_cases hinit : t.modules[p]?.any (·.init) = true
  · rw [if_pos hinit] at h
    by_cases hres : res p = 0
    · rw [if_neg (not_not.mpr hres), hres] at h
      obtain ⟨rfl, rfl⟩ := Prod.mk.inj h
      exact .inl ⟨rfl, rfl⟩
    · rw [if_pos hres] at h
      obtain ⟨rfl, rfl⟩ := Prod.mk.inj h
      exact .inr ⟨hres, rfl, rfl⟩
  · rw [if_neg hinit, if_neg (not_not.mpr rfl)] at h
    obtain ⟨rfl, rfl⟩ := Prod.mk.inj h
    exact .inl ⟨rfl, rfl⟩

/-- An init function that runs while the flag is clear. -/
theorem bookkeeping_initEntry (hs : Bookkeeping s) (hclear : s.initialized p = false)
    (h : s.initEntry t res p = (r, s')) : Bookkeeping s' := by
  have hlog : s'.log = .init p r false :: s.log := by
    rw [← hclear]
    obtain ⟨rfl, rfl⟩ | ⟨-, -, rfl⟩ := initEntry_cases h <;> rfl
  have hflag : ∀ q, s'.initialized q = true ↔ (q = p ∧ r = 0) ∨ s.initialized q = true := by
    intro q
    obtain ⟨rfl, rfl⟩ | ⟨hr, -, rfl⟩ := initEntry_cases h
    · by_cases hq : q = p <;> simp [hq]
    · simp [hr]
  constructor
  · intro q res flag hmem
    rw [hlog] at hmem
    cases hmem with
    | head => rfl
    | tail _ hmem => exact hs.init_clear q res flag hmem
  · intro q flag hmem
    rw [hlog] at hmem
    cases hmem with
    | tail _ hmem => exact hs.exit_set q flag hmem
  · intro q
    rw [hlog, hflag]
    by_cases hq : q = p
    · subst hq
      have hself : (Event.init q r false :: s.log).find? (fun e => e.entry = q) =
          some (.init q r false) := find?_cons_self rfl
      rw [hself]
      simp [hclear]
    · have hother : (Event.init p r false :: s.log).find? (fun e => e.entry = q) =
          s.log.find? (fun e => e.entry = q) := find?_cons_of_ne (Ne.symm hq)
      rw [hother, ← hs.flag_iff q]
      simp [hq]

/-- An exit function that runs while the flag is set. -/
theorem bookkeeping_exitEntry (hs : Bookkeeping s) (hset : s.initialized p = true) :
    Bookkeeping (s.exitEntry p) := by
  constructor
  · intro q res flag hmem
    cases hmem with
    | tail _ hmem => exact hs.init_clear q res flag hmem
  · intro q flag hmem
    cases hmem with
    | head => exact hset
    | tail _ hmem => exact hs.exit_set q flag hmem
  · intro q
    by_cases hq : q = p
    · subst hq
      simp [State.exitEntry, Event.entry]
    · have hlog : (s.exitEntry p).log.find? (fun e => e.entry = q) =
          s.log.find? (fun e => e.entry = q) := find?_cons_of_ne (Ne.symm hq)
      rw [hlog, ← hs.flag_iff q]
      simp [State.exitEntry, hq]

/-- A successful init sets the flag of the entry; a failed one leaves all flags. -/
theorem initEntry_flags (h : s.initEntry t res p = (r, s')) :
    (r = 0 → s'.initialized = Function.update s.initialized p true) ∧
      (r ≠ 0 → r = res p ∧ s'.initialized = s.initialized) := by
  obtain ⟨hzero, rfl⟩ | ⟨hne, hres, rfl⟩ := initEntry_cases h
  · exact ⟨fun _ => rfl, fun hne => absurd hzero hne⟩
  · exact ⟨fun hzero => absurd hzero hne, fun _ => ⟨hres, rfl⟩⟩

/-! ### The loops -/

theorem bookkeeping_initLoop {ps : List Nat} (hs : Bookkeeping s)
    (h : initLoop t excludes res ps s = (r, s')) : Bookkeeping s' := by
  induction ps generalizing s with
  | nil =>
    obtain ⟨-, rfl⟩ := Prod.mk.inj h
    exact hs
  | cons p ps ih =>
    unfold initLoop at h
    split at h
    · exact ih hs h
    · next hskip =>
      have hclear : s.initialized p = false := by
        simpa using fun hp => hskip (.inr hp)
      rcases hentry : s.initEntry t res p with ⟨v, u⟩
      have hu := bookkeeping_initEntry hs hclear hentry
      rw [hentry] at h
      dsimp only at h
      split at h
      · obtain ⟨-, rfl⟩ := Prod.mk.inj h
        exact hu
      · exact ih hu h

theorem bookkeeping_exitLoop {ps : List Nat} (hs : Bookkeeping s) :
    Bookkeeping (exitLoop t excludes ps s) := by
  induction ps generalizing s with
  | nil => exact hs
  | cons p ps ih =>
    unfold exitLoop
    split
    · exact ih hs
    · next hskip =>
      have hset : s.initialized p = true := by
        simpa using fun hp => hskip (.inr hp)
      exact ih (bookkeeping_exitEntry hs hset)

/-- A group init clears no flag, and changes none of an entry that is not in the group. -/
theorem initLoop_flags {ps : List Nat} (h : initLoop t excludes res ps s = (r, s')) :
    (∀ q, s.initialized q = true → s'.initialized q = true) ∧
      ∀ q, q ∉ ps → s'.initialized q = s.initialized q := by
  induction ps generalizing s with
  | nil =>
    obtain ⟨-, rfl⟩ := Prod.mk.inj h
    exact ⟨fun q hq => hq, fun q _ => rfl⟩
  | cons p ps ih =>
    unfold initLoop at h
    split at h
    · obtain ⟨hkeep, hother⟩ := ih h
      exact ⟨hkeep, fun q hq => hother q (fun hmem => hq (List.mem_cons_of_mem p hmem))⟩
    · rcases hentry : s.initEntry t res p with ⟨v, u⟩
      obtain ⟨hok, hfail⟩ := initEntry_flags hentry
      rw [hentry] at h
      dsimp only at h
      split at h
      · next hv =>
        obtain ⟨rfl, rfl⟩ := Prod.mk.inj h
        rw [(hfail hv).2]
        exact ⟨fun q hq => hq, fun q _ => rfl⟩
      · next hv =>
        have hu := hok (not_not.mp hv)
        obtain ⟨hkeep, hother⟩ := ih h
        constructor
        · intro q hq
          apply hkeep
          rw [hu]
          by_cases hqp : q = p <;> simp [hqp, hq]
        · intro q hq
          have hqp : q ≠ p := fun heq => hq (heq ▸ List.mem_cons_self)
          rw [hother q (fun hmem => hq (List.mem_cons_of_mem p hmem)), hu]
          simp [hqp]

/-- How a group init ends. -/
theorem initLoop_spec {ps : List Nat} (hnodup : ps.Nodup)
    (h : initLoop t excludes res ps s = (r, s')) : GroupInit t excludes res ps s r s' := by
  induction ps generalizing s with
  | nil =>
    obtain ⟨rfl, rfl⟩ := Prod.mk.inj h
    constructor
    · intro _ p hp
      cases hp
    · intro hne
      exact absurd rfl hne
  | cons p ps ih =>
    obtain ⟨hp, hnodup⟩ := List.nodup_cons.mp hnodup
    unfold initLoop at h
    split at h
    · -- the entry is excluded, or initialised already
      next hskip =>
      obtain ⟨hkeep, -⟩ := initLoop_flags h
      obtain ⟨hdone, hfailed⟩ := ih hnodup h
      have hpdone : t.name p ∉ excludes → s'.initialized p = true := fun hex =>
        hkeep p (hskip.resolve_left hex)
      constructor
      · intro hr q hq hex
        obtain rfl | hq := List.mem_cons.mp hq
        · exact hpdone hex
        · exact hdone hr q hq hex
      · intro hr
        obtain ⟨before, k, later, rfl, hk, hres, hclear, hbefore, hlater⟩ := hfailed hr
        refine ⟨p :: before, k, later, rfl, hk, hres, hclear, ?_, hlater⟩
        intro q hq hex
        obtain rfl | hq := List.mem_cons.mp hq
        · exact hpdone hex
        · exact hbefore q hq hex
    · next hskip =>
      rcases hentry : s.initEntry t res p with ⟨v, u⟩
      obtain ⟨hok, hfail⟩ := initEntry_flags hentry
      rw [hentry] at h
      dsimp only at h
      split at h
      · -- it fails
        next hv =>
        obtain ⟨rfl, rfl⟩ := Prod.mk.inj h
        obtain ⟨hres, hsame⟩ := hfail hv
        constructor
        · intro hr
          exact absurd hr hv
        · intro _
          refine ⟨[], p, ps, rfl, fun hex => hskip (.inl hex), hres, ?_, ?_, ?_⟩
          · simpa using fun hset => hskip (.inr hset)
          · intro q hq
            cases hq
          · intro q _
            rw [hsame]
      · next hv =>
        have hu := hok (not_not.mp hv)
        obtain ⟨hkeep, -⟩ := initLoop_flags h
        obtain ⟨hdone, hfailed⟩ := ih hnodup h
        have hpdone : s'.initialized p = true := hkeep p (by rw [hu]; simp)
        have hother : ∀ q ∈ ps, u.initialized q = s.initialized q := by
          intro q hq
          have hqp : q ≠ p := fun heq => hp (heq ▸ hq)
          rw [hu]
          simp [hqp]
        constructor
        · intro hr q hq hex
          obtain rfl | hq := List.mem_cons.mp hq
          · exact hpdone
          · exact hdone hr q hq hex
        · intro hr
          obtain ⟨before, k, later, rfl, hk, hres, hclear, hbefore, hlater⟩ := hfailed hr
          refine ⟨p :: before, k, later, rfl, hk, hres, ?_, ?_, ?_⟩
          · rw [← hother k (by simp)]
            exact hclear
          · intro q hq hex
            obtain rfl | hq := List.mem_cons.mp hq
            · exact hpdone
            · exact hbefore q hq hex
          · intro q hq
            rw [hlater q hq]
            exact hother q (List.mem_append_right _ hq)

/-! ### Sequences of calls -/

theorem bookkeeping_step (hs : Bookkeeping s) (a : Action) : Bookkeeping (step t s a) := by
  cases a with
  | init name excludes res =>
    show Bookkeeping (module_init2 t s name excludes res).2
    unfold module_init2
    split
    · exact bookkeeping_initLoop hs rfl
    · split
      · exact hs
      · split
        · exact hs
        · next hclear => exact bookkeeping_initEntry hs (by simpa using hclear) rfl
  | exit name excludes =>
    show Bookkeeping (module_exit2 t s name excludes).2
    unfold module_exit2
    split
    · exact bookkeeping_exitLoop hs
    · split
      · exact hs
      · split
        · exact hs
        · next hset => exact bookkeeping_exitEntry hs (by simpa using hset)

/-- After every sequence of calls the flags say what was done last, and every group init ends as
    it should. -/
theorem bookkeeping_after (t : Table) (calls : List Action) :
    Bookkeeping (after t calls) ∧
      ∀ name g excludes res, Group.ofName name = some g →
        GroupInit t excludes res (t.entries g) (after t calls)
          (module_init2 t (after t calls) name excludes res).1
          (module_init2 t (after t calls) name excludes res).2 := by
  constructor
  · have hfold : ∀ (calls : List Action) (s : State), Bookkeeping s →
        Bookkeeping (calls.foldl (step t) s) := by
      intro calls
      induction calls with
      | nil => exact fun s hs => hs
      | cons a calls ih => exact fun s hs => ih _ (bookkeeping_step hs a)
    exact hfold calls init bookkeeping_init
  · intro name g excludes res hg
    unfold module_init2
    rw [hg]
    exact initLoop_spec List.nodup_range' rfl

/-- Two drivers. -/
def exampleTable : Table where
  modules := [⟨[97], true, true⟩, ⟨[98], true, false⟩]
  bounds g := if g = .all ∨ g = .driver then (0, 2) else (0, 0)
  bounds_le g := by cases g <;> decide
  bounds_all := rfl

/-- The second driver fails after the first one was initialised and exited. -/
theorem bookkeeping_exampleTable :
    GroupInit exampleTable [] (fun p => if p = 1 then -5 else 0) [0, 1]
      (after exampleTable [.init [97] [] fun _ => 0, .exit [97] []]) (-5)
      (module_init2 exampleTable (after exampleTable [.init [97] [] fun _ => 0, .exit [97] []])
        [100, 114, 105, 118, 101, 114] [] fun p => if p = 1 then -5 else 0).2 :=
  (bookkeeping_after exampleTable [.init [97] [] fun _ => 0, .exit [97] []]).2
    [100, 114, 105, 118, 101, 114] .driver [] (fun p => if p = 1 then -5 else 0) rfl

end Hcrtos.Native.Module
