import Hcrtos.Native.Xpt2046

/-!
# The filter decides, and averages what agrees

While a coordinate is read, the filter has counted the readings, and the last ones agree with the
first of them, which is the reference. A reading that does not agree starts over only before the
maximum of readings, so that few more can come after it.

## Key results

- `reading_step`: what one reading leads to
- `Reading.length_le`: how long a coordinate can be read
- `debounce_decides`: the filter decides, and what it reports
-/

namespace Hcrtos.Native.Touch

/-- The limits of the filter do not change. -/
structure SameLimits (ts ts' : Xpt2046) : Prop where
  max : ts'.debounce_max = ts.debounce_max
  tol : ts'.debounce_tol = ts.debounce_tol
  rep : ts'.debounce_rep = ts.debounce_rep

theorem SameLimits.trans {ts ts' ts'' : Xpt2046} (h : SameLimits ts ts')
    (h' : SameLimits ts' ts'') : SameLimits ts ts'' :=
  ⟨h'.max.trans h.max, h'.tol.trans h.tol, h'.rep.trans h.rep⟩

theorem SameLimits.limits {ts ts' : Xpt2046} (h : SameLimits ts ts') (hlimits : Limits ts) :
    Limits ts' := by
  obtain ⟨htwo, hrep⟩ := hlimits
  constructor
  · rw [h.rep]
    exact htwo
  · rw [h.rep, h.max]
    exact hrep

theorem SameLimits.averages {ts ts' : Xpt2046} (h : SameLimits ts ts') {readings : List Int}
    {val : Int} : Averages ts' readings val ↔ Averages ts readings val := by
  unfold Averages
  rw [h.rep, h.tol]

/-- The last readings, which agree with the first of them. -/
structure Window (ts : Xpt2046) (data_idx : Nat) (used before : List Int) (ref : Int)
    (rest : List Int) : Prop where
  used_eq : used = before ++ ref :: rest
  last_read : ts.last_read = ref
  read_rep : ts.read_rep = rest.length + 1
  rep_lt : rest.length + 1 < ts.debounce_rep.toNat
  close : ∀ x ∈ ref :: rest, (ref - x).natAbs ≤ ts.debounce_tol.toNat
  average : ts.average_val data_idx = (ref :: rest).sum
  before_lt : before.length < ts.debounce_max.toNat

/-- A coordinate has been read. The first reading is not looked at. -/
structure Reading (ts : Xpt2046) (data_idx : Nat) (used : List Int) : Prop where
  read_cnt : ts.read_cnt = used.length
  window : 1 < used.length → ∃ before ref rest, Window ts data_idx used before ref rest

/-- Before the maximum, and then as many readings as may agree. -/
theorem Reading.length_le {ts : Xpt2046} {data_idx : Nat} {used : List Int}
    (h : Reading ts data_idx used) (hlimits : Limits ts) :
    used.length + 2 ≤ ts.debounce_max.toNat + ts.debounce_rep.toNat := by
  have htwo := hlimits.two_le
  have hrep := hlimits.rep_le
  by_cases hone : 1 < used.length
  · obtain ⟨before, ref, rest, hw⟩ := h.window hone
    have hbefore := hw.before_lt
    have hrest := hw.rep_lt
    rw [hw.used_eq, List.length_append, List.length_cons]
    omega
  · omega

/-- A reading that starts over, or does not: what the filter is left with. -/
inductive Outcome (ts : Xpt2046) (data_idx : Nat) (used : List Int) :
    Xpt2046 × Filter × Int → Prop
  | repeat {ts' : Xpt2046} {val : Int} (limits : SameLimits ts ts')
      (reading : Reading ts' data_idx used) : Outcome ts data_idx used
        (ts', .XPT2046_FILTER_REPEAT, val)
  | ignore {ts' : Xpt2046} {val : Int} (limits : SameLimits ts ts') (ready : ts'.read_cnt = 0) :
      Outcome ts data_idx used (ts', .XPT2046_FILTER_IGNORE, val)
  | ok {ts' : Xpt2046} {val : Int} (limits : SameLimits ts ts') (ready : ts'.read_cnt = 0)
      (averages : Averages ts used val) : Outcome ts data_idx used (ts', .XPT2046_FILTER_OK, val)

/-- What one reading leads to. -/
theorem reading_step {ts : Xpt2046} {data_idx : Nat} {used : List Int}
    (h : Reading ts data_idx used) (hlimits : Limits ts) (val : Int) :
    Outcome ts data_idx (used ++ [val]) (xpt2046_debounce ts data_idx val) := by
  have htwo := hlimits.two_le
  have hrep := hlimits.rep_le
  have hcnt := h.read_cnt
  have hlength : (used ++ [val]).length = used.length + 1 := by simp
  unfold xpt2046_debounce
  by_cases hfirst : ts.read_cnt = 0
  · -- nothing is compared with the first reading
    rw [if_pos hfirst]
    exact .repeat ⟨rfl, rfl, rfl⟩ ⟨by rw [hlength, ← hcnt], fun hlt => by omega⟩
  rw [if_neg hfirst]
  by_cases hedge : val = 4095 ∨ val = 0
  · rw [if_pos hedge]
    exact .ignore ⟨rfl, rfl, rfl⟩ rfl
  rw [if_neg hedge]
  by_cases hover : ts.read_cnt = 1 ∨ (ts.last_read - val).natAbs > ts.debounce_tol.toNat
  · rw [if_pos hover]
    dsimp only
    by_cases hmax : ts.read_cnt < ts.debounce_max.toNat
    · -- the reading is the new reference
      rw [if_pos hmax]
      refine .repeat ⟨rfl, rfl, rfl⟩ ⟨by rw [hlength, ← hcnt], fun _ => ⟨used, val, [], ?_⟩⟩
      exact {
        used_eq := rfl
        last_read := rfl
        read_rep := rfl
        rep_lt := htwo
        close := by simp
        average := by simp
        before_lt := hcnt ▸ hmax }
    -- after the maximum a reading that does not agree ends the coordinate
    · rw [if_neg hmax]
      exact .ignore ⟨rfl, rfl, rfl⟩ rfl
  · rw [if_neg hover]
    obtain ⟨hone, hclose⟩ := not_or.mp hover
    obtain ⟨before, ref, rest, hw⟩ := h.window (by omega)
    -- the reading agrees, and joins the others
    have hused : used ++ [val] = before ++ ref :: (rest ++ [val]) := by
      rw [hw.used_eq]
      simp
    have hagree : ∀ x ∈ ref :: (rest ++ [val]), (ref - x).natAbs ≤ ts.debounce_tol.toNat := by
      intro x hx
      rw [← List.cons_append] at hx
      rcases List.mem_append.mp hx with hx | hx
      · exact hw.close x hx
      · rw [List.mem_singleton.mp hx, ← hw.last_read]
        exact Nat.le_of_not_lt hclose
    have hsum : ts.average_val data_idx + val = (ref :: (rest ++ [val])).sum := by
      rw [hw.average]
      simp [Int.add_assoc]
    have hread := hw.read_rep
    have hlt := hw.rep_lt
    dsimp only
    by_cases hdone : ts.read_rep + 1 ≥ ts.debounce_rep.toNat
    · rw [if_pos hdone, Function.update_self]
      refine .ok ⟨rfl, rfl, rfl⟩ rfl ⟨before, ref, rest ++ [val], hused, ?_, hagree, ?_⟩
      · rw [List.length_append, List.length_singleton]
        omega
      · rw [hsum]
    · rw [if_neg hdone]
      refine .repeat ⟨rfl, rfl, rfl⟩
        ⟨by rw [hlength, ← hcnt], fun _ => ⟨before, ref, rest ++ [val], ?_⟩⟩
      exact {
        used_eq := hused
        last_read := hw.last_read
        read_rep := by rw [List.length_append, List.length_singleton, hread]
        rep_lt := by
          show (rest ++ [val]).length + 1 < ts.debounce_rep.toNat
          rw [List.length_append, List.length_singleton]
          omega
        close := hagree
        average := (Function.update_self _ _ _).trans hsum
        before_lt := hw.before_lt }

/-- The readings from some point on. -/
theorem readCoordinate_spec {data_idx : Nat} (vals : List Int) {ts : Xpt2046} {used : List Int}
    (h : Reading ts data_idx used) (hlimits : Limits ts)
    (hlen : ts.debounce_max.toNat + ts.debounce_rep.toNat ≤ used.length + vals.length) :
    ∃ d taken, readCoordinate ts data_idx vals = some d ∧ vals = taken ++ d.unread ∧
      used.length + taken.length ≤ ts.debounce_max.toNat + ts.debounce_rep.toNat ∧
      d.action ≠ .XPT2046_FILTER_REPEAT ∧ SameLimits ts d.ts ∧ d.ts.read_cnt = 0 ∧
      (d.action = .XPT2046_FILTER_OK → Averages ts (used ++ taken) d.val) := by
  -- when the readings run out, there were as many as the limit
  have hle := h.length_le hlimits
  induction vals generalizing ts used with
  | nil =>
    simp only [List.length_nil, Nat.add_zero] at hlen
    omega
  | cons val vals ih =>
    have hstep := reading_step h hlimits val
    unfold readCoordinate
    cases hout : xpt2046_debounce ts data_idx val with
    | mk ts' out =>
      obtain ⟨action, val'⟩ := out
      rw [hout] at hstep
      cases hstep with
      | «repeat» hsame hreading =>
        obtain ⟨d, taken, hd, hvals, htaken, haction, hsame', hcnt, hok⟩ :=
          ih hreading (hsame.limits hlimits)
            (by
              rw [hsame.max, hsame.rep, List.length_append, List.length_singleton]
              rw [List.length_cons] at hlen
              omega)
            (hreading.length_le (hsame.limits hlimits))
        refine ⟨d, val :: taken, hd, by rw [hvals]; rfl, ?_, haction, hsame.trans hsame', hcnt,
          fun h => ?_⟩
        · rw [hsame.max, hsame.rep, List.length_append, List.length_singleton] at htaken
          rw [List.length_cons]
          omega
        · have havg := hsame.averages.mp (hok h)
          rwa [List.append_assoc] at havg
      | ignore hsame hcnt =>
        exact ⟨_, [val], rfl, rfl, by rw [List.length_singleton]; omega, nofun, hsame, hcnt, nofun⟩
      | ok hsame hcnt havg =>
        exact ⟨_, [val], rfl, rfl, by rw [List.length_singleton]; omega, nofun, hsame, hcnt,
          fun _ => havg⟩

/-- From any state in which a coordinate is read anew, the filter decides within
    `debounce_max + debounce_rep` readings, and is then ready for the next one. What it accepts is
    the average of readings that agree. -/
theorem debounce_decides (ts : Xpt2046) (data_idx : Nat) (vals : List Int) (hlimits : Limits ts)
    (hready : ts.read_cnt = 0)
    (hlen : ts.debounce_max.toNat + ts.debounce_rep.toNat ≤ vals.length) :
    ∃ d taken, readCoordinate ts data_idx vals = some d ∧ vals = taken ++ d.unread ∧
      taken.length ≤ ts.debounce_max.toNat + ts.debounce_rep.toNat ∧
      d.action ≠ .XPT2046_FILTER_REPEAT ∧ d.ts.read_cnt = 0 ∧ Limits d.ts ∧
      (d.action = .XPT2046_FILTER_OK → Averages ts taken d.val) := by
  have hnone : Reading ts data_idx [] := ⟨hready, fun h => absurd h nofun⟩
  obtain ⟨d, taken, hd, hvals, htaken, haction, hsame, hcnt, hok⟩ :=
    readCoordinate_spec vals hnone hlimits (by rw [List.length_nil, Nat.zero_add]; exact hlen)
  exact ⟨d, taken, hd, hvals, by rwa [List.length_nil, Nat.zero_add] at htaken, haction, hcnt,
    hsame.limits hlimits, hok⟩

/-- The limits of the probe, and readings that agree after some that do not. -/
theorem debounce_decides_probe :
    ∃ d taken, readCoordinate probe 0
        [0, 2000, 1000, 1004, 996, 1003, 1001, 999, 998, 1000, 1002, 1001, 1000, 999, 1000] =
          some d ∧
      [0, 2000, 1000, 1004, 996, 1003, 1001, 999, 998, 1000, 1002, 1001, 1000, 999, 1000] =
        taken ++ d.unread ∧
      taken.length ≤ probe.debounce_max.toNat + probe.debounce_rep.toNat ∧
      d.action ≠ .XPT2046_FILTER_REPEAT ∧ d.ts.read_cnt = 0 ∧ Limits d.ts ∧
      (d.action = .XPT2046_FILTER_OK → Averages probe taken d.val) :=
  debounce_decides probe 0
    [0, 2000, 1000, 1004, 996, 1003, 1001, 999, 998, 1000, 1002, 1001, 1000, 999, 1000]
    ⟨by decide, by decide⟩ rfl (by decide)

end Hcrtos.Native.Touch
