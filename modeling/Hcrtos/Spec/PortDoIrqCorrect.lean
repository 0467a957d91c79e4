import Hcrtos.Spec.PortDoIrqList

/-!
# Dispatch while the handlers change

`prvDoIrq` reads the entry behind the one it runs before it calls the handler, so an entry that
the handler removes there is visited after its block is freed. In a dispatch in which no handler
does so, every call finds a live entry, and the entries of the start that are not removed run
once, in order.

## Key results

- `After.call`: what the list is after a call
- `Inv.steady_step`: one round of the loop
- `dispatch_survives`: a whole dispatch
- `Inv.visits_freed`: a round in which the entry behind is removed
- `dispatch_fails`: two handlers, the first of which removes the second
-/

namespace Hcrtos.Native.PortDoIrq

open PortInterrupt Circular Loop Lts

/-! ### A call -/

/-- The entries that are not freed. -/
def left (l : List Entry) (freed : List Addr) : List Entry := l.filter fun e => e.1 ∉ freed

theorem mem_left {l : List Entry} {freed : List Addr} {e : Entry} :
    e ∈ left l freed ↔ e ∈ l ∧ e.1 ∉ freed := by
  simp [left]

theorem left_concat (l : List Entry) (freed : List Addr) (a : Addr) :
    left l (freed ++ [a]) = (left l freed).filter fun e => e.1 ≠ a := by
  rw [left, left, List.filter_filter]
  apply List.filter_congr
  intro e _
  simp [and_comm]

/-- What `malloc` answers to an installation. -/
def Action.node : Action → Option Addr
  | .install _ _ _ node => node
  | .remove _ => none

/-- The blocks that the actions of a handler install. -/
def nodes (actions : List Action) : List Addr := actions.filterMap Action.node

/-- The list during a call, when it was `front ++ back` before: what is left of both, with new
    entries behind. Nothing behind the running entry stays nothing. -/
structure After (head : Addr) (front back : List Entry) (s : Mem × List Addr)
    (newF newB : List Entry) : Prop where
  represents : Represents head s.1 ((left front s.2 ++ newF) ++ (left back s.2 ++ newB))
  new : ∀ e ∈ newF ++ newB, e.1 ∈ (front ++ back).map Prod.fst → e.1 ∈ s.2
  last : back = [] → newB = []
  head : head ∉ s.2

section

variable {head : Addr} {front back newF newB : List Entry} {s : Mem × List Addr}

theorem after_nil {m : Mem} (hr : Represents head m (front ++ back)) :
    After head front back (m, []) [] [] where
  represents := by simpa [left] using hr
  new := by simp
  last := fun _ => rfl
  head := by simp

theorem After.install (h : After head front back s newF newB) {fn param : UInt32} {type : Nat}
    {node : Option Addr} (hok : (Action.install fn param type node).Allowed s.1) :
    ∃ s' newF' newB', act head s (.install fn param type node) = some s' ∧
      After head front back s' newF' newB' ∧ newB'.length ≤ newB.length + node.toList.length ∧
      ∀ e ∈ newF' ++ newB', e ∈ newF ++ newB ∨ e.1 ∈ node := by
  obtain ⟨hfn, hnode⟩ := hok
  cases node with
  | none =>
    refine ⟨s, newF, newB, ?_, h, by simp, fun e he => .inl he⟩
    simp [act, xPortInterruptInstallISR, hfn]
  | some a =>
    obtain ⟨m', hm', hr'⟩ := h.represents.install param hfn type (hnode a rfl)
    have hact : act head s (.install fn param type (some a)) = some (m', s.2) := by
      simp [act, hm']
    -- the address was free, so an entry that had it is freed
    have hnew : a ∈ (front ++ back).map Prod.fst → a ∈ s.2 := by
      intro ha
      by_contra hfreed
      obtain ⟨e, he, rfl⟩ := List.mem_map.mp ha
      have hmem : e ∈ (left front s.2 ++ newF) ++ (left back s.2 ++ newB) := by
        rcases List.mem_append.mp he with he | he
        · simp [mem_left, he, hfreed]
        · simp [mem_left, he, hfreed]
      have hsome := h.represents.isSome_next
        (List.mem_cons_of_mem _ (List.mem_map_of_mem (f := Prod.fst) hmem))
      rw [next_eq_none_iff.mpr (hnode e.1 rfl)] at hsome
      cases hsome
    by_cases hback : back = []
    · have hnewB := h.last hback
      refine ⟨_, newF ++ [(a, ⟨fn, param, type⟩)], newB, hact, ⟨?_, ?_, h.last, h.head⟩, by simp,
        ?_⟩
      · simpa [hback, hnewB, left] using hr'
      · intro e he
        simp only [hnewB, List.append_nil, List.mem_append, List.mem_singleton] at he
        rcases he with he | rfl
        · exact h.new e (List.mem_append_left _ he)
        · exact hnew
      · intro e he
        simp only [hnewB, List.append_nil, List.mem_append, List.mem_singleton] at he ⊢
        rcases he with he | rfl
        · exact .inl he
        · exact .inr rfl
    · refine ⟨_, newF, newB ++ [(a, ⟨fn, param, type⟩)], hact, ⟨?_, ?_, ?_, h.head⟩, by simp, ?_⟩
      · simpa using hr'
      · intro e he
        rw [← List.append_assoc, List.mem_append, List.mem_singleton] at he
        rcases he with he | rfl
        · exact h.new e he
        · exact hnew
      · exact fun hnil => absurd hnil hback
      · intro e he
        rw [← List.append_assoc, List.mem_append, List.mem_singleton] at he
        rcases he with he | rfl
        · exact .inl he
        · exact .inr rfl

theorem After.remove (h : After head front back s newF newB) {fn : UInt32} (hfn : fn ≠ 0) :
    ∃ s' newF' newB', act head s (.remove fn) = some s' ∧ After head front back s' newF' newB' ∧
      newB'.length ≤ newB.length ∧ ∀ e ∈ newF' ++ newB', e ∈ newF ++ newB := by
  rcases h.represents.remove hfn with hnone | ⟨xs, e, ys, m', hl, -, hsome, hr'⟩
  · refine ⟨s, newF, newB, by simp [act, hnone], h, Nat.le_refl _, fun e he => he⟩
  · have hact : act head s (.remove fn) = some (m', s.2 ++ [e.1]) := by simp [act, hsome]
    have hnodup := h.represents.nodup
    have hhead : e.1 ≠ head := by
      rw [hl, List.nodup_cons] at hnodup
      rintro heq
      exact hnodup.1 (by simp [← heq])
    -- the other entries have other addresses
    have hothers : xs ++ ys = (xs ++ e :: ys).filter fun d => d.1 ≠ e.1 := by
      rw [hl, List.nodup_cons, List.map_append, List.map_cons, List.nodup_append,
        List.nodup_cons] at hnodup
      obtain ⟨-, -, ⟨hys, -⟩, hxs⟩ := hnodup
      rw [List.filter_append, List.filter_cons_of_neg (by simp)]
      congr 1
      · symm
        rw [List.filter_eq_self]
        intro d hd
        simpa using hxs d.1 (List.mem_map_of_mem hd) e.1 List.mem_cons_self
      · symm
        rw [List.filter_eq_self]
        intro d hd
        have hne : d.1 ≠ e.1 := fun heq => hys (heq ▸ List.mem_map_of_mem (f := Prod.fst) hd)
        simpa using hne
    refine ⟨_, newF.filter fun d => d.1 ≠ e.1, newB.filter fun d => d.1 ≠ e.1, hact,
      ⟨?_, ?_, ?_, ?_⟩, List.length_filter_le _ _, ?_⟩
    · rw [left_concat, left_concat, ← List.filter_append, ← List.filter_append,
        ← List.filter_append, hl, ← hothers]
      exact hr'
    · intro d hd hmem
      rw [← List.filter_append, List.mem_filter] at hd
      exact List.mem_append_left _ (h.new d hd.1 hmem)
    · intro hback
      rw [h.last hback]
      rfl
    · rw [List.mem_append, List.mem_singleton, not_or]
      exact ⟨h.head, hhead.symm⟩
    · intro d hd
      rw [← List.filter_append, List.mem_filter] at hd
      exact hd.1

/-- A call ends, and the list is what is left of it with the new entries. -/
theorem After.call {actions : List Action} : ∀ {s : Mem × List Addr} {newF newB : List Entry},
    After head front back s newF newB →
    Meets (act head) (fun s a => a.Allowed s.1) s actions →
    ∃ s' newF' newB', run (act head) s actions = some s' ∧ After head front back s' newF' newB' ∧
      newB'.length ≤ newB.length + (nodes actions).length ∧
      ∀ e ∈ newF' ++ newB', e ∈ newF ++ newB ∨ e.1 ∈ nodes actions := by
  induction actions with
  | nil =>
    intro s newF newB h _
    exact ⟨s, newF, newB, rfl, h, by simp, fun e he => .inl he⟩
  | cons a actions ih =>
    intro s newF newB h hmeets
    obtain ⟨s₁, newF₁, newB₁, hs₁, h₁, hlen₁, hnew₁⟩ : ∃ s₁ newF₁ newB₁, act head s a = some s₁ ∧
        After head front back s₁ newF₁ newB₁ ∧
        newB₁.length ≤ newB.length + a.node.toList.length ∧
        ∀ e ∈ newF₁ ++ newB₁, e ∈ newF ++ newB ∨ e.1 ∈ a.node := by
      cases a with
      | install fn param type node => exact h.install hmeets.1
      | remove fn =>
        obtain ⟨s₁, newF₁, newB₁, hs₁, h₁, hlen₁, hnew₁⟩ := h.remove hmeets.1
        exact ⟨s₁, newF₁, newB₁, hs₁, h₁, by simpa [Action.node] using hlen₁,
          fun e he => .inl (hnew₁ e he)⟩
    obtain ⟨s', newF', newB', hs', h', hlen', hnew'⟩ := ih h₁ (hmeets.2 s₁ hs₁)
    have hnodes : nodes (a :: actions) = a.node.toList ++ nodes actions := by
      cases hnode : a.node <;> simp [nodes, hnode]
    refine ⟨s', newF', newB', (run_cons_some _).mpr ⟨s₁, hs₁, hs'⟩, h', ?_, ?_⟩
    · rw [hnodes, List.length_append]
      omega
    · intro e he
      rw [hnodes]
      rcases hnew' e he with he | he
      · rcases hnew₁ e he with he | he
        · exact .inl he
        · exact .inr (List.mem_append_left _ (Option.mem_toList.mpr he))
      · exact .inr (List.mem_append_right _ he)

/-- The entry behind the running one stays there when it is not freed. -/
theorem After.next (h : After head front back s newF newB)
    (hfreed : (back.map Prod.fst).head?.getD head ∉ s.2) :
    ((left back s.2 ++ newB).map Prod.fst).head?.getD head =
      (back.map Prod.fst).head?.getD head := by
  cases back with
  | nil => simp [left, h.last rfl]
  | cons b back =>
    have hb : b.1 ∉ s.2 := by simpa using hfreed
    simp [left, hb]

end

/-! ### The dispatch -/

/-- Those of some entries that are entries of the start and not freed since. -/
def stays (l₀ : List Entry) (freed : List Addr) (l : List Entry) : List Entry :=
  l.filter fun e => e ∈ l₀ ∧ e.1 ∉ freed

/-- In front of a call, or at the end: the next entry is live, at the end every entry of the start
    that was not removed ran once and in order, and the links lead to live nodes that are linked
    back. -/
structure Survives (head : Addr) (l₀ : List Entry) (d : Dispatch) : Prop where
  live : d.ele ≠ head → (d.mem.isrcb d.ele).isSome
  ran : d.ele = head → stays l₀ d.freed d.runs = stays l₀ d.freed l₀
  linked : ∀ a, (d.mem.list a).isSome →
    (∃ b, d.mem.next a = some b ∧ d.mem.prev b = some a) ∧
      ∃ b, d.mem.prev a = some b ∧ d.mem.next b = some a

/-- The actions of a handler meet their assertions. -/
def Permitted (head : Addr) (d : Dispatch) (actions : List Action) : Prop :=
  Meets (act head) (fun s a => a.Allowed s.1) (d.mem, []) actions

/-- The handler does not free the entry behind its own. -/
def Steady (head : Addr) (d : Dispatch) (actions : List Action) : Prop :=
  d.ele ≠ head → ∀ next ∈ d.mem.next d.ele, ∀ s ∈ run (act head) (d.mem, []) actions, next ∉ s.2

/-- `malloc` does not answer with the block of the entry behind. -/
def Unused (d : Dispatch) (actions : List Action) : Prop :=
  ∀ next ∈ d.mem.next d.ele, next ∉ nodes actions

/-- The walk is in front of `back`, and the entries of the start that stay are there or ran. -/
structure Inv (head : Addr) (l₀ : List Entry) (d : Dispatch) (front back : List Entry) : Prop where
  represents : Represents head d.mem (front ++ back)
  ele : d.ele = (back.map Prod.fst).head?.getD head
  kept : stays l₀ d.freed (front ++ back) = stays l₀ d.freed l₀
  ran : stays l₀ d.freed d.runs = stays l₀ d.freed front

section

variable {head : Addr} {l₀ front back : List Entry} {d : Dispatch}

theorem mem_stays {freed : List Addr} {l : List Entry} {e : Entry} :
    e ∈ stays l₀ freed l ↔ e ∈ l ∧ e ∈ l₀ ∧ e.1 ∉ freed := by
  simp [stays]

theorem stays_append (freed : List Addr) (l l' : List Entry) :
    stays l₀ freed (l ++ l') = stays l₀ freed l ++ stays l₀ freed l' :=
  List.filter_append _ _

/-- With more blocks freed, fewer entries stay. -/
theorem stays_freed (freed freed' : List Addr) (l : List Entry) :
    stays l₀ (freed ++ freed') l = left (stays l₀ freed l) freed' := by
  rw [stays, left, stays, List.filter_filter]
  apply List.filter_congr
  intro e _
  simp only [List.mem_append, not_or, ← Bool.decide_and, decide_eq_decide]
  tauto

theorem stays_left (freed freed' : List Addr) (l : List Entry) :
    stays l₀ (freed ++ freed') (left l freed') = stays l₀ (freed ++ freed') l := by
  rw [stays, left, stays, List.filter_filter]
  apply List.filter_congr
  intro e _
  simp only [List.mem_append, not_or, ← Bool.decide_and, decide_eq_decide]
  tauto

theorem inv_start {m : Mem} (hr : Represents head m l₀) (hs : start head m = some d) :
    Inv head l₀ d [] l₀ := by
  rw [start, hr.next_head, Option.map_some, Option.some.injEq] at hs
  subst hs
  exact ⟨hr, rfl, rfl, rfl⟩

theorem Inv.back_eq_nil (h : Inv head l₀ d front back) : d.ele = head ↔ back = [] := by
  rw [h.ele]
  cases back with
  | nil => simp
  | cons e back =>
    have hnodup := h.represents.nodup
    rw [List.nodup_cons] at hnodup
    have hne : e.1 ≠ head := by
      rintro heq
      exact hnodup.1 (by simp [← heq])
    simpa using hne

theorem Inv.survives (h : Inv head l₀ d front back) : Survives head l₀ d where
  live := by
    intro hele
    cases back with
    | nil => exact absurd (h.back_eq_nil.mpr rfl) hele
    | cons e back =>
      have hisrcb : d.mem.isrcb e.1 = some e.2 := (h.represents.isrcb _ _).mpr (by simp)
      have hd : d.ele = e.1 := h.ele
      rw [hd, hisrcb]
      rfl
  ran := by
    intro hele
    have hback := h.back_eq_nil.mp hele
    have hkept := h.kept
    rw [hback, List.append_nil] at hkept
    rw [h.ran, hkept]
  linked := by
    intro a ha
    have hsome : (d.mem.next a).isSome := by simpa [Mem.next] using ha
    exact h.represents.ring.links (h.represents.live a hsome)

/-- A round of the loop. -/
theorem Inv.round {e : Entry} (h : Inv head l₀ d front (e :: back)) {actions : List Action}
    (hok : Permitted head d actions) :
    ∃ s newF newB, run (act head) (d.mem, []) actions = some s ∧
      step head d actions = some ⟨s.1, (back.map Prod.fst).head?.getD head, d.runs ++ [e],
        d.freed ++ s.2⟩ ∧
      After head (front ++ [e]) back s newF newB ∧ newB.length ≤ (nodes actions).length ∧
      ∀ e ∈ newF ++ newB, e.1 ∈ nodes actions := by
  have hd : d.ele = e.1 := h.ele
  have hr : Represents head d.mem ((front ++ [e]) ++ back) := by
    simpa using h.represents
  obtain ⟨s, newF, newB, hs, hafter, hlen, hnew⟩ := (after_nil hr).call hok
  have hisrcb : d.mem.isrcb e.1 = some e.2 := (h.represents.isrcb _ _).mpr (by simp)
  have hele : d.ele ≠ head := by
    rw [Ne, h.back_eq_nil]
    exact List.cons_ne_nil _ _
  refine ⟨s, newF, newB, hs, ?_, hafter, by simpa using hlen, by simpa using hnew⟩
  rw [step, if_neg hele, hd, h.represents.next_entry, Option.bind_some, hisrcb, Option.bind_some,
    hs, Option.map_some]

/-- A round in which the entry behind stays. -/
theorem Inv.steady_step (h : Inv head l₀ d front back) {actions : List Action}
    (hok : Permitted head d actions) (hsteady : Steady head d actions) {d' : Dispatch}
    (hstep : step head d actions = some d') :
    ∃ front' back', Inv head l₀ d' front' back' ∧
      back'.length + 1 ≤ back.length + (nodes actions).length := by
  cases back with
  | nil =>
    rw [step, if_pos (h.back_eq_nil.mpr rfl)] at hstep
    cases hstep
  | cons e back =>
    obtain ⟨s, newF, newB, hs, hround, hafter, hlen, -⟩ := h.round hok
    obtain rfl := Option.some.inj (hround.symm.trans hstep)
    have hd : d.ele = e.1 := h.ele
    have hnext : d.mem.next d.ele = some ((back.map Prod.fst).head?.getD head) := by
      rw [hd]
      exact h.represents.next_entry
    have hele : d.ele ≠ head := by
      rw [Ne, h.back_eq_nil]
      exact List.cons_ne_nil _ _
    have hfreed := hsteady hele _ hnext s hs
    have hkept : stays l₀ d.freed (front ++ e :: back) = stays l₀ d.freed l₀ := h.kept
    -- a new entry is none of the start
    have hnone : ∀ l, (∀ x ∈ l, x ∈ newF ++ newB) → stays l₀ (d.freed ++ s.2) l = [] := by
      intro l hl
      rw [List.eq_nil_iff_forall_not_mem]
      intro x hx
      obtain ⟨hxl, hx₀, hxfreed⟩ := mem_stays.mp hx
      rw [List.mem_append, not_or] at hxfreed
      have hmem : x ∈ stays l₀ d.freed (front ++ e :: back) := by
        rw [hkept, mem_stays]
        exact ⟨hx₀, hx₀, hxfreed.1⟩
      have hold : x.1 ∈ ((front ++ [e]) ++ back).map Prod.fst := by
        rw [List.append_assoc, List.singleton_append]
        exact List.mem_map_of_mem (mem_stays.mp hmem).1
      exact hxfreed.2 (hafter.new x (hl x hxl) hold)
    have hnoneF := hnone newF fun x hx => List.mem_append_left _ hx
    have hnoneB := hnone newB fun x hx => List.mem_append_right _ hx
    refine ⟨left (front ++ [e]) s.2 ++ newF, left back s.2 ++ newB,
      ⟨hafter.represents, (hafter.next hfreed).symm, ?_, ?_⟩, ?_⟩
    · rw [stays_append, stays_append, stays_append, hnoneF, hnoneB, List.append_nil,
        List.append_nil, stays_left, stays_left, ← stays_append, List.append_assoc,
        List.singleton_append, stays_freed, hkept, ← stays_freed]
    · rw [stays_append, stays_append, hnoneF, List.append_nil, stays_left, stays_append,
        stays_freed, stays_freed (l := front), h.ran]
    · have hle : (left back s.2).length ≤ back.length := List.length_filter_le _ _
      rw [List.length_append, List.length_cons]
      omega

/-- A round in which the entry behind is freed, and its block is not used again: the walk goes on
    with the freed block. -/
theorem Inv.visits_freed {e : Entry} (h : Inv head l₀ d front (e :: back)) {actions : List Action}
    (hok : Permitted head d actions) (hsteady : ¬ Steady head d actions)
    (hunused : Unused d actions) :
    ∃ d', step head d actions = some d' ∧ ¬ Survives head l₀ d' := by
  obtain ⟨s, newF, newB, hs, hround, hafter, -, hnew⟩ := h.round hok
  have hd : d.ele = e.1 := h.ele
  have hnext : d.mem.next d.ele = some ((back.map Prod.fst).head?.getD head) := by
    rw [hd]
    exact h.represents.next_entry
  generalize (back.map Prod.fst).head?.getD head = next at hround hnext
  have hfreed : next ∈ s.2 := by
    by_contra hfreed
    refine hsteady fun _ next' hnext' s' hs' => ?_
    obtain rfl : next = next' := Option.some.inj (hnext.symm.trans hnext')
    obtain rfl : s = s' := Option.some.inj (hs.symm.trans hs')
    exact hfreed
  refine ⟨_, hround, fun hsurvives => ?_⟩
  have hhead : next ≠ head := fun heq => hafter.head (heq ▸ hfreed)
  obtain ⟨b, hb⟩ := Option.isSome_iff_exists.mp (hsurvives.live hhead)
  -- an entry of the list is not freed, or it is new
  have hmem := (hafter.represents.isrcb next b).mp hb
  simp only [List.mem_append, mem_left] at hmem
  have hnewmem : (next, b) ∈ newF ++ newB := by
    rw [List.mem_append]
    tauto
  exact hunused next hnext (hnew _ hnewmem)

/-! ### Whole dispatches -/

/-- A run whose calls leave the entry behind in place. -/
theorem Inv.steady_run {tr : List (List Action)} : ∀ {d : Dispatch} {front back : List Entry},
    Inv head l₀ d front back → Meets (step head) (Permitted head) d tr →
    Meets (step head) (Steady head) d tr → ∀ {d'},
    run (step head) d tr = some d' → ∃ front' back', Inv head l₀ d' front' back' ∧
      back'.length + tr.length ≤ back.length + (tr.flatMap nodes).length := by
  induction tr with
  | nil =>
    intro d front back h _ _ d' hrun
    obtain rfl : d = d' := by simpa using hrun
    exact ⟨front, back, h, Nat.le_refl _⟩
  | cons actions tr ih =>
    intro d front back h hok hsteady d' hrun
    obtain ⟨d₁, hd₁, hrun₁⟩ := (run_cons_some _).mp hrun
    obtain ⟨front₁, back₁, h₁, hlen₁⟩ := h.steady_step hok.1 hsteady.1 hd₁
    obtain ⟨front', back', h', hlen'⟩ := ih h₁ (hok.2 d₁ hd₁) (hsteady.2 d₁ hd₁) hrun₁
    refine ⟨front', back', h', ?_⟩
    rw [List.flatMap_cons, List.length_append, List.length_cons]
    omega

/-- Where no block is used again at once, only such a run survives. -/
theorem Inv.meets_steady {tr : List (List Action)} : ∀ {d : Dispatch} {front back : List Entry},
    Inv head l₀ d front back → Meets (step head) (Permitted head) d tr →
    Meets (step head) Unused d tr →
    Always (step head) (Survives head l₀) d tr →
    Meets (step head) (Steady head) d tr := by
  induction tr with
  | nil =>
    intro d front back _ _ _ _
    trivial
  | cons actions tr ih =>
    intro d front back h hok hunused halways
    have hsteady : Steady head d actions := by
      by_contra hsteady
      cases back with
      | nil => exact hsteady fun hele => absurd (h.back_eq_nil.mpr rfl) hele
      | cons e back =>
        obtain ⟨d', hd', hfails⟩ := h.visits_freed hok.1 hsteady hunused.1
        exact hfails ((halways.2 d' hd').head _)
    refine ⟨hsteady, fun d' hd' => ?_⟩
    obtain ⟨front', back', h', -⟩ := h.steady_step hok.1 hsteady hd'
    exact ih h' (hok.2 d' hd') (hunused.2 d' hd') (halways.2 d' hd')

/-- Without a handler that frees the entry behind its own, a dispatch survives, it goes on until
    its end, and it makes no more calls than there are entries at its start and installed ones.
    Where no freed block is used again at once, it does not survive otherwise. -/
theorem dispatch_survives {m : Mem} {tr : List (List Action)} (hr : Represents head m l₀)
    (hs : start head m = some d) (hok : Meets (step head) (Permitted head) d tr) :
    (Meets (step head) (Steady head) d tr →
      Always (step head) (Survives head l₀) d tr ∧
      ∀ d', run (step head) d tr = some d' → d'.ele ≠ head →
        tr.length < l₀.length + (tr.flatMap nodes).length ∧
          ∀ actions, Permitted head d' actions → (step head d' actions).isSome) ∧
    (Meets (step head) Unused d tr → Always (step head) (Survives head l₀) d tr →
      Meets (step head) (Steady head) d tr) := by
  have hinv := inv_start hr hs
  refine ⟨fun hsteady => ⟨?_, ?_⟩, fun hunused halways => hinv.meets_steady hok hunused halways⟩
  · refine always_of_meets (step head) (I := fun d => ∃ front back, Inv head l₀ d front back)
      ?_ ?_ ⟨[], l₀, hinv⟩ (hok.and (step head) hsteady)
    · rintro d ⟨front, back, h⟩
      exact h.survives
    · rintro d actions d' ⟨front, back, h⟩ ⟨hok, hsteady⟩ hstep
      obtain ⟨front', back', h', -⟩ := h.steady_step hok hsteady hstep
      exact ⟨front', back', h'⟩
  · intro d' hrun hele
    obtain ⟨front, back, h, hlen⟩ := hinv.steady_run hok hsteady hrun
    cases back with
    | nil => exact absurd (h.back_eq_nil.mpr rfl) hele
    | cons e back =>
      rw [List.length_cons] at hlen
      refine ⟨by omega, fun actions hok' => ?_⟩
      obtain ⟨s, newF, newB, -, hround, -⟩ := h.round hok'
      rw [hround]
      rfl

end

/-- The list of two handlers. -/
def exampleEntries : List Entry := [(32, ⟨100, 0, 0⟩), (48, ⟨200, 0, 0⟩)]

/-- The memory after their installation. -/
def exampleMem : Mem :=
  ((run (act 16) (INIT_LIST_HEAD 16, [])
    [.install 100 0 0 (some 32), .install 200 0 0 (some 48)]).map Prod.fst).getD
      (INIT_LIST_HEAD 16)

theorem represents_exampleMem : Represents 16 exampleMem exampleEntries := by
  have h₁ : (INIT_LIST_HEAD 16).list 32 = none := by decide +kernel
  obtain ⟨m₁, hm₁, hr₁⟩ := (represents_init 16).install 0 (by decide +kernel : (100 : UInt32) ≠ 0) 0 h₁
  have h₂ : m₁.list 48 = none := by
    rw [← next_eq_none_iff]
    by_contra hsome
    have hmem := hr₁.live 48 (Option.isSome_iff_ne_none.mpr hsome)
    simp at hmem
  obtain ⟨m₂, hm₂, hr₂⟩ := hr₁.install 0 (by decide +kernel : (200 : UInt32) ≠ 0) 0 h₂
  have heq : exampleMem = m₂ := by
    simp [exampleMem, run, act, hm₁, hm₂]
  exact heq ▸ hr₂

/-- The start of a dispatch of the two handlers. -/
def exampleDispatch : Dispatch := ⟨exampleMem, 32, [], []⟩

instance (m : Mem) : (a : Action) → Decidable (a.Allowed m)
  | .install fn _ _ node =>
    @instDecidableAnd (fn ≠ 0) (∀ a ∈ node, m.list a = none) inferInstance
      (Option.decidableForallMem node)
  | .remove fn => inferInstanceAs (Decidable (fn ≠ 0))

instance (head : Addr) (d : Dispatch) (actions : List Action) :
    Decidable (Permitted head d actions) :=
  inferInstanceAs (Decidable (Meets _ _ _ _))

instance (head : Addr) (d : Dispatch) (actions : List Action) : Decidable (Steady head d actions) :=
  @instDecidableForall (d.ele ≠ head) (∀ next ∈ d.mem.next d.ele, _) inferInstance
    (Option.decidableForallMem (d.mem.next d.ele))

/-- The first handler installs itself again, the second one does nothing, and the new entry
    removes the second one. -/
theorem dispatch_survives_reinstalled :
    Always (step 16) (Survives 16 exampleEntries) exampleDispatch
      [[.remove 100, .install 100 0 0 (some 32)], [], [.remove 200]] :=
  ((dispatch_survives represents_exampleMem rfl (by decide +kernel)).1 (by decide +kernel)).1

/-- The first handler removes the second one, and the walk goes on with the freed block. -/
theorem dispatch_fails :
    Represents 16 exampleMem exampleEntries ∧ start 16 exampleMem = some exampleDispatch ∧
      Meets (step 16) (Permitted 16) exampleDispatch [[.remove 200]] ∧
      ¬ Always (step 16) (Survives 16 exampleEntries) exampleDispatch [[.remove 200]] := by
  refine ⟨represents_exampleMem, rfl, by decide +kernel, ?_⟩
  rintro ⟨-, hnext⟩
  obtain ⟨d', hd', hele, hfreed⟩ : ∃ d', step 16 exampleDispatch [.remove 200] = some d' ∧
      d'.ele ≠ 16 ∧ d'.mem.isrcb d'.ele = none := ⟨_, rfl, by decide +kernel, by decide +kernel⟩
  have hlive := (hnext d' hd').live hele
  rw [hfreed] at hlive
  cases hlive

end Hcrtos.Native.PortDoIrq
