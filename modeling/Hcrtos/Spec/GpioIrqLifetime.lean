import Hcrtos.Spec.GpioIrqFanOut

/-!
# Lifetime of the GPIO nodes

The nodes that are linked in are exactly those of the registered callbacks, so a block on the
interrupt is sound as long as its node stays linked in. No call ever replaces the node of a
block: the block goes stale with the first free of that node, whatever else its pad has.

## Key results

- `linked_step`: a call that frees no node of a block keeps the nodes linked in
- `always_blocks_live_iff`: the runs along which the blocks refer to live nodes
-/

namespace Hcrtos.Native.GpioIrq

open PortInterrupt Lts

variable {c : Symbols}

/-- The lists hold the nodes of the registered callbacks, and each block refers to one of
    them. -/
structure Linked (c : Symbols) (s : State) : Prop where
  nodes : ∀ p, (s.isr_head p).map s.heap = (s.registered p).map some
  pads : ∀ p a n, a ∈ s.isr_head p → s.heap a = some n → n.padctl = p
  nodup : ∀ p, (s.isr_head p).Nodup
  blocks : ∀ blk ∈ entries c s, ∃ p, blk.param ∈ s.isr_head p

theorem linked_init : Linked c init where
  nodes := fun _ => rfl
  pads := fun _ _ _ ha => by simp [init] at ha
  nodup := fun _ => List.nodup_nil
  blocks := fun _ hblk => by simp [entries, init, PortInterrupt.init] at hblk

theorem Linked.live {s : State} (h : Linked c s) {p : Nat} {a : Addr} (ha : a ∈ s.isr_head p) :
    ∃ n, s.heap a = some n ∧ n.padctl = p ∧ s.registered p ≠ [] := by
  have hmem : s.heap a ∈ (s.registered p).map some := h.nodes p ▸ List.mem_map_of_mem ha
  obtain ⟨n, hn, heq⟩ := List.mem_map.mp hmem
  exact ⟨n, heq.symm, h.pads p a n ha heq.symm, List.ne_nil_of_mem hn⟩

theorem Linked.lifetime {s : State} (h : Linked c s) : Lifetime c s := by
  intro blk hblk
  obtain ⟨p, hp⟩ := h.blocks blk hblk
  obtain ⟨n, hn, hpad, hreg⟩ := h.live hp
  exact ⟨n, hn, hpad ▸ hreg⟩

/-- The calls that free no node of a block. -/
def KeepsLinked (c : Symbols) (s : State) : Action → Prop
  | .request .. => True
  | .free padctl param => s.halted = false → padctl < PINPAD_MAX →
      ∀ a ∈ findNode s padctl param, ∀ blk ∈ entries c s, blk.param ≠ a

/-- Taking the first node with the parameter out of a list takes out its callback. -/
theorem map_erase_of_find {heap : Addr → Option GpioIrqParam} {param : UInt32} {a : Addr}
    {l : List Addr} {r : List GpioIrqParam} (hnodes : l.map heap = r.map some)
    (hfind : l.find? (fun a => (heap a).any fun n => n.param = param) = some a) :
    (l.erase a).map heap = (r.eraseP fun n => n.param = param).map some := by
  induction l generalizing r with
  | nil => contradiction
  | cons b l ih =>
    cases r with
    | nil => contradiction
    | cons n r =>
      simp only [List.map_cons, List.cons.injEq] at hnodes
      obtain ⟨hb, hrest⟩ := hnodes
      by_cases hn : n.param = param
      · obtain rfl : b = a := by simpa [List.find?_cons, hb, hn] using hfind
        simp [hn, hrest]
      · have hfind' : l.find? (fun a => (heap a).any fun n => n.param = param) = some a := by
          simpa [List.find?_cons, hb, hn] using hfind
        -- the node found further on has the parameter, so it is another one
        have hne : b ≠ a := by
          rintro rfl
          have := List.find?_some hfind'
          simp [hb, hn] at this
        rw [List.erase_cons_tail (by simpa using hne), List.eraseP_cons_of_neg (by simpa using hn)]
        simp [hb, ih hrest hfind']

theorem Linked.request {s s' : State} (h : Linked c s) {p : Nat} {n : GpioIrqParam} {a : Addr}
    {isrOk : Bool} (hreq : Requested c s s' p n a isrOk) (hp : n.padctl = p)
    (hfree : s.heap a = none) : Linked c s' := by
  -- the nodes in use are elsewhere
  have hold : ∀ q, ∀ b ∈ s.isr_head q, b ≠ a := by
    rintro q b hb rfl
    obtain ⟨m, hm, -⟩ := h.live hb
    simp [hfree] at hm
  have hheap : ∀ q, ∀ b ∈ s.isr_head q, s'.heap b = s.heap b := fun q b hb => by
    rw [hreq.heap, Function.update_of_ne (hold q b hb)]
  have hself : s'.heap a = some n := by rw [hreq.heap, Function.update_self]
  have hhead : ∀ q, s'.isr_head q = if q = p then a :: s.isr_head p else s.isr_head q :=
    fun q => by rw [hreq.isr_head, Function.update_apply]
  constructor
  · intro q
    rw [hhead, hreq.registered, Function.update_apply]
    split
    · rw [List.map_cons, List.map_cons, hself, ← h.nodes p, List.map_congr_left (hheap p)]
    · rw [← h.nodes q, List.map_congr_left (hheap q)]
  · intro q b m hb hm
    rw [hhead] at hb
    split at hb
    · rename_i hq
      subst hq
      cases List.mem_cons.mp hb with
      | inl heq =>
        subst heq
        obtain rfl : n = m := by simpa [hself] using hm
        exact hp
      | inr hb => exact h.pads q b m hb (hheap q b hb ▸ hm)
    · exact h.pads q b m hb (hheap q b hb ▸ hm)
  · intro q
    rw [hhead]
    split
    · exact List.nodup_cons.mpr ⟨fun hmem => hold p a hmem rfl, h.nodup p⟩
    · exact h.nodup q
  · intro blk hblk
    rw [hreq.entries, List.mem_append] at hblk
    cases hblk with
    | inl hblk =>
      obtain ⟨q, hq⟩ := h.blocks blk hblk
      refine ⟨q, ?_⟩
      rw [hhead]
      split
      · rename_i hqp
        exact List.mem_cons_of_mem a (hqp ▸ hq)
      · exact hq
    | inr hblk =>
      split at hblk
      · obtain rfl : blk = ⟨c.gpio_interrupt, a, 0⟩ := by simpa using hblk
        exact ⟨p, by simp [hhead]⟩
      · simp at hblk

/-- What a free leaves of the nodes that stay linked in. -/
theorem Freed.heap_of_ne {s s' : State} {p : Nat} {param : UInt32} {a b : Addr}
    (h : Freed c s s' p param a) (hb : b ≠ a) : s'.heap b = s.heap b := by
  by_cases hnil : (s.isr_head p).erase a = []
  · rw [(h.last hnil).2]
  · rw [(h.more hnil).2, Function.update_of_ne hb]

theorem Linked.free {s s' : State} (h : Linked c s) {p : Nat} {param : UInt32} {a : Addr}
    (hfind : findNode s p param = some a) (hfreed : Freed c s s' p param a)
    (hblocks : ∀ blk ∈ entries c s, blk.param ≠ a) : Linked c s' := by
  have ha : a ∈ s.isr_head p := List.mem_of_find?_eq_some hfind
  -- the node is linked into the list of its own pad, and there once
  have hother : ∀ q, q ≠ p → a ∉ s.isr_head q := by
    intro q hq hmem
    obtain ⟨n, hn, hpad, -⟩ := h.live ha
    exact hq ((h.pads q a n hmem hn).symm.trans hpad)
  have hhead : ∀ q, s'.isr_head q =
      if q = p then (s.isr_head p).erase a else s.isr_head q :=
    fun q => by rw [hfreed.isr_head, Function.update_apply]
  have hne : ∀ q, ∀ b ∈ s'.isr_head q, b ≠ a ∧ b ∈ s.isr_head q := by
    intro q b hb
    rw [hhead] at hb
    split at hb
    · rename_i hq
      have hb' := ((h.nodup p).mem_erase_iff).mp hb
      exact ⟨hb'.1, hq ▸ hb'.2⟩
    · rename_i hq
      refine ⟨?_, hb⟩
      rintro rfl
      exact hother q hq hb
  have hheap : ∀ q, ∀ b ∈ s'.isr_head q, s'.heap b = s.heap b :=
    fun q b hb => hfreed.heap_of_ne (hne q b hb).1
  constructor
  · intro q
    rw [List.map_congr_left (hheap q), hhead, hfreed.registered, Function.update_apply]
    split
    · exact map_erase_of_find (h.nodes p) hfind
    · exact h.nodes q
  · intro q b m hb hm
    exact h.pads q b m (hne q b hb).2 (hheap q b hb ▸ hm)
  · intro q
    rw [hhead]
    split
    · exact (h.nodup p).erase a
    · exact h.nodup q
  · intro blk hblk
    rw [hfreed.entries] at hblk
    obtain ⟨q, hq⟩ := h.blocks blk hblk
    refine ⟨q, ?_⟩
    rw [hhead]
    split
    · rename_i hqp
      exact ((h.nodup p).mem_erase_iff).mpr ⟨hblocks blk hblk, hqp ▸ hq⟩
    · exact hq

theorem linked_step {s s' : State} {act : Action} (h : Linked c s) (hG : KeepsLinked c s act)
    (hs : step c s act = some s') : Linked c s' := by
  cases act with
  | request p callback param type node isrOk =>
    obtain ⟨-, ⟨-, rfl⟩ | ⟨-, a, -, -, hfree, hreq⟩⟩ := request_cases hs
    · exact h
    · exact h.request hreq rfl hfree
  | free p param =>
    obtain ⟨hrun, ⟨-, rfl⟩ | ⟨hp, a, hfind, hfreed⟩⟩ := free_cases hs
    · exact h
    · exact h.free hfind hfreed (hG hrun hp a hfind)

/-- A block whose node is freed is not taken off the interrupt. -/
theorem not_lifetime_of_not_keepsLinked {s : State} {act : Action} (h : Linked c s)
    (hG : ¬ KeepsLinked c s act) : ∃ s', step c s act = some s' ∧ ¬ Lifetime c s' := by
  cases act with
  | request => exact absurd trivial hG
  | free p param =>
    simp only [KeepsLinked, Classical.not_imp, not_forall, not_not] at hG
    obtain ⟨hrun, hp, a, hfind, blk, hblk, hparam⟩ := hG
    have hs : step c s (.free p param) = some (gpio_irq_free c s p param).2 := by
      simp only [step]
      exact if_pos hrun
    refine ⟨_, hs, fun hl => ?_⟩
    obtain ⟨-, ⟨hno, -⟩ | ⟨-, a', hfind', hfreed⟩⟩ := free_cases hs
    · cases hno with
      | inl hno => exact hno hp
      | inr hno => simp [hno] at hfind
    · obtain rfl : a' = a := by simpa [hfind'] using hfind
      have hblk' : blk ∈ entries c (gpio_irq_free c s p param).2 := by rwa [hfreed.entries]
      obtain ⟨n, hn, hreg⟩ := hl blk hblk'
      rw [hparam] at hn
      by_cases hnil : (s.isr_head p).erase a' = []
      · -- the pad has lost its last callback, and the block is still there
        rw [(hfreed.last hnil).2] at hn
        have hpad := h.pads p a' n (List.mem_of_find?_eq_some hfind') hn
        have hempty := map_erase_of_find (h.nodes p) hfind'
        rw [hnil, List.map_nil, eq_comm, List.map_eq_nil_iff] at hempty
        rw [hpad, hfreed.registered, Function.update_self] at hreg
        exact hreg hempty
      · rw [(hfreed.more hnil).2, Function.update_self] at hn
        contradiction

/-- The blocks refer to live nodes of pads with a callback in every state of a run exactly
    when no call of the run frees the node of a block. -/
theorem always_blocks_live_iff (tr : List Action) :
    Always (step c) (Lifetime c) init tr ↔ Meets (step c) (KeepsLinked c) init tr :=
  always_iff_meets (step c) (fun _ h => h.lifetime) (fun _ _ _ h hG hs => linked_step h hG hs)
    (fun _ _ h hG => not_lifetime_of_not_keepsLinked h hG) linked_init

/-- The block of a pad with two callbacks goes stale when the first one is freed. -/
theorem blocks_live_fails : ∃ s, run (step exampleSymbols) init
    [.request 3 0x80002000 1 0 (some 0x1000) true,
      .request 3 0x80003000 2 0 (some 0x2000) true, .free 3 1] = some s ∧
      ¬ Lifetime exampleSymbols s := by
  refine ⟨_, rfl, fun hl => ?_⟩
  obtain ⟨n, hn, -⟩ := hl ⟨0x80001000, 0x1000, 0⟩ (by decide)
  revert n
  decide

end Hcrtos.Native.GpioIrq
