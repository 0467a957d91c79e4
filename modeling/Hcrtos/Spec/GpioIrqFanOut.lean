import Hcrtos.Native.GpioIrq
import Hcrtos.Spec.PortInterruptMasks

/-!
# Fan-out of the GPIO interrupts

The installed handler of a pad keeps the node of the first request as its parameter, and the
dispatch follows the `next` links from there, while later requests are linked in front. A node
is thus invoked as long as it is the only one of its pad, and nothing is ever removed from the
interrupt: the handler that `gpio_irq_free` passes for the last node is `NULL`.

## Key results

- `request_cases`, `free_cases`: what a call does to the state
- `raise_of_mem`, `raise_of_not_mem`: which callbacks an interrupt invokes
- `always_fansOut_iff`: the runs along which the interrupts reach the registered callbacks
-/

namespace Hcrtos.Native.GpioIrq

open PortInterrupt Lts

variable {c : Symbols}

/-- The blocks installed on the GPIO interrupt. -/
abbrev entries (c : Symbols) (s : State) : List IsrCtrlBlk := s.port.isr_head c.GPIO_INTR

/-! ### The calls -/

/-- A request for the pad `p` linked the node `n` in at the address `a`. -/
structure Requested (c : Symbols) (s s' : State) (p : Nat) (n : GpioIrqParam) (a : Addr)
    (isrOk : Bool) : Prop where
  heap : s'.heap = Function.update s.heap a (some n)
  isr_head : s'.isr_head = Function.update s.isr_head p (a :: s.isr_head p)
  registered : s'.registered = Function.update s.registered p (n :: s.registered p)
  halted : s'.halted = false
  entries : entries c s' = entries c s ++
    if s.isr_head p = [] ∧ isrOk = true then [⟨c.gpio_interrupt, a, 0⟩] else []

theorem install_entries (s : PortInterrupt.State) (a : Addr) (isrOk : Bool) :
    ∃ s', xPortInterruptInstallISR c.mbox s c.GPIO_INTR c.gpio_interrupt a 0 isrOk = some s' ∧
      s'.isr_head c.GPIO_INTR = s.isr_head c.GPIO_INTR ++
        if isrOk = true then [⟨c.gpio_interrupt, a, 0⟩] else [] := by
  unfold xPortInterruptInstallISR
  rw [if_pos ⟨c.isr_ne, c.intr_lt⟩]
  cases isrOk with
  | false => exact ⟨s, rfl, by simp⟩
  | true =>
    exact ⟨_, rfl, by rw [xPortInterruptEnable_isr_head]; simp⟩

/-- A request does nothing, or it links a new node in at the head of the list of its pad. -/
theorem request_cases {s s' : State} {p type : Nat} {callback param : UInt32}
    {node : Option Addr} {isrOk : Bool}
    (h : step c s (.request p callback param type node isrOk) = some s') :
    s.halted = false ∧ ((¬ p < PINPAD_MAX ∨ node = none) ∧ s' = s ∨
      p < PINPAD_MAX ∧ ∃ a, node = some a ∧ a ≠ 0 ∧ s.heap a = none ∧
        Requested c s s' p ⟨p, param, callback, type⟩ a isrOk) := by
  simp only [step] at h
  split at h
  · rename_i hok
    obtain ⟨hrun, hnode⟩ := hok
    refine ⟨hrun, ?_⟩
    cases h
    by_cases hp : p < PINPAD_MAX
    · cases node with
      | none => exact .inl ⟨.inr rfl, by simp [gpio_irq_request, hp]⟩
      | some a =>
        obtain ⟨ha, hfree⟩ : a ≠ 0 ∧ s.heap a = none := by simpa using hnode
        refine .inr ⟨hp, a, rfl, ha, hfree, ?_⟩
        simp only [gpio_irq_request, hp, not_true_eq_false, if_false]
        split
        · rename_i hnil
          -- the first request installs the handler, and its assertions hold
          obtain ⟨port, hport, hentries⟩ := install_entries (c := c) s.port a isrOk
          simp only [hport]
          constructor
          · rfl
          · simp [hnil]
          · rfl
          · exact hrun
          · simpa [hnil] using hentries
        · rename_i hcons
          constructor
          · rfl
          · rfl
          · rfl
          · exact hrun
          · simp [hcons]
    · exact .inl ⟨.inl hp, by simp [gpio_irq_request, hp]⟩
  · contradiction

/-- A free took the node at the address `a` out of the list of the pad `p`. -/
structure Freed (c : Symbols) (s s' : State) (p : Nat) (param : UInt32) (a : Addr) : Prop where
  isr_head : s'.isr_head = Function.update s.isr_head p ((s.isr_head p).erase a)
  registered : s'.registered = Function.update s.registered p
    ((s.registered p).eraseP fun n => n.param = param)
  entries : entries c s' = entries c s
  last : (s.isr_head p).erase a = [] → s'.halted = true ∧ s'.heap = s.heap
  more : (s.isr_head p).erase a ≠ [] →
    s'.halted = false ∧ s'.heap = Function.update s.heap a none

/-- A free does nothing, or it unlinks the node it finds. The assertion of
    `xPortInterruptRemoveISR` fails when that was the last one of the pad. -/
theorem free_cases {s s' : State} {p : Nat} {param : UInt32}
    (h : step c s (.free p param) = some s') :
    s.halted = false ∧ ((¬ p < PINPAD_MAX ∨ findNode s p param = none) ∧ s' = s ∨
      p < PINPAD_MAX ∧ ∃ a, findNode s p param = some a ∧ Freed c s s' p param a) := by
  simp only [step] at h
  split at h
  · rename_i hrun
    refine ⟨hrun, ?_⟩
    cases h
    by_cases hp : p < PINPAD_MAX
    · cases hfind : findNode s p param with
      | none => exact .inl ⟨.inr rfl, by simp [gpio_irq_free, hp, hfind]⟩
      | some a =>
        refine .inr ⟨hp, a, rfl, ?_⟩
        simp only [gpio_irq_free, hp, hfind, not_true_eq_false, if_false]
        split
        · rename_i hnil
          simp only [xPortInterruptRemoveISR, ne_eq, not_true_eq_false, false_and, if_false]
          exact ⟨by simp [hnil], rfl, rfl, fun _ => ⟨rfl, rfl⟩, fun hne => absurd hnil hne⟩
        · rename_i hcons
          exact ⟨rfl, rfl, rfl, fun hnil => absurd hnil hcons, fun _ => ⟨hrun, rfl⟩⟩
    · exact .inl ⟨.inl hp, by simp [gpio_irq_free, hp]⟩
  · contradiction

/-! ### The dispatch -/

/-- The block hands its handler a node of the pad `q`. -/
def RefersTo (s : State) (blk : IsrCtrlBlk) (q : Nat) : Prop :=
  blk.param ≠ 0 ∧ ∃ n, s.heap blk.param = some n ∧ n.padctl = q

/-- Blocks of other pads, or any blocks once the status bit is cleared, invoke nothing. -/
theorem prvDoIrq_silent {s : State} {p : Nat} (pending : Bool) {blks : List IsrCtrlBlk}
    (rest : List IsrCtrlBlk)
    (h : ∀ blk ∈ blks, ∃ q, RefersTo s blk q ∧ (q ≠ p ∨ pending = false)) :
    prvDoIrq s p pending (blks ++ rest) = prvDoIrq s p pending rest := by
  induction blks with
  | nil => rfl
  | cons blk blks ih =>
    obtain ⟨q, ⟨hne, n, hn, hq⟩, hsilent⟩ := h blk List.mem_cons_self
    have hno : ¬ (n.padctl = p ∧ pending = true) := by
      rintro ⟨rfl, rfl⟩
      simp [hq] at hsilent
    have ih := ih fun b hb => h b (List.mem_cons_of_mem blk hb)
    rw [List.cons_append, prvDoIrq, gpio_interrupt, if_neg hne, hn]
    simp only [hno, if_false, Option.bind_some, ih]
    simp

/-- An interrupt of a pad without an installed block invokes nothing. -/
theorem raise_of_not_mem {s : State} {p : Nat}
    (h : ∀ blk ∈ entries c s, ∃ q, RefersTo s blk q ∧ q ≠ p) : raise c s p = some [] := by
  have := prvDoIrq_silent (s := s) (p := p) true [] fun blk hblk =>
    (h blk hblk).imp fun q hq => ⟨hq.1, .inl hq.2⟩
  rwa [List.append_nil] at this

/-- An interrupt of a pad with one installed block invokes the callbacks from its node on. -/
theorem raise_of_mem {s : State} {p : Nat} {pre post : List IsrCtrlBlk} {blk : IsrCtrlBlk}
    {ns : List GpioIrqParam} (hsplit : entries c s = pre ++ blk :: post)
    (hpre : ∀ b ∈ pre, ∃ q, RefersTo s b q ∧ q ≠ p) (hblk : RefersTo s blk p)
    (hpost : ∀ b ∈ post, ∃ q, RefersTo s b q)
    (hns : (nodesFrom s p blk.param).mapM s.heap = some ns) :
    raise c s p = some (ns.map GpioIrqParam.invoke) := by
  obtain ⟨hne, n, hn, hpad⟩ := hblk
  have hskip := prvDoIrq_silent (s := s) (p := p) true (blk :: post)
    fun b hb => (hpre b hb).imp fun q hq => ⟨hq.1, .inl hq.2⟩
  -- the handler clears the status bit, so the blocks after it find nothing to do
  have hrest := prvDoIrq_silent (s := s) (p := p) false []
    fun b hb => (hpost b hb).imp fun q hq => ⟨hq, .inr rfl⟩
  rw [List.append_nil] at hrest
  rw [raise, show s.port.isr_head c.GPIO_INTR = pre ++ blk :: post from hsplit, hskip, prvDoIrq,
    gpio_interrupt, if_neg hne, hn]
  simp [hpad, hns, hrest, prvDoIrq]

/-! ### One callback a pad -/

/-- Every pad has at most one callback, and the blocks on the interrupt are those of the pads
    that have one. -/
structure Single (c : Symbols) (s : State) : Prop where
  running : s.halted = false
  pads : ∀ p, s.isr_head p = [] ∧ s.registered p = [] ∨ ∃ a n, s.isr_head p = [a] ∧
    s.registered p = [n] ∧ a ≠ 0 ∧ s.heap a = some n ∧ n.padctl = p
  mem : ∀ a, a ∈ (entries c s).map IsrCtrlBlk.param ↔ ∃ p, s.isr_head p = [a]
  nodup : ((entries c s).map IsrCtrlBlk.param).Nodup

theorem single_init : Single c init where
  running := rfl
  pads := fun _ => .inl ⟨rfl, rfl⟩
  mem := by simp [entries, init, PortInterrupt.init]
  nodup := by simp [entries, init, PortInterrupt.init]

/-- A node that is taken into use disturbs no block. -/
theorem RefersTo.update {s s' : State} {blk : IsrCtrlBlk} {q : Nat} {a : Addr}
    {n : Option GpioIrqParam} (h : RefersTo s blk q) (hfree : s.heap a = none)
    (hheap : s'.heap = Function.update s.heap a n) : RefersTo s' blk q := by
  obtain ⟨hne, m, hm, hq⟩ := h
  have hna : blk.param ≠ a := by
    rintro rfl
    simp [hfree] at hm
  exact ⟨hne, m, by rw [hheap, Function.update_of_ne hna, hm], hq⟩

theorem Single.refersTo {s : State} (h : Single c s) {blk : IsrCtrlBlk}
    (hblk : blk ∈ entries c s) : ∃ q, RefersTo s blk q ∧ s.isr_head q = [blk.param] := by
  obtain ⟨q, hq⟩ := (h.mem blk.param).mp (List.mem_map_of_mem hblk)
  cases h.pads q with
  | inl hnil => simp [hq] at hnil
  | inr hone =>
    obtain ⟨a, n, ha, -, hne, hn, hpad⟩ := hone
    obtain rfl : blk.param = a := by simpa [hq] using ha
    exact ⟨q, ⟨hne, n, hn, hpad⟩, hq⟩

/-- The block of the only node of a pad stands among blocks of other pads. -/
theorem Single.split {s : State} (h : Single c s) {p : Nat} {a : Addr}
    (ha : s.isr_head p = [a]) : ∃ pre blk post, entries c s = pre ++ blk :: post ∧
      blk.param = a ∧ RefersTo s blk p ∧ (∀ b ∈ pre, ∃ q, RefersTo s b q ∧ q ≠ p) ∧
      ∀ b ∈ post, ∃ q, RefersTo s b q := by
  obtain ⟨blk, hmem, hparam⟩ := List.mem_map.mp ((h.mem a).mpr ⟨p, ha⟩)
  obtain ⟨pre, post, hsplit⟩ := List.append_of_mem hmem
  have hpost : ∀ b ∈ post, ∃ q, RefersTo s b q := fun b hb =>
    (h.refersTo (hsplit ▸ by simp [hb])).imp fun _ hq => hq.1
  refine ⟨pre, blk, post, hsplit, hparam, ?_, ?_, hpost⟩
  · obtain ⟨q, hq, hhead⟩ := h.refersTo hmem
    -- a node belongs to one pad
    cases h.pads p with
    | inl hnil => simp [ha] at hnil
    | inr hone =>
      obtain ⟨a', n, ha', -, hne, hn, hpad⟩ := hone
      obtain rfl : a = a' := by simpa [ha] using ha'
      exact ⟨hparam ▸ hne, n, by rw [hparam, hn], hpad⟩
  · intro b hb
    obtain ⟨q, hq, hhead⟩ := h.refersTo (show b ∈ entries c s from hsplit ▸ by simp [hb])
    refine ⟨q, hq, ?_⟩
    rintro rfl
    have hnodup := h.nodup
    rw [hsplit, List.map_append, List.map_cons, List.nodup_append] at hnodup
    have hba : b.param = blk.param := by
      rw [hparam]
      simpa [ha] using hhead.symm
    exact hnodup.2.2 b.param (List.mem_map_of_mem hb) blk.param List.mem_cons_self hba

theorem Single.fansOut {s : State} (h : Single c s) : FansOut c s := by
  refine ⟨h.running, fun p => ?_⟩
  cases h.pads p with
  | inl hnil =>
    refine ⟨[], raise_of_not_mem fun blk hblk => ?_, by simp [hnil.2]⟩
    obtain ⟨q, hq, hhead⟩ := h.refersTo hblk
    refine ⟨q, hq, ?_⟩
    rintro rfl
    simp [hnil.1] at hhead
  | inr hone =>
    obtain ⟨a, n, ha, hreg, -, hn, -⟩ := hone
    obtain ⟨pre, blk, post, hsplit, rfl, hblk, hpre, hpost⟩ := h.split ha
    refine ⟨[n].map GpioIrqParam.invoke,
      raise_of_mem hsplit hpre hblk hpost (by simp [nodesFrom, ha, hn]), ?_⟩
    rw [hreg]

/-- The calls after which the interrupts still reach the registered callbacks: a request for a
    pad without a callback whose block is allocated, and a free of nothing. -/
def KeepsSingle (s : State) : Action → Prop
  | .request padctl _ _ _ node isrOk =>
    (node.all fun a => a ≠ 0 ∧ s.heap a = none) → padctl < PINPAD_MAX → node ≠ none →
      s.registered padctl = [] ∧ isrOk = true
  | .free padctl param => padctl < PINPAD_MAX → ∀ n ∈ s.registered padctl, n.param ≠ param

theorem Single.registered_eq_nil {s : State} (h : Single c s) {p : Nat} :
    s.registered p = [] ↔ s.isr_head p = [] := by
  cases h.pads p with
  | inl hnil => simp [hnil]
  | inr hone =>
    obtain ⟨a, n, ha, hreg, -⟩ := hone
    simp [ha, hreg]

theorem Single.findNode_eq_none {s : State} (h : Single c s) {p : Nat} {param : UInt32} :
    findNode s p param = none ↔ ∀ n ∈ s.registered p, n.param ≠ param := by
  cases h.pads p with
  | inl hnil => simp [findNode, hnil]
  | inr hone =>
    obtain ⟨a, n, ha, hreg, -, hn, -⟩ := hone
    simp [findNode, ha, hreg, hn]

theorem Single.request {s s' : State} (h : Single c s) {p : Nat} {n : GpioIrqParam} {a : Addr}
    (hreq : Requested c s s' p n a true) (hp : n.padctl = p) (ha : a ≠ 0)
    (hfree : s.heap a = none) (hnil : s.registered p = []) : Single c s' := by
  have hnil' := h.registered_eq_nil.mp hnil
  -- the address of the new node is not that of another one
  have hnew : ∀ q, s.isr_head q ≠ [a] := by
    intro q hq
    cases h.pads q with
    | inl hq' => simp [hq] at hq'
    | inr hone =>
      obtain ⟨b, m, hb, -, -, hm, -⟩ := hone
      obtain rfl : a = b := by simpa [hq] using hb
      simp [hfree] at hm
  have hentries : entries c s' = entries c s ++ [⟨c.gpio_interrupt, a, 0⟩] := by
    rw [hreq.entries, if_pos ⟨hnil', rfl⟩]
  constructor
  · exact hreq.halted
  · intro q
    by_cases hq : q = p
    · subst hq
      refine .inr ⟨a, n, ?_, ?_, ha, ?_, hp⟩
      · simp [hreq.isr_head, hnil']
      · simp [hreq.registered, hnil]
      · simp [hreq.heap]
    · rw [hreq.isr_head, hreq.registered, Function.update_of_ne hq, Function.update_of_ne hq]
      refine (h.pads q).imp id ?_
      rintro ⟨b, m, hb, hreg, hne, hm, hpad⟩
      refine ⟨b, m, hb, hreg, hne, ?_, hpad⟩
      have hba : b ≠ a := by
        rintro rfl
        exact hnew q hb
      rw [hreq.heap, Function.update_of_ne hba, hm]
  · intro b
    rw [hentries, List.map_append, List.mem_append, h.mem b, hreq.isr_head]
    constructor
    · rintro (⟨q, hq⟩ | hb)
      · refine ⟨q, ?_⟩
        have hqp : q ≠ p := by
          rintro rfl
          simp [hnil'] at hq
        rw [Function.update_of_ne hqp, hq]
      · obtain rfl : b = a := by simpa using hb
        exact ⟨p, by simp [hnil']⟩
    · rintro ⟨q, hq⟩
      by_cases hqp : q = p
      · subst hqp
        right
        simpa [hnil', eq_comm] using hq
      · rw [Function.update_of_ne hqp] at hq
        exact .inl ⟨q, hq⟩
  · rw [hentries, List.map_append, List.nodup_append]
    refine ⟨h.nodup, by simp, ?_⟩
    rintro b hb b' hb' rfl
    obtain rfl : b = a := by simpa using hb'
    obtain ⟨q, hq⟩ := (h.mem b).mp hb
    exact hnew q hq

/-- The invariant along the calls that keep it. -/
theorem single_step {s s' : State} {act : Action} (h : Single c s) (hG : KeepsSingle s act)
    (hs : step c s act = some s') : Single c s' := by
  cases act with
  | request p callback param type node isrOk =>
    obtain ⟨-, ⟨-, rfl⟩ | ⟨hp, a, rfl, ha, hfree, hreq⟩⟩ := request_cases hs
    · exact h
    · obtain ⟨hnil, rfl⟩ := hG (by simpa using ⟨ha, hfree⟩) hp (by simp)
      exact h.request hreq rfl ha hfree hnil
  | free p param =>
    obtain ⟨-, ⟨-, rfl⟩ | ⟨hp, a, hfind, -⟩⟩ := free_cases hs
    · exact h
    · rw [h.findNode_eq_none.mpr (hG hp)] at hfind
      contradiction

/-- A request that breaks the invariant leaves a callback that no interrupt reaches. -/
theorem Single.not_fansOut {s s' : State} (h : Single c s) {p : Nat} {n : GpioIrqParam}
    {a : Addr} {isrOk : Bool} (hreq : Requested c s s' p n a isrOk) (hfree : s.heap a = none)
    (hbad : ¬ (s.registered p = [] ∧ isrOk = true)) : ¬ FansOut c s' := by
  intro hf
  obtain ⟨l, hl, hperm⟩ := hf.invokes p
  have hlen := hperm.length_eq
  rw [hreq.registered, Function.update_self, List.length_map, List.length_cons] at hlen
  have hentries : entries c s' = entries c s := by
    rw [hreq.entries, if_neg (by rwa [h.registered_eq_nil] at hbad), List.append_nil]
  cases h.pads p with
  | inl hnil =>
    -- the pad has no block: `malloc` failed for it
    have hnone := raise_of_not_mem (c := c) (s := s') (p := p) fun blk hblk => by
      obtain ⟨q, hq, hhead⟩ := h.refersTo (hentries ▸ hblk)
      refine ⟨q, hq.update hfree hreq.heap, ?_⟩
      rintro rfl
      simp [hnil.1] at hhead
    obtain rfl : [] = l := by simpa [hnone] using hl
    simp [hnil.2] at hlen
  | inr hone =>
    -- the block refers to the node behind the new one
    obtain ⟨b, m, hb, hreg, -, hm, -⟩ := hone
    obtain ⟨pre, blk, post, hsplit, rfl, hblk, hpre, hpost⟩ := h.split hb
    have hba : blk.param ≠ a := by
      intro heq
      simp [← heq, hm] at hfree
    have hns : (nodesFrom s' p blk.param).mapM s'.heap = some [m] := by
      rw [nodesFrom, hreq.isr_head, Function.update_self, hb, hreq.heap]
      simp [List.dropWhile, hba.symm, Function.update_of_ne hba, hm]
    have hone := raise_of_mem (hentries.trans hsplit)
      (fun b' hb' => (hpre b' hb').imp fun q hq => ⟨hq.1.update hfree hreq.heap, hq.2⟩)
      (hblk.update hfree hreq.heap)
      (fun b' hb' => (hpost b' hb').imp fun q hq => hq.update hfree hreq.heap) hns
    obtain rfl : [m].map GpioIrqParam.invoke = l := by simpa [hone] using hl
    simp [hreg] at hlen

theorem not_fansOut_of_not_keepsSingle {s : State} {act : Action} (h : Single c s)
    (hG : ¬ KeepsSingle s act) : ∃ s', step c s act = some s' ∧ ¬ FansOut c s' := by
  cases act with
  | request p callback param type node isrOk =>
    simp only [KeepsSingle, Classical.not_imp] at hG
    obtain ⟨hnode, hp, hsome, hbad⟩ := hG
    have hs : step c s (.request p callback param type node isrOk) =
        some (gpio_irq_request c s p callback param type node isrOk).2 := by
      simp only [step]
      exact if_pos ⟨h.running, hnode⟩
    refine ⟨_, hs, ?_⟩
    obtain ⟨-, ⟨hno, -⟩ | ⟨-, a, -, -, hfree, hreq⟩⟩ := request_cases hs
    · exact absurd hno (by simp [hp, hsome])
    · exact h.not_fansOut hreq hfree hbad
  | free p param =>
    simp only [KeepsSingle, Classical.not_imp] at hG
    obtain ⟨hp, hbad⟩ := hG
    have hs : step c s (.free p param) = some (gpio_irq_free c s p param).2 := by
      simp only [step]
      exact if_pos h.running
    refine ⟨_, hs, ?_⟩
    obtain ⟨-, ⟨hno, -⟩ | ⟨-, a, hfind, hfreed⟩⟩ := free_cases hs
    · exact absurd hno (by simp [hp, h.findNode_eq_none, hbad])
    · intro hf
      -- the node was the only one of its pad, so the call stops at the assertion
      have hmem := List.mem_of_find?_eq_some hfind
      have hlast : (s.isr_head p).erase a = [] := by
        cases h.pads p with
        | inl hnil => simp [hnil] at hmem
        | inr hone =>
          obtain ⟨b, n, hb, -⟩ := hone
          obtain rfl : a = b := by simpa [hb] using hmem
          simp [hb]
      have := hf.running
      rw [(hfreed.last hlast).1] at this
      contradiction

/-- The interrupts invoke the registered callbacks in every state of a run exactly when each
    request of the run is for a pad without a callback, no allocation of a block fails and no
    registered callback is freed. -/
theorem always_fansOut_iff (tr : List Action) :
    Always (step c) (FansOut c) init tr ↔ Meets (step c) KeepsSingle init tr :=
  always_iff_meets (step c) (fun _ h => h.fansOut) (fun _ _ _ h hG hs => single_step h hG hs)
    (fun _ _ h hG => not_fansOut_of_not_keepsSingle h hG) single_init

/-- Symbols of a system with GPIO interrupt 20. -/
def exampleSymbols : Symbols := ⟨74, 20, 0x80001000, by decide, by decide⟩

/-- The second callback of a pad is not invoked. -/
theorem fansOut_fails : ∃ s, run (step exampleSymbols) init
    [.request 3 0x80002000 1 0 (some 0x1000) true,
      .request 3 0x80003000 2 0 (some 0x2000) true] = some s ∧ ¬ FansOut exampleSymbols s := by
  refine ⟨_, rfl, fun hf => ?_⟩
  obtain ⟨l, hl, hperm⟩ := hf.invokes 3
  have hraise : l = [⟨0x80002000, [1]⟩] := by
    rw [← Option.some.injEq, ← hl]
    decide
  have hlen := hperm.length_eq
  rw [hraise] at hlen
  revert hlen
  decide

end Hcrtos.Native.GpioIrq
