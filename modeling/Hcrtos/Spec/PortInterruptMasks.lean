import Hcrtos.Native.PortInterrupt

/-!
# Interrupt masks follow the handler lists

The enable bits of the banks, and the copy of bank 1, follow the handler lists through every
call. The mask bits of the two external lines do not always: an interrupt of EIRQ2 other
than the mailbox is enabled on the line of EIRQ3, the two lines have numbers of their own,
and the end of a dispatch puts the status back that was read at its start.

## Key results

- `banks_step`: the enable registers, in every run
- `always_masked_iff`: the mask bits of the lines are right along a run exactly when its steps
  meet `KeepsLines`
- `masked_fails`: a handler that installs the first handler of a line
-/

namespace Hcrtos.Native.PortInterrupt

open Bits Lts

/-! ### What is to hold -/

/-- One of the `n` interrupts from `lo` on has a handler. -/
def HasHandler (lo n : Nat) (heads : Nat → List IsrCtrlBlk) : Prop :=
  ∃ irq ∈ List.range' lo n, heads irq ≠ []

instance (lo n : Nat) (heads : Nat → List IsrCtrlBlk) : Decidable (HasHandler lo n heads) := by
  unfold HasHandler; infer_instance

/-- Some handler of the line EIRQ3 is installed. -/
abbrev Eirq3 := HasHandler IRQ_NUM EIRQ3_NUM

/-- Some handler of the line EIRQ2 is installed. -/
abbrev Eirq2 := HasHandler (IRQ_NUM + EIRQ3_NUM) EIRQ2_NUM

/-- The enable bits are those of the interrupts with a handler. -/
structure Banks (s : State) : Prop where
  bit : ∀ irq, IRQ_NUM ≤ irq → irq < IRQ_NUM + EIRQ_NUM →
    ((s.enable_reg ((irq - IRQ_NUM) / 32)).getLsbD ((irq - IRQ_NUM) % 32) = true ↔
      s.isr_head irq ≠ [])
  bank1 : s.enable_reg_bank1 = s.enable_reg 1

/-- The mask bits of the two lines in the status `sr`. -/
structure Lines (heads : Nat → List IsrCtrlBlk) (sr : BitVec 32) : Prop where
  eirq3 : sr.getLsbD (IRQ_EIRQ3_NUM + IRQ_NUM) = true ↔ Eirq3 heads
  eirq2 : sr.getLsbD (IRQ_EIRQ2_NUM + IRQ_NUM) = true ↔ Eirq2 heads

/-- Outside of a dispatch, every mask agrees with the handler lists. -/
def Masked (s : State) : Prop := s.dispatch = none → Banks s ∧ Lines s.isr_head s.sr

/-! ### The enable registers -/

variable {mbox : Nat}

theorem xPortInterruptEnable_reg (mbox : Nat) {s : State} (h : s.enable_reg_bank1 = s.enable_reg 1)
    {irq : Nat} (hirq : IRQ_NUM ≤ irq) :
    (xPortInterruptEnable mbox s irq).enable_reg =
        Function.update s.enable_reg ((irq - IRQ_NUM) / 32)
          (setBit (s.enable_reg ((irq - IRQ_NUM) / 32)) ((irq - IRQ_NUM) % 32)) ∧
      (xPortInterruptEnable mbox s irq).enable_reg_bank1 =
        (xPortInterruptEnable mbox s irq).enable_reg 1 := by
  unfold xPortInterruptEnable
  rw [if_pos hirq]
  dsimp only
  split
  · rename_i hbank
    simp [hbank, h]
  · rename_i hbank
    exact ⟨rfl, by simp [Ne.symm hbank, h]⟩

theorem xPortInterruptDisable_reg (mbox : Nat) {s : State} (h : s.enable_reg_bank1 = s.enable_reg 1)
    {irq : Nat} (hirq : IRQ_NUM ≤ irq) :
    (xPortInterruptDisable mbox s irq).enable_reg =
        Function.update s.enable_reg ((irq - IRQ_NUM) / 32)
          (clearBit (s.enable_reg ((irq - IRQ_NUM) / 32)) ((irq - IRQ_NUM) % 32)) ∧
      (xPortInterruptDisable mbox s irq).enable_reg_bank1 =
        (xPortInterruptDisable mbox s irq).enable_reg 1 := by
  unfold xPortInterruptDisable
  rw [if_pos hirq]
  dsimp only
  split
  · rename_i hbank
    simp [hbank, h]
  · rename_i hbank
    exact ⟨rfl, by simp [Ne.symm hbank, h]⟩

@[simp] theorem xPortInterruptEnable_isr_head (s : State) (irq : Nat) :
    (xPortInterruptEnable mbox s irq).isr_head = s.isr_head := by
  unfold xPortInterruptEnable
  split
  · dsimp only
    split <;> rfl
  · rfl

@[simp] theorem xPortInterruptDisable_isr_head (s : State) (irq : Nat) :
    (xPortInterruptDisable mbox s irq).isr_head = s.isr_head := by
  unfold xPortInterruptDisable
  split
  · dsimp only
    split <;> rfl
  · rfl

@[simp] theorem xPortInterruptEnable_dispatch (s : State) (irq : Nat) :
    (xPortInterruptEnable mbox s irq).dispatch = s.dispatch := by
  unfold xPortInterruptEnable
  split
  · dsimp only
    split <;> rfl
  · rfl

@[simp] theorem xPortInterruptDisable_dispatch (s : State) (irq : Nat) :
    (xPortInterruptDisable mbox s irq).dispatch = s.dispatch := by
  unfold xPortInterruptDisable
  split
  · dsimp only
    split <;> rfl
  · rfl

/-- A CPU interrupt has no enable register. -/
theorem xPortInterruptEnable_cpu {s : State} {irq : Nat} (hirq : irq < IRQ_NUM) :
    xPortInterruptEnable mbox s irq = { s with sr := setBit s.sr (irq + IRQ_NUM) } := by
  unfold xPortInterruptEnable
  rw [if_neg (by omega)]

theorem xPortInterruptDisable_cpu {s : State} {irq : Nat} (hirq : irq < IRQ_NUM) :
    xPortInterruptDisable mbox s irq = { s with sr := clearBit s.sr (irq + IRQ_NUM) } := by
  unfold xPortInterruptDisable
  rw [if_neg (by omega)]

/-- Changing the list of one interrupt while its enable bit is set to `b`. -/
theorem Banks.update {s s' : State} {irq : Nat} {head : List IsrCtrlBlk} (h : Banks s)
    (hheads : s'.isr_head = Function.update s.isr_head irq head)
    (hbank1 : s'.enable_reg_bank1 = s'.enable_reg 1)
    (hself : IRQ_NUM ≤ irq → irq < IRQ_NUM + EIRQ_NUM →
      ((s'.enable_reg ((irq - IRQ_NUM) / 32)).getLsbD ((irq - IRQ_NUM) % 32) = true ↔
        head ≠ []))
    (hother : ∀ i, IRQ_NUM ≤ i → i ≠ irq →
      (s'.enable_reg ((i - IRQ_NUM) / 32)).getLsbD ((i - IRQ_NUM) % 32) =
        (s.enable_reg ((i - IRQ_NUM) / 32)).getLsbD ((i - IRQ_NUM) % 32)) : Banks s' where
  bit := by
    intro i hlo hhi
    rw [hheads]
    by_cases hi : i = irq
    · subst hi
      rw [Function.update_self]
      exact hself hlo hhi
    · rw [Function.update_of_ne hi, hother i hlo hi]
      exact h.bit i hlo hhi
  bank1 := hbank1

/-- Two interrupts do not share an enable bit. -/
theorem bit_ne {i irq : Nat} (hi : IRQ_NUM ≤ i) (hirq : IRQ_NUM ≤ irq) (hne : i ≠ irq)
    (hbank : (i - IRQ_NUM) / 32 = (irq - IRQ_NUM) / 32) :
    (i - IRQ_NUM) % 32 ≠ (irq - IRQ_NUM) % 32 := by
  omega

/-- The list of an interrupt gets a handler, and the interrupt is enabled. -/
theorem Banks.enable {s : State} {irq : Nat} {head : List IsrCtrlBlk} (h : Banks s)
    (hhead : head ≠ []) : Banks (xPortInterruptEnable mbox
      { s with isr_head := Function.update s.isr_head irq head } irq) := by
  by_cases hirq : IRQ_NUM ≤ irq
  · obtain ⟨hreg, hbank1⟩ := xPortInterruptEnable_reg mbox
      (s := { s with isr_head := Function.update s.isr_head irq head }) h.bank1 hirq
    apply h.update (xPortInterruptEnable_isr_head _ _) hbank1
    · intro _ _
      rw [hreg, Function.update_self, getLsbD_setBit _ (Nat.mod_lt _ (by omega))]
      simp [hhead]
    · intro i hi hne
      rw [hreg]
      by_cases hbank : (i - IRQ_NUM) / 32 = (irq - IRQ_NUM) / 32
      · rw [hbank, Function.update_self, getLsbD_setBit _ (Nat.mod_lt _ (by omega))]
        simp [bit_ne hi hirq hne hbank]
      · rw [Function.update_of_ne hbank]
  · rw [xPortInterruptEnable_cpu (by omega)]
    exact h.update rfl h.bank1 (fun hlo => absurd hlo hirq) fun _ _ _ => rfl

/-- The list of an interrupt becomes empty, and the interrupt is disabled. -/
theorem Banks.disable {s : State} {irq : Nat} (h : Banks s) : Banks (xPortInterruptDisable mbox
      { s with isr_head := Function.update s.isr_head irq [] } irq) := by
  by_cases hirq : IRQ_NUM ≤ irq
  · obtain ⟨hreg, hbank1⟩ := xPortInterruptDisable_reg mbox
      (s := { s with isr_head := Function.update s.isr_head irq [] }) h.bank1 hirq
    apply h.update (xPortInterruptDisable_isr_head _ _) hbank1
    · intro _ _
      rw [hreg, Function.update_self, getLsbD_clearBit]
      simp
    · intro i hi hne
      rw [hreg]
      by_cases hbank : (i - IRQ_NUM) / 32 = (irq - IRQ_NUM) / 32
      · rw [hbank, Function.update_self, getLsbD_clearBit]
        simp [bit_ne hi hirq hne hbank]
      · rw [Function.update_of_ne hbank]
  · rw [xPortInterruptDisable_cpu (by omega)]
    exact h.update rfl h.bank1 (fun hlo => absurd hlo hirq) fun _ _ _ => rfl

/-! ### The calls -/

/-- The removal of `fn` leaves the interrupt without a handler. -/
def RemovesLast (s : State) (irq : Nat) (fn : UInt32) : Prop :=
  (s.isr_head irq).any (·.isFor fn) = true ∧ (s.isr_head irq).eraseP (·.isFor fn) = []

instance (s : State) (irq : Nat) (fn : UInt32) : Decidable (RemovesLast s irq fn) := by
  unfold RemovesLast; infer_instance

/-- An installation fails without a trace, or it adds the block and enables the interrupt. -/
theorem install_cases {s s' : State} {irq type : Nat} {fn param : UInt32} {mallocOk : Bool}
    (h : xPortInterruptInstallISR mbox s irq fn param type mallocOk = some s') :
    fn ≠ 0 ∧ irq < IRQ_NUM + EIRQ_NUM ∧
      (mallocOk = false ∧ s' = s ∨ mallocOk = true ∧ s' = xPortInterruptEnable mbox { s with
        isr_head := Function.update s.isr_head irq (s.isr_head irq ++ [⟨fn, param, type⟩]) } irq)
    := by
  unfold xPortInterruptInstallISR at h
  split at h
  · rename_i hok
    refine ⟨hok.1, hok.2, ?_⟩
    cases mallocOk with
    | false =>
      simp only [if_true, Option.some.injEq] at h
      exact .inl ⟨rfl, h.symm⟩
    | true =>
      simp only [Bool.true_eq_false, if_false, Option.some.injEq] at h
      exact .inr ⟨rfl, h.symm⟩
  · contradiction

/-- A removal finds no block, or it unlinks one, and the last one disables the interrupt. -/
theorem remove_cases {s s' : State} {irq : Nat} {fn : UInt32}
    (h : xPortInterruptRemoveISR mbox s irq fn = some s') :
    fn ≠ 0 ∧ irq < IRQ_NUM + EIRQ_NUM ∧
      (¬ RemovesLast s irq fn ∧ (s' = s ∨ s.isr_head irq ≠ [] ∧ ∃ head ≠ [],
          s' = { s with isr_head := Function.update s.isr_head irq head }) ∨
        RemovesLast s irq fn ∧ s.isr_head irq ≠ [] ∧ s' = xPortInterruptDisable mbox { s with
          isr_head := Function.update s.isr_head irq [] } irq) := by
  unfold xPortInterruptRemoveISR at h
  split at h
  · rename_i hok
    refine ⟨hok.1, hok.2, ?_⟩
    dsimp only at h
    split at h
    · rename_i hany
      have hne : s.isr_head irq ≠ [] := by
        intro hnil
        simp [hnil] at hany
      split at h
      · rename_i hlast
        simp only [Option.some.injEq] at h
        rw [hlast] at h
        exact .inr ⟨⟨hany, hlast⟩, hne, h.symm⟩
      · rename_i hmore
        simp only [Option.some.injEq] at h
        exact .inl ⟨fun hl => hmore hl.2, .inr ⟨hne, _, hmore, h.symm⟩⟩
    · rename_i hany
      simp only [Option.some.injEq] at h
      exact .inl ⟨fun hl => hany hl.1, .inl h.symm⟩
  · contradiction

/-- The enable registers follow the handler lists through every step. -/
theorem banks_step {s s' : State} {act : Action} (h : Banks s) (hs : step mbox s act = some s') :
    Banks s' := by
  cases act with
  | install irq fn param type mallocOk =>
    obtain ⟨-, -, ⟨-, rfl⟩ | ⟨-, rfl⟩⟩ := install_cases hs
    · exact h
    · exact h.enable (by simp)
  | remove irq fn =>
    obtain ⟨-, -, ⟨-, rfl | ⟨hne, head, hhead, rfl⟩⟩ | ⟨-, -, rfl⟩⟩ := remove_cases hs
    · exact h
    · exact h.update rfl h.bank1 (fun hlo hhi => by rw [h.bit irq hlo hhi]; simp [hne, hhead])
        fun _ _ _ => rfl
    · exact h.disable
  | enter =>
    simp only [step] at hs
    split at hs
    · cases hs
      exact ⟨h.bit, h.bank1⟩
    · contradiction
  | leave =>
    simp only [step] at hs
    split at hs
    · contradiction
    · cases hs
      exact ⟨h.bit, h.bank1⟩

/-! ### The mask bits of the lines -/

theorem hasHandler_iff {lo n : Nat} {heads : Nat → List IsrCtrlBlk} :
    HasHandler lo n heads ↔ ∃ irq, (lo ≤ irq ∧ irq < lo + n) ∧ heads irq ≠ [] := by
  simp [HasHandler, List.mem_range'_1]

/-- A list that gets a handler puts its interrupt into the group. -/
theorem hasHandler_update {lo n irq : Nat} {heads : Nat → List IsrCtrlBlk}
    {head : List IsrCtrlBlk} (hhead : head ≠ []) :
    HasHandler lo n (Function.update heads irq head) ↔
      (lo ≤ irq ∧ irq < lo + n) ∨ HasHandler lo n heads := by
  rw [hasHandler_iff, hasHandler_iff]
  constructor
  · rintro ⟨i, hi, hne⟩
    by_cases hirq : i = irq
    · exact .inl (hirq ▸ hi)
    · rw [Function.update_of_ne hirq] at hne
      exact .inr ⟨i, hi, hne⟩
  · rintro (hirq | ⟨i, hi, hne⟩)
    · exact ⟨irq, hirq, by simpa using hhead⟩
    · refine ⟨i, hi, ?_⟩
      by_cases hirq : i = irq
      · simpa [hirq] using hhead
      · rwa [Function.update_of_ne hirq]

/-- The same, read from the lists with the handler to those without it. -/
theorem hasHandler_of_update_nil {lo n irq : Nat} {heads : Nat → List IsrCtrlBlk}
    (hne : heads irq ≠ []) :
    HasHandler lo n heads ↔
      (lo ≤ irq ∧ irq < lo + n) ∨ HasHandler lo n (Function.update heads irq []) := by
  have heq : heads = Function.update (Function.update heads irq []) irq (heads irq) := by simp
  conv_lhs => rw [heq]
  exact hasHandler_update hne

/-- A list that stays nonempty does not change its group. -/
theorem hasHandler_update_of_ne {lo n irq : Nat} {heads : Nat → List IsrCtrlBlk}
    {head : List IsrCtrlBlk} (hold : heads irq ≠ []) (hnew : head ≠ []) :
    HasHandler lo n (Function.update heads irq head) ↔ HasHandler lo n heads := by
  rw [hasHandler_update hnew, hasHandler_of_update_nil hold, ← or_assoc, or_self]

/-- The status after an interrupt was enabled. -/
theorem xPortInterruptEnable_sr (mbox : Nat) (s : State) (irq : Nat) :
    (xPortInterruptEnable mbox s irq).sr =
      setBit s.sr (if IRQ_NUM ≤ irq then if irq = mbox then 10 else 11 else irq + 8) := by
  unfold xPortInterruptEnable
  by_cases hirq : irq ≥ IRQ_NUM
  · have hirq' : IRQ_NUM ≤ irq := hirq
    rw [if_pos hirq, if_pos hirq']
    dsimp only
    by_cases hm : irq = mbox
    · simp only [if_pos hm]
      split <;> rfl
    · simp only [if_neg hm]
      split <;> rfl
  · have hirq' : ¬ IRQ_NUM ≤ irq := hirq
    rw [if_neg hirq, if_neg hirq']
    rfl

/-- The mask bit of EIRQ3 after an interrupt was disabled. -/
theorem xPortInterruptDisable_eirq3 (mbox : Nat) (s : State) (irq : Nat) :
    (xPortInterruptDisable mbox s irq).sr.getLsbD (IRQ_EIRQ3_NUM + IRQ_NUM) = true ↔
      s.sr.getLsbD (IRQ_EIRQ3_NUM + IRQ_NUM) = true ∧
        if IRQ_NUM ≤ irq then Eirq3 s.isr_head else irq ≠ IRQ_EIRQ3_NUM := by
  unfold xPortInterruptDisable
  by_cases hirq : irq ≥ IRQ_NUM
  · have hirq' : IRQ_NUM ≤ irq := hirq
    rw [if_pos hirq, if_pos hirq']
    have hstatus : ∀ st : BitVec 32,
        (if irq = mbox then clearBit st (IRQ_EIRQ2_NUM + IRQ_NUM) else st).getLsbD
          (IRQ_EIRQ3_NUM + IRQ_NUM) = st.getLsbD (IRQ_EIRQ3_NUM + IRQ_NUM) := by
      intro st
      split
      · simp [IRQ_EIRQ2_NUM, IRQ_EIRQ3_NUM]
      · rfl
    have hall : (∀ i ∈ List.range' IRQ_NUM EIRQ3_NUM, s.isr_head i = []) ↔
        ¬ Eirq3 s.isr_head := by
      simp [HasHandler]
    dsimp only
    split <;> dsimp only <;> rw [hstatus] <;> split <;> simp_all
  · have hirq' : ¬ IRQ_NUM ≤ irq := hirq
    rw [if_neg hirq, if_neg hirq']
    simp only [getLsbD_clearBit, IRQ_EIRQ3_NUM, IRQ_NUM]
    by_cases h3 : irq = 3 <;> simp [h3]

/-- The mask bit of EIRQ2 after an interrupt was disabled. -/
theorem xPortInterruptDisable_eirq2 (mbox : Nat) (s : State) (irq : Nat) :
    (xPortInterruptDisable mbox s irq).sr.getLsbD (IRQ_EIRQ2_NUM + IRQ_NUM) = true ↔
      s.sr.getLsbD (IRQ_EIRQ2_NUM + IRQ_NUM) = true ∧
        if IRQ_NUM ≤ irq then irq ≠ mbox else irq ≠ IRQ_EIRQ2_NUM := by
  unfold xPortInterruptDisable
  by_cases hirq : irq ≥ IRQ_NUM
  · have hirq' : IRQ_NUM ≤ irq := hirq
    rw [if_pos hirq, if_pos hirq']
    have hstatus : ∀ st : BitVec 32, ∀ b : Prop, ∀ [Decidable b],
        (if b then clearBit st (IRQ_EIRQ3_NUM + IRQ_NUM) else st).getLsbD
          (IRQ_EIRQ2_NUM + IRQ_NUM) = st.getLsbD (IRQ_EIRQ2_NUM + IRQ_NUM) := by
      intro st b _
      split
      · simp [IRQ_EIRQ2_NUM, IRQ_EIRQ3_NUM]
      · rfl
    dsimp only
    by_cases hm : irq = mbox
    · simp only [if_pos hm]
      split <;> simp [hm]
    · simp only [if_neg hm]
      split <;> dsimp only <;> rw [hstatus] <;> simp [hm]
  · have hirq' : ¬ IRQ_NUM ≤ irq := hirq
    rw [if_neg hirq, if_neg hirq']
    simp only [getLsbD_clearBit, IRQ_EIRQ2_NUM, IRQ_NUM]
    by_cases h2 : irq = 2 <;> simp [h2]

/-! ### When the lines stay right -/

/-- The mailbox is an interrupt of EIRQ2. -/
def IsEirq2 (irq : Nat) : Prop := IRQ_NUM + EIRQ3_NUM ≤ irq ∧ irq < IRQ_NUM + EIRQ_NUM

instance (irq : Nat) : Decidable (IsEirq2 irq) := by
  unfold IsEirq2; infer_instance

/-- What an installation may enable: a line that is in use already, if the interrupt has the
    number of a line, or belongs to EIRQ2 and is not the mailbox. -/
def EnablesLines (mbox : Nat) (heads : Nat → List IsrCtrlBlk) (irq : Nat) : Prop :=
  (irq = IRQ_EIRQ3_NUM → Eirq3 heads) ∧ (irq = IRQ_EIRQ2_NUM → Eirq2 heads) ∧
    (IsEirq2 irq → irq ≠ mbox → Eirq3 heads ∧ Eirq2 heads)

/-- What a removal may disable, with `heads` the lists after it: a line that is not in use, if
    the interrupt has the number of a line, and EIRQ2 is left unused exactly by the mailbox. -/
def DisablesLines (mbox : Nat) (heads : Nat → List IsrCtrlBlk) (irq : Nat) : Prop :=
  (irq = IRQ_EIRQ3_NUM → ¬ Eirq3 heads) ∧ (irq = IRQ_EIRQ2_NUM → ¬ Eirq2 heads) ∧
    (IsEirq2 irq → (irq = mbox ↔ ¬ Eirq2 heads))

instance (heads : Nat → List IsrCtrlBlk) (irq : Nat) : Decidable (EnablesLines mbox heads irq) := by
  unfold EnablesLines; infer_instance

instance (heads : Nat → List IsrCtrlBlk) (irq : Nat) : Decidable (DisablesLines mbox heads irq) := by
  unfold DisablesLines; infer_instance

theorem lines_iff (heads : Nat → List IsrCtrlBlk) (sr : BitVec 32) : Lines heads sr ↔
    (sr.getLsbD (IRQ_EIRQ3_NUM + IRQ_NUM) = true ↔ Eirq3 heads) ∧
      (sr.getLsbD (IRQ_EIRQ2_NUM + IRQ_NUM) = true ↔ Eirq2 heads) :=
  ⟨fun h => ⟨h.eirq3, h.eirq2⟩, fun h => ⟨h.1, h.2⟩⟩

/-- The lines after an installation. -/
theorem lines_enable_iff (hmbox : IsEirq2 mbox) {s : State} {irq : Nat} {head : List IsrCtrlBlk}
    (h : Lines s.isr_head s.sr) (hirq : irq < IRQ_NUM + EIRQ_NUM) (hhead : head ≠ []) :
    Lines (Function.update s.isr_head irq head) (xPortInterruptEnable mbox
        { s with isr_head := Function.update s.isr_head irq head } irq).sr ↔
      EnablesLines mbox s.isr_head irq := by
  obtain ⟨hlo, hhi⟩ := hmbox
  obtain ⟨h3, h2⟩ := h
  have hn : (if IRQ_NUM ≤ irq then if irq = mbox then 10 else 11 else irq + 8) < 32 := by
    split
    · split <;> omega
    · simp only [IRQ_NUM] at *
      omega
  have he3 : Eirq3 (Function.update s.isr_head irq head) ↔ _ ∨ Eirq3 s.isr_head :=
    hasHandler_update hhead
  have he2 : Eirq2 (Function.update s.isr_head irq head) ↔ _ ∨ Eirq2 s.isr_head :=
    hasHandler_update hhead
  rw [lines_iff, xPortInterruptEnable_sr, he3, he2, getLsbD_setBit _ hn, getLsbD_setBit _ hn,
    Bool.or_eq_true, Bool.or_eq_true, h3, h2]
  -- what is left is about the number of the interrupt and the two groups
  clear he3 he2 hn h3 h2
  unfold EnablesLines IsEirq2
  generalize Eirq3 s.isr_head = e3 at *
  generalize Eirq2 s.isr_head = e2 at *
  simp only [IRQ_NUM, EIRQ_NUM, EIRQ2_NUM, EIRQ3_NUM, IRQ_EIRQ2_NUM, IRQ_EIRQ3_NUM] at *
  by_cases h3 : e3 <;> by_cases h2 : e2 <;> simp only [h3, h2] <;> grind

/-- The lines after the last handler of an interrupt was removed. -/
theorem lines_disable_iff (hmbox : IsEirq2 mbox) {s : State} {irq : Nat}
    (h : Lines s.isr_head s.sr) (hirq : irq < IRQ_NUM + EIRQ_NUM) (hne : s.isr_head irq ≠ []) :
    Lines (Function.update s.isr_head irq []) (xPortInterruptDisable mbox
        { s with isr_head := Function.update s.isr_head irq [] } irq).sr ↔
      DisablesLines mbox (Function.update s.isr_head irq []) irq := by
  obtain ⟨hlo, hhi⟩ := hmbox
  obtain ⟨h3, h2⟩ := h
  have he3 : Eirq3 s.isr_head ↔ _ ∨ Eirq3 (Function.update s.isr_head irq []) :=
    hasHandler_of_update_nil hne
  have he2 : Eirq2 s.isr_head ↔ _ ∨ Eirq2 (Function.update s.isr_head irq []) :=
    hasHandler_of_update_nil hne
  rw [lines_iff, xPortInterruptDisable_eirq3, xPortInterruptDisable_eirq2, h3, h2, he3, he2]
  clear he3 he2 h3 h2
  unfold DisablesLines IsEirq2
  generalize Eirq3 (Function.update s.isr_head irq []) = e3 at *
  generalize Eirq2 (Function.update s.isr_head irq []) = e2 at *
  simp only [IRQ_NUM, EIRQ_NUM, EIRQ2_NUM, EIRQ3_NUM, IRQ_EIRQ2_NUM, IRQ_EIRQ3_NUM] at *
  by_cases h3 : e3 <;> by_cases h2 : e2 <;> simp only [h3, h2] <;> grind

/-! ### Runs -/

/-- The lines are right now or, during a dispatch, were right at its start. -/
structure Inv (s : State) : Prop where
  banks : Banks s
  quiet : s.dispatch = none → Lines s.isr_head s.sr
  busy : ∀ d, s.dispatch = some d → Lines d.heads d.status

theorem inv_init : Inv init where
  banks := ⟨by simp [init], rfl⟩
  quiet := by
    intro _
    constructor <;> simp [init, HasHandler]
  busy := by simp [init]

/-- The steps that keep the mask bits of the lines right. During a dispatch every call does;
    the end of a dispatch does if the handlers left each line in use, or unused, as they found
    it. -/
def KeepsLines (mbox : Nat) (s : State) : Action → Prop
  | .install irq fn _ _ mallocOk =>
    s.dispatch = none → fn ≠ 0 → irq < IRQ_NUM + EIRQ_NUM → mallocOk = true →
      EnablesLines mbox s.isr_head irq
  | .remove irq fn =>
    s.dispatch = none → fn ≠ 0 → irq < IRQ_NUM + EIRQ_NUM → RemovesLast s irq fn →
      DisablesLines mbox (Function.update s.isr_head irq []) irq
  | .enter => True
  | .leave => ∀ d ∈ s.dispatch,
      (Eirq3 s.isr_head ↔ Eirq3 d.heads) ∧ (Eirq2 s.isr_head ↔ Eirq2 d.heads)

instance (s : State) (act : Action) : Decidable (KeepsLines mbox s act) := by
  unfold KeepsLines; split <;> infer_instance

theorem install_inv (hmbox : IsEirq2 mbox) {s s' : State} {irq type : Nat} {fn param : UInt32}
    {mallocOk : Bool} (h : Inv s)
    (hs : xPortInterruptInstallISR mbox s irq fn param type mallocOk = some s') :
    s'.dispatch = s.dispatch ∧ (s.dispatch = none → (Lines s'.isr_head s'.sr ↔
      (mallocOk = true → EnablesLines mbox s.isr_head irq))) := by
  obtain ⟨-, hirq, ⟨rfl, rfl⟩ | ⟨rfl, rfl⟩⟩ := install_cases hs
  · refine ⟨rfl, fun hd => ?_⟩
    simpa using h.quiet hd
  · refine ⟨xPortInterruptEnable_dispatch _ _, fun hd => ?_⟩
    rw [xPortInterruptEnable_isr_head, lines_enable_iff hmbox (h.quiet hd) hirq (by simp)]
    simp

theorem remove_inv (hmbox : IsEirq2 mbox) {s s' : State} {irq : Nat} {fn : UInt32} (h : Inv s)
    (hs : xPortInterruptRemoveISR mbox s irq fn = some s') :
    s'.dispatch = s.dispatch ∧ (s.dispatch = none → (Lines s'.isr_head s'.sr ↔
      (RemovesLast s irq fn → DisablesLines mbox (Function.update s.isr_head irq []) irq))) := by
  obtain ⟨-, hirq, ⟨hlast, rfl | ⟨hne, head, hhead, rfl⟩⟩ | ⟨hlast, hne, rfl⟩⟩ := remove_cases hs
  · refine ⟨rfl, fun hd => ?_⟩
    simpa [hlast] using h.quiet hd
  · refine ⟨rfl, fun hd => ?_⟩
    have he3 : Eirq3 (Function.update s.isr_head irq head) ↔ Eirq3 s.isr_head :=
      hasHandler_update_of_ne hne hhead
    have he2 : Eirq2 (Function.update s.isr_head irq head) ↔ Eirq2 s.isr_head :=
      hasHandler_update_of_ne hne hhead
    have hlines : Lines (Function.update s.isr_head irq head) s.sr := by
      rw [lines_iff, he3, he2, ← lines_iff]
      exact h.quiet hd
    simpa [hlast] using hlines
  · refine ⟨xPortInterruptDisable_dispatch _ _, fun hd => ?_⟩
    rw [xPortInterruptDisable_isr_head, lines_disable_iff hmbox (h.quiet hd) hirq hne]
    simp [hlast]

/-- A step that meets the condition keeps the invariant. -/
theorem inv_step (hmbox : IsEirq2 mbox) {s s' : State} {act : Action} (h : Inv s)
    (hG : KeepsLines mbox s act) (hs : step mbox s act = some s') : Inv s' := by
  have hbanks := banks_step h.banks hs
  cases act with
  | install irq fn param type mallocOk =>
    obtain ⟨hd, hlines⟩ := install_inv hmbox h hs
    obtain ⟨hfn, hirq, -⟩ := install_cases hs
    refine ⟨hbanks, ?_, ?_⟩
    · intro hq
      rw [hd] at hq
      exact (hlines hq).mpr (hG hq hfn hirq)
    · -- during a dispatch only the saved status counts
      intro d hq
      rw [hd] at hq
      exact h.busy d hq
  | remove irq fn =>
    obtain ⟨hd, hlines⟩ := remove_inv hmbox h hs
    obtain ⟨hfn, hirq, -⟩ := remove_cases hs
    refine ⟨hbanks, ?_, ?_⟩
    · intro hq
      rw [hd] at hq
      exact (hlines hq).mpr (hG hq hfn hirq)
    · intro d hq
      rw [hd] at hq
      exact h.busy d hq
  | enter =>
    simp only [step] at hs
    split at hs
    · rename_i hq
      cases hs
      refine ⟨hbanks, by simp, ?_⟩
      rintro d ⟨rfl⟩
      exact h.quiet hq
    · contradiction
  | leave =>
    simp only [step] at hs
    split at hs
    · contradiction
    · rename_i d hd
      cases hs
      obtain ⟨h3, h2⟩ := hG d hd
      refine ⟨hbanks, ?_, by simp⟩
      intro _
      show Lines s.isr_head d.status
      rw [lines_iff, h3, h2, ← lines_iff]
      exact h.busy d hd

/-- A step that breaks the condition leaves a mask bit wrong. -/
theorem not_masked_of_not_keepsLines (hmbox : IsEirq2 mbox) {s : State} {act : Action}
    (h : Inv s) (hG : ¬ KeepsLines mbox s act) :
    ∃ s', step mbox s act = some s' ∧ ¬ Masked s' := by
  cases act with
  | install irq fn param type mallocOk =>
    simp only [KeepsLines, Classical.not_imp] at hG
    obtain ⟨hq, hfn, hirq, hok, hG⟩ := hG
    have hs : ∃ s', step mbox s (.install irq fn param type mallocOk) = some s' := by
      simp [step, xPortInterruptInstallISR, hfn, hirq, hok]
    obtain ⟨s', hs⟩ := hs
    obtain ⟨hd, hlines⟩ := install_inv hmbox h hs
    refine ⟨s', hs, fun hm => hG ?_⟩
    exact (hlines hq).mp (hm (by rw [hd, hq])).2 hok
  | remove irq fn =>
    simp only [KeepsLines, Classical.not_imp] at hG
    obtain ⟨hq, hfn, hirq, hlast, hG⟩ := hG
    have hs : ∃ s', step mbox s (.remove irq fn) = some s' := by
      simp [step, xPortInterruptRemoveISR, hfn, hirq, hlast.1, hlast.2]
    obtain ⟨s', hs⟩ := hs
    obtain ⟨hd, hlines⟩ := remove_inv hmbox h hs
    refine ⟨s', hs, fun hm => hG ?_⟩
    exact (hlines hq).mp (hm (by rw [hd, hq])).2 hlast
  | enter => exact absurd trivial hG
  | leave =>
    simp only [KeepsLines, Classical.not_forall] at hG
    obtain ⟨d, hd, hG⟩ := hG
    have hd : s.dispatch = some d := hd
    refine ⟨{ s with sr := d.status, dispatch := none }, by simp [step, hd], ?_⟩
    intro hm
    apply hG
    -- the restored bits are those of the lists at the start
    have hnow : Lines s.isr_head d.status := (hm rfl).2
    have hthen := h.busy d hd
    exact ⟨hnow.eirq3.symm.trans hthen.eirq3, hnow.eirq2.symm.trans hthen.eirq2⟩

/-- Along every run of calls and dispatches, the masks agree with the handler lists outside of
    the dispatches exactly when its steps meet `KeepsLines`. -/
theorem always_masked_iff (hmbox : IsEirq2 mbox) (tr : List Action) :
    Always (step mbox) Masked init tr ↔ Meets (step mbox) (KeepsLines mbox) init tr :=
  always_iff_meets (step mbox) (fun _ h hq => ⟨h.banks, h.quiet hq⟩)
    (fun _ _ _ h hG hs => inv_step hmbox h hG hs)
    (fun _ _ h hG => not_masked_of_not_keepsLines hmbox h hG) inv_init

/-- The mailbox and a timer get their handlers, and the timer loses its handler again. -/
theorem always_masked_mailbox : Always (step 74) Masked init
    [.install 74 0x80001000 0 0 true, .install 30 0x80002000 0 0 true, .remove 30 0x80002000] := by
  apply (always_masked_iff (by decide) _).mpr
  decide

/-- A handler installs the first handler of EIRQ3, and the dispatch puts the old status back. -/
theorem masked_fails : ∃ s, run (step 74) init
    [.enter, .install 30 0x80002000 0 0 true, .leave] = some s ∧ ¬ Masked s := by
  refine ⟨_, rfl, fun hm => ?_⟩
  have hbit := (hm rfl).2.eirq3.mpr (hasHandler_iff.mpr ⟨30, by decide, by decide⟩)
  revert hbit
  decide

end Hcrtos.Native.PortInterrupt
