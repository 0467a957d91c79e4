import Mathlib.Data.List.Nodup
import Mathlib.Data.List.Range
import Mathlib.Tactic.IntervalCases
import Hcrtos.Native.PortInterrupt

/-!
# Which handlers a dispatch calls

One pass over the banks calls the handlers of every pending interrupt of bank 0, but of the
other banks only those of the first pending one: the number of the interrupt is made in the
variable of the loop over the bits, which then is behind its end. The hand-off makes one pass
for each of the two external lines that is pending.

## Key results

- `scanBank_eq`: the interrupts of a bank that one pass dispatches
- `dispatched_iff`: when each pending enabled interrupt is dispatched once
- `dispatched_fails`: two pending interrupts of bank 1
-/

namespace Hcrtos.Native.PortInterrupt

section

variable {isr_head : Nat → List IsrCtrlBlk} {stat : BitVec 32} {i nb q : Nat}

/-- The calls of the handlers of an interrupt. -/
def callsOf (isr_head : Nat → List IsrCtrlBlk) (irq_no : Nat) : List Call :=
  (isr_head irq_no).map fun isr => ⟨irq_no, isr⟩

theorem prvDoIrq_eq (hq : q < IRQ_NUM + EIRQ_NUM) :
    prvDoIrq isr_head q = some (callsOf isr_head q) :=
  if_neg (by omega)

/-! ### One bank -/

/-- The bits from `nb` on that one pass over the bank `i` dispatches. -/
def served (stat : BitVec 32) (i nb : Nat) : List Nat :=
  if i = 0 then (List.range' nb (32 - nb)).filter stat.getLsbD
  else ((List.range' nb (32 - nb)).find? stat.getLsbD).toList

theorem served_of_ge (hnb : 32 ≤ nb) : served stat i nb = [] := by
  have hzero : 32 - nb = 0 := by omega
  simp [served, hzero]

theorem served_succ (hnb : nb < 32) : served stat i nb =
    if stat.getLsbD nb then nb :: (if i = 0 then served stat i (nb + 1) else [])
    else served stat i (nb + 1) := by
  have hsucc : 32 - nb = (32 - (nb + 1)) + 1 := by omega
  unfold served
  rw [hsucc, List.range'_succ]
  split <;> by_cases hbit : stat.getLsbD nb <;> simp_all

theorem scanBank_eq (hi : i < EIRQ_NUM / 32) {fuel : Nat} (hfuel : 32 < fuel + nb)
    (hpos : 0 < fuel) : scanBank isr_head stat i fuel nb =
      some ((served stat i nb).flatMap fun b => callsOf isr_head (b + 32 * i + IRQ_NUM)) := by
  induction fuel generalizing nb with
  | zero => omega
  | succ fuel ih =>
    rw [scanBank]
    split
    · rename_i hnb
      rw [served_succ hnb]
      split
      · have hirq : nb + 32 * i + IRQ_NUM < IRQ_NUM + EIRQ_NUM := by
          unfold IRQ_NUM EIRQ_NUM EIRQ2_NUM EIRQ3_NUM at *
          omega
        dsimp only
        rw [prvDoIrq_eq hirq, Option.bind_some, ih (by omega) (by omega)]
        by_cases hzero : i = 0
        · subst hzero
          simp
        · -- the variable of the loop is behind the last bit
          rw [served_of_ge (by omega), if_neg hzero]
          simp
      · exact ih (by omega) (by omega)
    · rename_i hnb
      rw [served_of_ge (by omega)]
      rfl

/-- In bank 0 every pending bit is dispatched, and in another bank the first one. -/
theorem mem_served {b : Nat} : b ∈ served stat i 0 ↔
    b < 32 ∧ stat.getLsbD b = true ∧ (i = 0 ∨ ∀ j < b, stat.getLsbD j = false) := by
  unfold served
  split
  · rename_i hzero
    simp [hzero]
  · rename_i hzero
    rw [Option.mem_toList, List.find?_range'_eq_some]
    simp [hzero]
    tauto

theorem nodup_served : (served stat i 0).Nodup := by
  unfold served
  split
  · exact List.Nodup.filter _ List.nodup_range'
  · cases (List.range' 0 (32 - 0)).find? stat.getLsbD <;> simp

/-! ### The calls of one interrupt -/

/-- The calls of the handlers of one interrupt in a dispatch. -/
def callsAt (calls : List Call) (q : Nat) : List Call := calls.filter fun c => c.irq_no = q

theorem callsAt_append (calls calls' : List Call) (q : Nat) :
    callsAt (calls ++ calls') q = callsAt calls q ++ callsAt calls' q :=
  List.filter_append ..

theorem callsAt_callsOf (q' : Nat) :
    callsAt (callsOf isr_head q') q = if q' = q then callsOf isr_head q else [] := by
  unfold callsAt callsOf
  split
  · rename_i heq
    simp [heq]
  · rename_i hne
    simp [hne]

/-- An interrupt that is dispatched once. -/
theorem callsAt_flatMap {l : List Nat} (hl : l.Nodup) {b : Nat} :
    callsAt (l.flatMap fun b => callsOf isr_head (b + 32 * i + IRQ_NUM)) (b + 32 * i + IRQ_NUM) =
      if b ∈ l then callsOf isr_head (b + 32 * i + IRQ_NUM) else [] := by
  induction l with
  | nil => rfl
  | cons a l ih =>
    obtain ⟨ha, hl⟩ := List.nodup_cons.mp hl
    rw [List.flatMap_cons, callsAt_append, ih hl, callsAt_callsOf]
    by_cases hab : a = b
    · subst hab
      simp [ha]
    · have hne : a + 32 * i + IRQ_NUM ≠ b + 32 * i + IRQ_NUM := by omega
      rw [if_neg hne]
      simp [Ne.symm hab]

/-- The interrupts of another bank have other numbers. -/
theorem callsAt_other {l : List Nat} {j b : Nat} (hij : i ≠ j) (hl : ∀ a ∈ l, a < 32)
    (hb : b < 32) :
    callsAt (l.flatMap fun b => callsOf isr_head (b + 32 * j + IRQ_NUM))
      (b + 32 * i + IRQ_NUM) = [] := by
  induction l with
  | nil => rfl
  | cons a l ih =>
    have ha := hl a List.mem_cons_self
    rw [List.flatMap_cons, callsAt_append, ih fun a ha => hl a (List.mem_cons_of_mem _ ha),
      callsAt_callsOf, if_neg (by omega)]
    rfl

/-! ### The banks -/

/-- One pass over some banks. -/
theorem scanBanks_spec {int_stat : Nat → BitVec 32} {banks : List Nat} (hnodup : banks.Nodup)
    (hbanks : ∀ i ∈ banks, i < EIRQ_NUM / 32) :
    ∃ calls, scanBanks isr_head int_stat banks = some calls ∧
      (∀ i b, b < 32 → callsAt calls (b + 32 * i + IRQ_NUM) =
        if i ∈ banks ∧ b ∈ served (int_stat i) i 0 then
          callsOf isr_head (b + 32 * i + IRQ_NUM) else []) ∧
      ∀ c ∈ calls, ∃ i ∈ banks, ∃ b < 32, c.irq_no = b + 32 * i + IRQ_NUM ∧
        (int_stat i).getLsbD b = true := by
  induction banks with
  | nil =>
    refine ⟨[], rfl, ?_, ?_⟩
    · simp [callsAt]
    · simp
  | cons j banks ih =>
    obtain ⟨hj, hnodup⟩ := List.nodup_cons.mp hnodup
    obtain ⟨calls, hscan, hat, hmem⟩ :=
      ih hnodup fun i hi => hbanks i (List.mem_cons_of_mem _ hi)
    rw [scanBanks]
    split
    · rename_i hzero
      have hnone : ∀ b, b ∉ served (int_stat j) j 0 := by
        intro b hb
        have hbit := (mem_served.mp hb).2.1
        rw [hzero] at hbit
        simp at hbit
      refine ⟨calls, hscan, ?_, ?_⟩
      · intro i b hb
        rw [hat i b hb]
        by_cases hij : i = j
        · subst hij
          simp [hnone b]
        · simp [hij]
      · intro c hc
        obtain ⟨i, hi, hrest⟩ := hmem c hc
        exact ⟨i, List.mem_cons_of_mem _ hi, hrest⟩
    · rw [scanBank_eq (hbanks j List.mem_cons_self) (by omega) (by omega), Option.bind_some, hscan,
        Option.map_some]
      refine ⟨_, rfl, ?_, ?_⟩
      · intro i b hb
        rw [callsAt_append, hat i b hb]
        by_cases hij : i = j
        · subst hij
          rw [callsAt_flatMap nodup_served]
          simp [hj]
        · rw [callsAt_other hij (fun a ha => (mem_served.mp ha).1) hb]
          simp [hij]
      · intro c hc
        obtain hc | hc := List.mem_append.mp hc
        · obtain ⟨b, hb, hc⟩ := List.mem_flatMap.mp hc
          obtain ⟨isr, -, rfl⟩ := List.mem_map.mp hc
          obtain ⟨hb32, hbit, -⟩ := mem_served.mp hb
          exact ⟨j, List.mem_cons_self, b, hb32, rfl, hbit⟩
        · obtain ⟨i, hi, hrest⟩ := hmem c hc
          exact ⟨i, List.mem_cons_of_mem _ hi, hrest⟩

/-! ### The lines -/

/-- The pending lines of external interrupts. -/
def externalLines (cause : BitVec 32) (lines : List Nat) : List Nat :=
  lines.filter fun l => cause.getLsbD l && (l = IRQ_EIRQ3_NUM ∨ l = IRQ_EIRQ2_NUM)

/-- The hand-off makes one pass for each pending line of external interrupts. -/
theorem scanLines_spec {int_stat : Nat → BitVec 32} {cause : BitVec 32} {lines : List Nat}
    (hlines : ∀ l ∈ lines, l < IRQ_NUM) :
    ∃ calls, scanLines isr_head int_stat cause lines = some calls ∧
      (∀ i < EIRQ_NUM / 32, ∀ b < 32, callsAt calls (b + 32 * i + IRQ_NUM) =
        (externalLines cause lines).flatMap fun _ =>
          if b ∈ served (int_stat i) i 0 then callsOf isr_head (b + 32 * i + IRQ_NUM) else []) ∧
      ∀ c ∈ calls, (c.irq_no < IRQ_NUM ∧ cause.getLsbD c.irq_no = true) ∨
        ∃ i < EIRQ_NUM / 32, ∃ b < 32, c.irq_no = b + 32 * i + IRQ_NUM ∧
          (int_stat i).getLsbD b = true := by
  induction lines with
  | nil =>
    refine ⟨[], rfl, ?_, ?_⟩
    · simp [callsAt, externalLines]
    · simp
  | cons l lines ih =>
    obtain ⟨calls, hscan, hat, hmem⟩ := ih fun l hl => hlines l (List.mem_cons_of_mem _ hl)
    have hl := hlines l List.mem_cons_self
    rw [scanLines]
    by_cases hbit : cause.getLsbD l
    · rw [if_pos hbit]
      by_cases hext : l = IRQ_EIRQ3_NUM ∨ l = IRQ_EIRQ2_NUM
      · obtain ⟨nb, hnb, hatnb, hmemnb⟩ := @scanBanks_spec isr_head int_stat
          (List.range (EIRQ_NUM / 32)) List.nodup_range fun i hi => List.mem_range.mp hi
        rw [if_pos hext, prvNBInterruptHandler, hnb, Option.bind_some, hscan, Option.map_some]
        refine ⟨_, rfl, ?_, ?_⟩
        · intro i hi b hb
          have hcons : externalLines cause (l :: lines) = l :: externalLines cause lines := by
            simp [externalLines, hbit, hext]
          rw [callsAt_append, hatnb i b hb, hat i hi b hb, hcons, List.flatMap_cons]
          simp only [List.mem_range, hi, true_and]
        · intro c hc
          obtain hc | hc := List.mem_append.mp hc
          · obtain ⟨i, hi, hrest⟩ := hmemnb c hc
            exact .inr ⟨i, List.mem_range.mp hi, hrest⟩
          · exact hmem c hc
      · have hirq : l < IRQ_NUM + EIRQ_NUM := by omega
        rw [if_neg hext, prvDoIrq_eq hirq, Option.bind_some, hscan, Option.map_some]
        refine ⟨_, rfl, ?_, ?_⟩
        · intro i hi b hb
          have hcons : externalLines cause (l :: lines) = externalLines cause lines := by
            simp [externalLines, hext]
          rw [callsAt_append, callsAt_callsOf, if_neg (by omega), hat i hi b hb, hcons]
          rfl
        · intro c hc
          obtain hc | hc := List.mem_append.mp hc
          · obtain ⟨isr, -, rfl⟩ := List.mem_map.mp hc
            exact .inl ⟨hl, hbit⟩
          · exact hmem c hc
    · rw [if_neg hbit]
      have hcons : externalLines cause (l :: lines) = externalLines cause lines := by
        simp [externalLines, hbit]
      exact ⟨calls, hscan, fun i hi b hb => by rw [hat i hi b hb, hcons], hmem⟩

/-! ### The hand-off -/

/-- An interrupt is pending: a line of the processor that is not masked, or a bit of a bank. -/
def Pending (s : State) (r : Registers) (irq_no : Nat) : Prop :=
  (irq_no < IRQ_NUM ∧ (r.cause &&& s.sr).getLsbD (irq_no + IRQ_NUM) = true) ∨
    ∃ i < EIRQ_NUM / 32, ∃ b < 32, irq_no = b + 32 * i + IRQ_NUM ∧
      (intStat r i).getLsbD b = true

/-- The handlers of every pending enabled interrupt of every bank are called once, and no
    handler of an interrupt that is not pending. -/
structure Dispatched (s : State) (r : Registers) (calls : List Call) : Prop where
  once : ∀ i < EIRQ_NUM / 32, ∀ b < 32, (intStat r i).getLsbD b = true →
    (s.enable_reg i).getLsbD b = true →
      callsAt calls (b + 32 * i + IRQ_NUM) = callsOf s.isr_head (b + 32 * i + IRQ_NUM)
  pending : ∀ c ∈ calls, Pending s r c.irq_no

/-- Every pending enabled interrupt that has a handler is in bank 0 or the first pending one of
    its bank, and just one of the external lines is pending then. -/
def OneOfEach (s : State) (r : Registers) : Prop :=
  ∀ i < EIRQ_NUM / 32, ∀ b < 32, (intStat r i).getLsbD b = true →
    (s.enable_reg i).getLsbD b = true → s.isr_head (b + 32 * i + IRQ_NUM) ≠ [] →
      (r.cause &&& s.sr).getLsbD (IRQ_EIRQ2_NUM + IRQ_NUM) ≠
          (r.cause &&& s.sr).getLsbD (IRQ_EIRQ3_NUM + IRQ_NUM) ∧
        (i = 0 ∨ ∀ j < b, (intStat r i).getLsbD j = false)

theorem getLsbD_lines {x y : BitVec 32} {l : Nat} (hl : l < IRQ_NUM) :
    ((x &&& y &&& 0xff00) >>> 8).getLsbD l = (x &&& y).getLsbD (l + IRQ_NUM) := by
  have hmask : (0xff00 : BitVec 32).getLsbD (8 + l) = true := by
    unfold IRQ_NUM at hl
    interval_cases l <;> rfl
  rw [BitVec.getLsbD_ushiftRight, BitVec.getLsbD_and (x := x &&& y), hmask, Bool.and_true, Nat.add_comm]
  rfl

theorem externalLines_range (cause : BitVec 32) :
    externalLines cause (List.range IRQ_NUM) =
      (if cause.getLsbD IRQ_EIRQ2_NUM then [IRQ_EIRQ2_NUM] else []) ++
        if cause.getLsbD IRQ_EIRQ3_NUM then [IRQ_EIRQ3_NUM] else [] := by
  have hrange : List.range IRQ_NUM = [0, 1, 2, 3, 4, 5, 6, 7] := rfl
  rw [hrange]
  cases h2 : cause.getLsbD IRQ_EIRQ2_NUM <;> cases h3 : cause.getLsbD IRQ_EIRQ3_NUM <;>
    simp_all [externalLines, IRQ_EIRQ2_NUM, IRQ_EIRQ3_NUM]

/-- The number of passes is one. -/
theorem flatMap_externalLines {cause : BitVec 32} {calls : List Call} (hne : calls ≠ []) :
    (externalLines cause (List.range IRQ_NUM)).flatMap (fun _ => calls) = calls ↔
      cause.getLsbD IRQ_EIRQ2_NUM ≠ cause.getLsbD IRQ_EIRQ3_NUM := by
  rw [externalLines_range]
  cases cause.getLsbD IRQ_EIRQ2_NUM <;> cases cause.getLsbD IRQ_EIRQ3_NUM <;>
    simp [hne, Ne.symm hne]

/-- A hand-off, without an exception and outside of another one, dispatches every pending enabled
    interrupt once exactly when there is at most one in a bank behind the first and one line. -/
theorem dispatched_iff (s : State) (r : Registers) (hcause : r.cause &&& 0x7c = 0)
    (hnest : s.dispatch = none) : ∃ calls, vPortInterruptHandoff s r = some calls ∧
      (Dispatched s r calls ↔ OneOfEach s r) := by
  obtain ⟨calls, hscan, hat, hmem⟩ := @scanLines_spec s.isr_head (intStat r)
    ((r.cause &&& s.sr &&& 0xff00) >>> 8) (List.range IRQ_NUM) fun l hl => List.mem_range.mp hl
  refine ⟨calls, ?_, ?_⟩
  · unfold vPortInterruptHandoff
    rw [if_pos ⟨hcause, hnest⟩]
    exact hscan
  · have h2 : ((r.cause &&& s.sr &&& 0xff00) >>> 8).getLsbD IRQ_EIRQ2_NUM =
        (r.cause &&& s.sr).getLsbD (IRQ_EIRQ2_NUM + IRQ_NUM) := getLsbD_lines (by decide)
    have h3 : ((r.cause &&& s.sr &&& 0xff00) >>> 8).getLsbD IRQ_EIRQ3_NUM =
        (r.cause &&& s.sr).getLsbD (IRQ_EIRQ3_NUM + IRQ_NUM) := getLsbD_lines (by decide)
    constructor
    · intro hdispatched i hi b hb hbit henabled hhandler
      have honce := hdispatched.once i hi b hb hbit henabled
      have hne : callsOf s.isr_head (b + 32 * i + IRQ_NUM) ≠ [] := by
        unfold callsOf
        simpa using hhandler
      rw [hat i hi b hb] at honce
      split at honce
      · rename_i hserved
        rw [flatMap_externalLines hne, h2, h3] at honce
        exact ⟨honce, (mem_served.mp hserved).2.2⟩
      · -- a bit that is not served
        rw [List.flatMap_eq_nil_iff.mpr fun _ _ => rfl] at honce
        exact absurd honce.symm hne
    · intro hone
      constructor
      · intro i hi b hb hbit henabled
        rw [hat i hi b hb]
        by_cases hhandler : s.isr_head (b + 32 * i + IRQ_NUM) = []
        · have hnil : callsOf s.isr_head (b + 32 * i + IRQ_NUM) = [] := by
            unfold callsOf
            rw [hhandler]
            rfl
          rw [hnil, ite_self]
          exact List.flatMap_eq_nil_iff.mpr fun _ _ => rfl
        · obtain ⟨hlines, hfirst⟩ := hone i hi b hb hbit henabled hhandler
          have hne : callsOf s.isr_head (b + 32 * i + IRQ_NUM) ≠ [] := by
            unfold callsOf
            simpa using hhandler
          rw [if_pos (mem_served.mpr ⟨hb, hbit, hfirst⟩), flatMap_externalLines hne, h2, h3]
          exact hlines
      · intro c hc
        obtain ⟨hlt, hbit⟩ | hnb := hmem c hc
        · rw [getLsbD_lines hlt] at hbit
          exact .inl ⟨hlt, hbit⟩
        · exact .inr hnb

end

/-- The handlers of the interrupts of bank 1 are installed and enabled, and the lines are not
    masked. -/
def bank1Enabled : State where
  isr_head irq := if irq < 40 then [] else [⟨1, 0, 0⟩]
  sr := BitVec.allOnes 32
  enable_reg _ := BitVec.allOnes 32
  enable_reg_bank1 := BitVec.allOnes 32
  dispatch := none

/-- The line of EIRQ3 with the bits `bank1` of bank 1. -/
def onEirq3 (bank1 : BitVec 32) : Registers where
  cause := BitVec.twoPow 32 11
  status_reg i := if i = 1 then bank1 else 0
  mbox_status_reg := 0xffffffff
  mbox_status := 0

theorem dispatched_iff_oneBit : ∃ calls,
    vPortInterruptHandoff bank1Enabled (onEirq3 4) = some calls ∧
      (Dispatched bank1Enabled (onEirq3 4) calls ↔ OneOfEach bank1Enabled (onEirq3 4)) :=
  dispatched_iff bank1Enabled (onEirq3 4) (by decide) rfl

/-- Of two pending interrupts of bank 1, the second one is not dispatched. -/
theorem dispatched_fails :
    ¬ ∀ (s : State) (r : Registers), r.cause &&& 0x7c = 0 → s.dispatch = none →
      ∃ calls, vPortInterruptHandoff s r = some calls ∧ Dispatched s r calls := by
  intro h
  obtain ⟨calls, hcalls, hdispatched⟩ := h bank1Enabled (onEirq3 3) (by decide) rfl
  have honly : vPortInterruptHandoff bank1Enabled (onEirq3 3) = some [⟨40, 1, 0, 0⟩] := by decide
  rw [honly] at hcalls
  obtain rfl := Option.some.inj hcalls
  have hsecond := hdispatched.once 1 (by decide) 1 (by decide) (by decide) (by decide)
  revert hsecond
  decide

end Hcrtos.Native.PortInterrupt
