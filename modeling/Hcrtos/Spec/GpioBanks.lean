import Hcrtos.Native.Gpio

/-!
# Pads that share a register

A call that nothing interrupts sets the bits of its own pad. The task writes back the word that it
has read, so the bits of the handler's pads survive exactly if they are the same as when the word
was read.

## Key results

- `bit_foldl_update`, `bit_foldl_perform`: the bits after a call that nothing interrupts
- `kept_store`, `not_kept_store`: the bits after a write of the task
- `kept_iff`: the runs along which every pad keeps the bits requested for it
- `kept_fails`: a run in which an output of the handler is lost
-/

namespace Hcrtos.Native.Gpio

open Lts Bits

/-- The registers that decide how a pad is driven. -/
def Reg.Drives (reg : Reg) : Prop := reg = .DIR_REG ∨ reg = .OUTPUT_VAL_REG

instance (reg : Reg) : Decidable reg.Drives := inferInstanceAs (Decidable (_ ∨ _))

/-- Every pad has the direction and output requested for it, save for what the running call still
    has to update. -/
def Kept (s : State) : Prop :=
  ∀ reg : Reg, reg.Drives → ∀ padctl < PINPAD_MAX,
    (∀ u ∈ s.todo, u.reg = reg → u.padctl ≠ padctl) →
      s.regs.bit reg padctl = s.requested reg padctl

/-- When the task writes a direction or output register, the other bits of the register are those
    that it has read. -/
def Undisturbed (s : State) (a : Action) : Prop :=
  a = .store → ∀ u word, s.todo.head? = some u → s.loaded = some word → u.reg.Drives →
    ∀ padctl, padctl / 32 = u.padctl / 32 → padctl ≠ u.padctl →
      word.getLsbD (padctl % 32) = s.regs.bit u.reg padctl

/-- What holds as long as the task's writes are undisturbed. -/
structure Inv (handlers : Nat → Bool) (s : State) : Prop where
  kept : Kept s
  pending : ∀ u ∈ s.todo, u.reg.Drives → s.requested u.reg u.padctl = u.val
  own : ∀ u ∈ s.todo, handlers u.padctl = false
  valid : ∀ u ∈ s.todo, u.padctl < PINPAD_MAX
  same : ∀ u ∈ s.todo, ∀ v ∈ s.todo, u.padctl = v.padctl

variable {handlers : Nat → Bool} {s : State}

/-! ### Single updates -/

theorem pad_ne {p q : Nat} (hbank : p / 32 = q / 32) (hne : p ≠ q) : p % 32 ≠ q % 32 := by
  omega

/-- The bits of a register after a word of it was written. -/
theorem bit_write (r : Regs) (reg : Reg) (bank : Nat) (word : BitVec 32) (reg' : Reg) (pad : Nat) :
    (r.write reg bank word).bit reg' pad =
      if reg' = reg ∧ pad / 32 = bank then word.getLsbD (pad % 32) else r.bit reg' pad := by
  unfold Regs.write Regs.bit
  by_cases hreg : reg' = reg
  · subst hreg
    by_cases hbank : pad / 32 = bank
    · simp [hbank]
    · simp [hbank]
  · simp [hreg]

@[simp] theorem getLsbD_modify (u : Update) (word : BitVec 32) (i : Nat) :
    (u.modify word).getLsbD i = if i = u.padctl % 32 then u.val else word.getLsbD i := by
  have hlt : u.padctl % 32 < 32 := Nat.mod_lt _ (by decide)
  unfold Update.modify
  cases hval : u.val with
  | true =>
    rw [if_pos rfl, getLsbD_setBit _ hlt]
    by_cases hi : i = u.padctl % 32 <;> simp [hi]
  | false =>
    rw [if_neg (by decide), getLsbD_clearBit]
    by_cases hi : i = u.padctl % 32 <;> simp [hi]

/-- An update sets the bit of its pad and leaves the others alone. -/
theorem bit_update (r : Regs) (u : Update) (reg : Reg) (pad : Nat) :
    (r.update u).bit reg pad =
      if reg = u.reg ∧ pad = u.padctl then u.val else r.bit reg pad := by
  unfold Regs.update
  rw [bit_write, getLsbD_modify]
  by_cases hpad : pad = u.padctl
  · subst hpad
    simp
  · by_cases hword : reg = u.reg ∧ pad / 32 = u.padctl / 32
    · obtain ⟨rfl, hbank⟩ := hword
      simp [hbank, hpad, pad_ne hbank hpad, Regs.bit]
    · rw [if_neg hword, if_neg (by simp [hpad])]

/-- Updates leave the bits alone that none of them is for. -/
theorem bit_foldl_update {us : List Update} {r : Regs} {reg : Reg} {pad : Nat}
    (h : ∀ u ∈ us, ¬ (reg = u.reg ∧ pad = u.padctl)) :
    (us.foldl Regs.update r).bit reg pad = r.bit reg pad := by
  induction us generalizing r with
  | nil => rfl
  | cons u us ih =>
    rw [List.foldl_cons, ih fun v hv => h v (List.mem_cons_of_mem u hv), bit_update,
      if_neg (h u List.mem_cons_self)]

/-! ### Calls -/

/-- The updates of a call are for its pad. -/
theorem padctl_of_mem_updates {c : Call} {u : Update} (hu : u ∈ c.updates) :
    u.padctl = c.padctl ∧ u.padctl < PINPAD_MAX := by
  cases c with
  | gpio_set_output padctl val =>
    simp only [Call.updates, gpio_set_output, gpio_set_output_high, gpio_set_output_low] at hu
    split at hu
    · cases hu
    · next hlt =>
      have hu : u = ⟨.OUTPUT_VAL_REG, padctl, val⟩ := by
        cases val <;> simpa using hu
      rw [hu]
      exact ⟨rfl, Nat.lt_of_not_le hlt⟩
  | gpio_configure padctl pinset =>
    simp only [Call.updates, gpio_configure] at hu
    split at hu
    · cases hu
    · next hlt =>
      have hpad : u.padctl = padctl := by
        split at hu
        · simp only [gpio_config_setin, gpio_irq_mode_config, List.cons_append, List.nil_append,
            List.mem_cons, List.not_mem_nil, or_false] at hu
          obtain rfl | rfl | rfl := hu <;> rfl
        · split at hu
          · simp only [gpio_config_setout, List.mem_singleton] at hu
            rw [hu]
          · cases hu
      rw [hpad]
      exact ⟨rfl, Nat.lt_of_not_le hlt⟩

/-- What a call asks for is what its updates of direction and output registers write. -/
theorem request_of_mem {c : Call} {u : Update} (hu : u ∈ c.updates) (hreg : u.reg.Drives) :
    c.request u.reg u.padctl = some u.val := by
  have hlt := (padctl_of_mem_updates hu).2
  cases c with
  | gpio_set_output padctl val =>
    have hu : u = ⟨.OUTPUT_VAL_REG, padctl, val⟩ := by
      simp only [Call.updates, gpio_set_output, gpio_set_output_high, gpio_set_output_low] at hu
      split at hu
      · cases hu
      · cases val <;> simpa using hu
    subst hu
    exact if_pos ⟨rfl, hlt⟩
  | gpio_configure padctl pinset =>
    simp only [Call.updates, gpio_configure] at hu
    split at hu
    · cases hu
    · next hmax =>
      have hvalid := Nat.lt_of_not_le hmax
      split at hu
      · next hinput =>
        simp only [gpio_config_setin, gpio_irq_mode_config, List.cons_append, List.nil_append,
          List.mem_cons, List.not_mem_nil, or_false] at hu
        obtain rfl | rfl | rfl := hu
        · simp only [Call.request]
          rw [if_pos ⟨trivial, hvalid⟩, if_pos hinput]
        -- the registers of the interrupt's edges do not drive the pad
        · exact absurd hreg (by simp [Reg.Drives])
        · exact absurd hreg (by simp [Reg.Drives])
      · next hinput =>
        split at hu
        · next houtput =>
          simp only [gpio_config_setout, List.mem_singleton] at hu
          subst hu
          simp only [Call.request]
          rw [if_pos ⟨trivial, hvalid⟩, if_neg hinput, if_pos houtput]
        · cases hu

/-- A call asks for nothing that it has no update for. -/
theorem request_of_forall_ne {c : Call} {reg : Reg} {pad : Nat}
    (h : ∀ u ∈ c.updates, u.reg = reg → u.padctl ≠ pad) : c.request reg pad = none := by
  cases c with
  | gpio_set_output padctl val =>
    cases reg with
    | OUTPUT_VAL_REG =>
      refine if_neg ?_
      rintro ⟨rfl, hlt⟩
      refine h ⟨.OUTPUT_VAL_REG, pad, val⟩ ?_ rfl rfl
      simp only [Call.updates, gpio_set_output, if_neg (Nat.not_le.mpr hlt)]
      cases val <;> exact List.mem_singleton.mpr rfl
    | _ => rfl
  | gpio_configure padctl pinset =>
    cases reg with
    | DIR_REG =>
      simp only [Call.request]
      split
      · next hpad =>
        obtain ⟨rfl, hlt⟩ := hpad
        simp only [Call.updates, gpio_configure, if_neg (Nat.not_le.mpr hlt)] at h
        split
        · next hinput =>
          rw [if_pos hinput] at h
          exact absurd rfl (h _ List.mem_cons_self rfl)
        · next hinput =>
          rw [if_neg hinput] at h
          split
          · next houtput =>
            rw [if_pos houtput] at h
            exact absurd rfl (h _ List.mem_cons_self rfl)
          · rfl
      · rfl
    | _ => rfl

/-- A call that nothing interrupts sets the bits that it is asked to, and no others. -/
theorem bit_foldl_updates (c : Call) (r : Regs) {reg : Reg} (hreg : reg.Drives) (pad : Nat) :
    (c.updates.foldl Regs.update r).bit reg pad = (c.request reg pad).getD (r.bit reg pad) := by
  suffices h : ∀ (us : List Update) (r : Regs),
      (∀ u ∈ us, u.reg.Drives → c.request u.reg u.padctl = some u.val) →
        (us.foldl Regs.update r).bit reg pad =
          if ∃ u ∈ us, u.reg = reg ∧ u.padctl = pad then (c.request reg pad).getD (r.bit reg pad)
          else r.bit reg pad by
    rw [h c.updates r fun u hu => request_of_mem hu]
    split
    · rfl
    · next hnone =>
      rw [request_of_forall_ne fun u hu hur hup => hnone ⟨u, hu, hur, hup⟩]
      rfl
  intro us
  induction us with
  | nil => simp
  | cons u us ih =>
    intro r hus
    rw [List.foldl_cons, ih _ fun v hv => hus v (List.mem_cons_of_mem u hv), bit_update]
    by_cases hu : u.reg = reg ∧ u.padctl = pad
    · -- the call asks for the bit that the first update writes
      obtain ⟨rfl, rfl⟩ := hu
      simp [hus u List.mem_cons_self hreg]
    · have hu' : ¬ (reg = u.reg ∧ pad = u.padctl) := fun h => hu ⟨h.1.symm, h.2.symm⟩
      simp [hu, hu']

/-- The handler's calls set the bits that are requested last. -/
theorem bit_foldl_perform {cs : List Call} {s : State} {reg : Reg} (hreg : reg.Drives) {pad : Nat}
    (h : s.regs.bit reg pad = s.requested reg pad) :
    (cs.foldl State.perform s).regs.bit reg pad =
      (cs.foldl State.perform s).requested reg pad := by
  induction cs generalizing s with
  | nil => exact h
  | cons c cs ih =>
    apply ih
    show (c.updates.foldl Regs.update s.regs).bit reg pad = _
    rw [bit_foldl_updates c s.regs hreg pad, h]
    rfl

/-- The handler's calls request nothing for the pads of the task. -/
theorem requested_foldl_perform {cs : List Call} {s : State} {pad : Nat}
    (h : ∀ c ∈ cs, c.padctl ≠ pad) (reg : Reg) :
    (cs.foldl State.perform s).requested reg pad = s.requested reg pad := by
  induction cs generalizing s with
  | nil => rfl
  | cons c cs ih =>
    rw [List.foldl_cons, ih fun d hd => h d (List.mem_cons_of_mem c hd)]
    have hne := h c List.mem_cons_self
    have hnone : c.request reg pad = none := by
      apply request_of_forall_ne
      intro u hu _ hpad
      exact hne ((padctl_of_mem_updates hu).1.symm.trans hpad)
    simp [State.perform, State.request, hnone]

@[simp] theorem todo_foldl_perform (cs : List Call) (s : State) :
    (cs.foldl State.perform s).todo = s.todo := by
  induction cs generalizing s with
  | nil => rfl
  | cons c cs ih => exact ih _

/-! ### Steps -/

/-- What the step function does. -/
theorem step_cases {a : Action} {s' : State} (h : step handlers s a = some s') :
    (∃ c, a = .call c ∧ s.todo = [] ∧ handlers c.padctl = false ∧
      s' = { s.request c with todo := c.updates }) ∨
    (a = .load ∧ ∃ word, s' = { s with loaded := some word }) ∨
    (∃ u todo word, a = .store ∧ s.todo = u :: todo ∧ s.loaded = some word ∧
      s' = { s with
        regs := s.regs.write u.reg (u.padctl / 32) (u.modify word)
        todo := todo
        loaded := none }) ∨
    ∃ cs, a = .interrupt cs ∧ (∀ c ∈ cs, handlers c.padctl = true) ∧
      s' = cs.foldl State.perform s := by
  cases a with
  | call c =>
    simp only [step] at h
    split at h
    · next hc => exact .inl ⟨c, rfl, hc.1, hc.2, (Option.some.inj h).symm⟩
    · cases h
  | load =>
    simp only [step] at h
    split at h
    · exact .inr (.inl ⟨rfl, _, (Option.some.inj h).symm⟩)
    · cases h
  | store =>
    simp only [step] at h
    split at h
    · next u todo word htodo hloaded =>
      exact .inr (.inr (.inl ⟨u, todo, word, rfl, htodo, hloaded, (Option.some.inj h).symm⟩))
    · cases h
  | interrupt cs =>
    simp only [step] at h
    split at h
    · next hall =>
      exact .inr (.inr (.inr ⟨cs, rfl, List.all_eq_true.mp hall, (Option.some.inj h).symm⟩))
    · cases h

theorem inv_start (regs : Regs) : Inv handlers (start regs) := by
  refine ⟨fun reg _ pad _ _ => rfl, ?_, ?_, ?_, ?_⟩ <;> intro u hu <;> cases hu

/-- A call that begins has all its bits to update. -/
theorem inv_call (hs : Inv handlers s) {c : Call} (htodo : s.todo = [])
    (hc : handlers c.padctl = false) :
    Inv handlers { s.request c with todo := c.updates } := by
  refine ⟨?_, ?_, ?_, ?_, ?_⟩
  · intro reg hreg pad hpad hnone
    have hbit := hs.kept reg hreg pad hpad (by simp [htodo])
    have hnot : c.request reg pad = none := request_of_forall_ne hnone
    show s.regs.bit reg pad = (c.request reg pad).getD (s.requested reg pad)
    rw [hnot, hbit]
    rfl
  · intro u hu hreg
    show (c.request u.reg u.padctl).getD _ = u.val
    rw [request_of_mem hu hreg]
    rfl
  · intro u hu
    rw [(padctl_of_mem_updates hu).1]
    exact hc
  · intro u hu
    exact (padctl_of_mem_updates hu).2
  · intro u hu v hv
    rw [(padctl_of_mem_updates hu).1, (padctl_of_mem_updates hv).1]

/-- An undisturbed write sets the bit of its pad and no other one. -/
theorem kept_store (hs : Inv handlers s) {u : Update} {todo : List Update} {word : BitVec 32}
    (htodo : s.todo = u :: todo)
    (hword : u.reg.Drives → ∀ padctl, padctl / 32 = u.padctl / 32 → padctl ≠ u.padctl →
      word.getLsbD (padctl % 32) = s.regs.bit u.reg padctl) :
    Kept { s with
      regs := s.regs.write u.reg (u.padctl / 32) (u.modify word)
      todo := todo
      loaded := none } := by
  intro reg hreg pad hpad hnone
  have hu : u ∈ s.todo := htodo ▸ List.mem_cons_self
  show (s.regs.write u.reg (u.padctl / 32) (u.modify word)).bit reg pad = s.requested reg pad
  rw [bit_write, getLsbD_modify]
  by_cases hown : reg = u.reg ∧ pad = u.padctl
  · obtain ⟨rfl, rfl⟩ := hown
    simp [hs.pending u hu hreg]
  · have hold : s.regs.bit reg pad = s.requested reg pad := by
      apply hs.kept reg hreg pad hpad
      intro v hv hvr hvp
      rw [htodo] at hv
      cases hv with
      | head => exact hown ⟨hvr.symm, hvp.symm⟩
      | tail _ hv => exact hnone v hv hvr hvp
    by_cases hsame : reg = u.reg ∧ pad / 32 = u.padctl / 32
    · obtain ⟨rfl, hbank⟩ := hsame
      have hne : pad ≠ u.padctl := fun h => hown ⟨rfl, h⟩
      rw [if_pos ⟨rfl, hbank⟩, if_neg (pad_ne hbank hne), hword hreg pad hbank hne, hold]
    · rw [if_neg hsame, hold]

/-- A write that is disturbed undoes the handler's update of another pad. -/
theorem not_kept_store (hs : Inv handlers s) {u : Update} {todo : List Update} {word : BitVec 32}
    (htodo : s.todo = u :: todo) (hreg : u.reg.Drives) {pad : Nat}
    (hbank : pad / 32 = u.padctl / 32) (hne : pad ≠ u.padctl)
    (hword : word.getLsbD (pad % 32) ≠ s.regs.bit u.reg pad) :
    ¬ Kept { s with
      regs := s.regs.write u.reg (u.padctl / 32) (u.modify word)
      todo := todo
      loaded := none } := by
  intro hkept
  have hu : u ∈ s.todo := htodo ▸ List.mem_cons_self
  have hvalid := hs.valid u hu
  have hpad : pad < PINPAD_MAX := by
    unfold PINPAD_MAX at *
    omega
  -- all updates that are left are for the pad of this one
  have hothers : ∀ v ∈ s.todo, v.reg = u.reg → v.padctl ≠ pad := by
    intro v hv _ hvp
    exact hne (hvp.symm.trans (hs.same v hv u hu))
  have hold := hs.kept u.reg hreg pad hpad hothers
  have hnew := hkept u.reg hreg pad hpad fun v hv => hothers v (htodo ▸ List.mem_cons_of_mem u hv)
  have hwritten : (s.regs.write u.reg (u.padctl / 32) (u.modify word)).bit u.reg pad =
      s.requested u.reg pad := hnew
  rw [bit_write, getLsbD_modify, if_pos ⟨rfl, hbank⟩, if_neg (pad_ne hbank hne)] at hwritten
  exact hword (hwritten.trans hold.symm)

theorem inv_step (s : State) (a : Action) (s' : State) (hs : Inv handlers s)
    (hG : Undisturbed s a) (h : step handlers s a = some s') : Inv handlers s' := by
  obtain ⟨c, rfl, htodo, hc, rfl⟩ | ⟨rfl, word, rfl⟩ | ⟨u, todo, word, rfl, htodo, hloaded, rfl⟩ |
    ⟨cs, rfl, hcs, rfl⟩ := step_cases h
  · exact inv_call hs htodo hc
  · -- reading changes no register
    exact ⟨hs.kept, hs.pending, hs.own, hs.valid, hs.same⟩
  · have hsub : ∀ v ∈ todo, v ∈ s.todo := fun v hv => htodo ▸ List.mem_cons_of_mem u hv
    have hhead : s.todo.head? = some u := by rw [htodo]; rfl
    have hkept := kept_store hs htodo (hG rfl u word hhead hloaded)
    exact ⟨hkept, fun v hv => hs.pending v (hsub v hv), fun v hv => hs.own v (hsub v hv),
      fun v hv => hs.valid v (hsub v hv), fun v hv w hw => hs.same v (hsub v hv) w (hsub w hw)⟩
  · have htodo := todo_foldl_perform cs s
    refine ⟨?_, ?_, ?_, ?_, ?_⟩
    · intro reg hreg pad hpad hnone
      rw [htodo] at hnone
      exact bit_foldl_perform hreg (hs.kept reg hreg pad hpad hnone)
    · intro u hu hreg
      rw [htodo] at hu
      have hown := hs.own u hu
      rw [requested_foldl_perform]
      · exact hs.pending u hu hreg
      · rintro c hc hpad
        rw [← hpad, hcs c hc] at hown
        cases hown
    all_goals rw [htodo]
    · exact hs.own
    · exact hs.valid
    · exact hs.same

/-- A write that is not undisturbed takes place, and loses a bit. -/
theorem not_kept_step (s : State) (a : Action) (hs : Inv handlers s) (hG : ¬ Undisturbed s a) :
    ∃ s', step handlers s a = some s' ∧ ¬ Kept s' := by
  simp only [Undisturbed, Classical.not_imp, not_forall] at hG
  obtain ⟨rfl, u, word, hhead, hloaded, hreg, pad, hbank, hne, hword⟩ := hG
  obtain ⟨todo, htodo⟩ : ∃ todo, s.todo = u :: todo := List.head?_eq_some_iff.mp hhead
  refine ⟨_, ?_, not_kept_store hs htodo hreg hbank hne hword⟩
  simp only [step, htodo, hloaded]

/-- Along a run from any register contents, every pad keeps the direction and output requested for
    it exactly if the writes of the task are undisturbed. -/
theorem kept_iff (handlers : Nat → Bool) (regs : Regs) (tr : List Action) :
    Always (step handlers) Kept (start regs) tr ↔
      Meets (step handlers) Undisturbed (start regs) tr :=
  always_iff_meets (step handlers) (fun _ hs => hs.kept) inv_step not_kept_step (inv_start regs)

/-- The handler raises pad 65 while the task, which has read the register, raises pad 64. -/
theorem kept_fails : ¬ ∀ (handlers : Nat → Bool) (regs : Regs) (tr : List Action),
    Always (step handlers) Kept (start regs) tr := by
  intro h
  have halways := h (fun pad => pad == 65) (fun _ _ => 0)
    [.call (.gpio_set_output 64 true), .load, .interrupt [.gpio_set_output 65 true], .store]
  have hkept : Kept _ := (((halways.2 _ rfl).2 _ rfl).2 _ rfl).2 _ rfl
  have hbit := hkept .OUTPUT_VAL_REG (.inr rfl) 65 (by decide) (by simp)
  revert hbit
  decide

end Hcrtos.Native.Gpio
