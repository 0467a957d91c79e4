import Hcrtos.Native.I2c

/-!
# Messages and the mode of their transfer

`hc_i2c_transfer` writes the flag of the EDDC mode before it takes the lock, so the flag is the
mode of the call that began last, whoever holds the lock. A message is carried out in the mode of
its own transfer exactly if these agree whenever its command depends on the mode.

## Key results

- `write_msg_eq_iff`, `read_msg_eq_iff`, `collectCommand_eq_iff`: which commands depend on the mode
- `taskStep_cases`, `log_taskStep`: what one step does, and the commands of it
- `always_isolated_iff`: the runs in which every message is carried out in its own mode
- `isolated_fails`: a run in which one is not
-/

namespace Hcrtos.Native.I2c

open Lts

/-! ### Commands -/

theorem write_msg_eq_iff (b b' : Bool) (msg : I2cMsg) :
    hc_i2c_write_msg b msg = hc_i2c_write_msg b' msg ↔ (msg.starts → b = b') := by
  -- a message that does not start a transfer is written the same way in both modes
  cases hstarts : msg.starts <;> cases hstops : msg.stops <;> cases b <;> cases b' <;>
    simp [hc_i2c_write_msg, hstarts, hstops]

theorem read_msg_eq_iff (b b' : Bool) (msg : I2cMsg) :
    hc_i2c_read_msg b msg = hc_i2c_read_msg b' msg ↔ (msg.starts = false → b = b') := by
  -- the two modes differ in one bit of the command
  have hbits : HCR_HCE ||| HCR_DNEE ||| HCR_EO ||| HCR_CP_SEQ_READ ||| HCR_ST ≠
      HCR_HCE ||| HCR_DNEE ||| HCR_CP_SEQ_READ ||| HCR_ST := by decide
  cases hstarts : msg.starts <;> cases b <;> cases b' <;>
    simp [hc_i2c_read_msg, hstarts, hbits, hbits.symm]

theorem collectCommand_eq_iff (b b' : Bool) (msg : I2cMsg) :
    collectCommand b msg = collectCommand b' msg ↔ (msg.buffer.length ≤ 32 → b = b') := by
  by_cases hlen : msg.buffer.length ≤ 32
  · have : ¬ msg.buffer.length > 32 := by omega
    cases b <;> cases b' <;> simp [collectCommand, hlen, this]
  · have : msg.buffer.length > 32 := by omega
    cases b <;> cases b' <;> simp [collectCommand, hlen, this]

/-- The command that the next step of a task carries out, and its message. -/
def Pc.command : Pc → Option ((Bool → I2cMsg → Command) × Xfer)
  | .write x => some (hc_i2c_write_msg, x)
  | .read x _ => some (hc_i2c_read_msg, x)
  | .collect x => some (collectCommand, x)
  | _ => none

/-- Where no mode is named, the command is the same in both. -/
theorem Pc.command_eq_iff {pc : Pc} {f : Bool → I2cMsg → Command} {x : Xfer}
    (hpc : pc.command = some (f, x)) (b : Bool) :
    f b x.msg = f x.eddc x.msg ↔ ∀ count ∈ pc.modeOf, b = decide (count = 3) := by
  cases pc with
  | write x =>
    cases hpc
    rw [write_msg_eq_iff]
    cases hstarts : x.msg.starts <;> simp [Pc.modeOf, hstarts, Xfer.eddc]
  | read x j =>
    cases hpc
    rw [read_msg_eq_iff]
    cases hstarts : x.msg.starts <;> simp [Pc.modeOf, hstarts, Xfer.eddc]
  | collect x =>
    cases hpc
    rw [collectCommand_eq_iff]
    by_cases hlen : x.msg.buffer.length > 32
    · have : ¬ x.msg.buffer.length ≤ 32 := by omega
      simp [Pc.modeOf, hlen, this]
    · have : x.msg.buffer.length ≤ 32 := by omega
      simp [Pc.modeOf, hlen, this, Xfer.eddc]
  | _ => cases hpc

theorem Pc.modeOf_eq_none {pc : Pc} (hpc : pc.command = none) : pc.modeOf = none := by
  cases pc with
  | write x => cases hpc
  | read x j => cases hpc
  | collect x => cases hpc
  | _ => rfl

/-! ### Steps -/

/-- What a step leaves of the flag and of the history. -/
structure SameHistory (s s' : State) : Prop where
  eddc_flag : s'.eddc_flag = s.eddc_flag
  lastCount : s'.lastCount = s.lastCount
  log : s'.log = s.log

theorem SameHistory.goto {s s' : State} (h : SameHistory s s') (t : Nat) (pc : Pc) :
    SameHistory s (s'.goto t pc) := ⟨h.eddc_flag, h.lastCount, h.log⟩

theorem sameHistory_master_init {c : Controller} {s s' : State} {mallocOk : Bool}
    (h : hc_i2c_master_init c s mallocOk = some s') : SameHistory s s' := by
  unfold hc_i2c_master_init at h
  split at h
  · cases h
    exact ⟨rfl, rfl, rfl⟩
  · obtain ⟨port, -, rfl⟩ := Option.map_eq_some_iff.mp h
    exact ⟨rfl, rfl, rfl⟩

/-- The state after the command of a task, if there is one. -/
def State.carryOut (s : State) (t : Nat) : State :=
  match (s.tasks t).command with
  | some (f, x) => s.perform f x
  | none => s

/-- A step carries its command out and moves on; only the end of a failed message also initialises
    the controller. -/
theorem taskStep_cases {c : Controller} {s s' : State} {t : Nat} {ok : Bool}
    (h : taskStep c s t ok = some s') :
    (∃ ret s₁, s.tasks t = .failed ret ∧ hc_i2c_master_init c s ok = some s₁ ∧
        s' = s₁.goto t (.unlock ret)) ∨
      ∃ pc lock, s' = { (s.carryOut t).goto t pc with lock := lock } := by
  cases hpc : s.tasks t with
  | failed ret =>
    simp only [taskStep, hpc] at h
    obtain ⟨s₁, hs₁, rfl⟩ := Option.map_eq_some_iff.mp h
    exact Or.inl ⟨ret, s₁, rfl, hs₁, rfl⟩
  | loop count i msgs =>
    have hcommand : s.carryOut t = s := by simp [State.carryOut, hpc, Pc.command]
    rw [hcommand]
    cases msgs <;>
      · simp only [taskStep, hpc, Option.some.injEq] at h
        exact Or.inr ⟨_, _, h.symm⟩
  | write x =>
    have hcommand : s.carryOut t = s.perform hc_i2c_write_msg x := by
      simp [State.carryOut, hpc, Pc.command]
    rw [hcommand]
    simp only [taskStep, hpc] at h
    split at h <;> exact Or.inr ⟨_, _, (Option.some.inj h).symm⟩
  | read x j =>
    have hcommand : s.carryOut t = s.perform hc_i2c_read_msg x := by
      simp [State.carryOut, hpc, Pc.command]
    rw [hcommand]
    simp only [taskStep, hpc, Option.some.injEq] at h
    exact Or.inr ⟨_, _, h.symm⟩
  | collect x =>
    have hcommand : s.carryOut t = s.perform collectCommand x := by
      simp [State.carryOut, hpc, Pc.command]
    rw [hcommand]
    simp only [taskStep, hpc, Option.some.injEq] at h
    exact Or.inr ⟨_, _, h.symm⟩
  | _ =>
    -- no command: only the task moves, and the lock may change hands
    have hcommand : s.carryOut t = s := by simp [State.carryOut, hpc, Pc.command]
    rw [hcommand]
    simp only [taskStep, hpc] at h
    repeat' split at h
    all_goals cases h
    all_goals exact Or.inr ⟨_, _, rfl⟩

/-- A step logs the command that it carries out, and leaves the flag alone. -/
theorem log_taskStep {c : Controller} {s s' : State} {t : Nat} {ok : Bool}
    (h : taskStep c s t ok = some s') : SameHistory (s.carryOut t) s' := by
  obtain ⟨ret, s₁, hpc, hs₁, rfl⟩ | ⟨pc, lock, rfl⟩ := taskStep_cases h
  · have hcommand : s.carryOut t = s := by simp [State.carryOut, hpc, Pc.command]
    rw [hcommand]
    exact (sameHistory_master_init hs₁).goto t _
  · exact ⟨rfl, rfl, rfl⟩

/-- A task that is to carry out a command can do so. -/
theorem taskStep_of_command (c : Controller) {s : State} {t : Nat} (ok : Bool)
    {f : Bool → I2cMsg → Command} {x : Xfer} (h : (s.tasks t).command = some (f, x)) :
    ∃ s', taskStep c s t ok = some s' := by
  cases hpc : s.tasks t with
  | read x j => exact ⟨_, by simp only [taskStep, hpc]; rfl⟩
  | collect x => exact ⟨_, by simp only [taskStep, hpc]; rfl⟩
  | write x =>
    simp only [taskStep, hpc]
    split <;> exact ⟨_, rfl⟩
  | _ =>
    rw [hpc] at h
    cases h

theorem isolated_perform {s : State} {f : Bool → I2cMsg → Command} {x : Xfer} :
    Isolated (s.perform f x) ↔ Isolated s ∧ f s.eddc_flag x.msg = f x.eddc x.msg := by
  simp [Isolated, State.perform, or_imp, forall_and]

/-! ### Runs -/

/-- The flag is the mode of the last call. -/
structure FlagInv (s : State) : Prop where
  isolated : Isolated s
  eddc_flag : s.eddc_flag = decide (s.lastCount = some 3)

theorem flagInv_init : FlagInv init := ⟨(fun _ h => nomatch h), rfl⟩

theorem FlagInv.congr {s s' : State} (hinv : FlagInv s) (h : SameHistory s s') : FlagInv s' where
  isolated := by
    unfold Isolated
    rw [h.log]
    exact hinv.isolated
  eddc_flag := by
    rw [h.eddc_flag, h.lastCount]
    exact hinv.eddc_flag

/-- The next command is carried out in the mode of its transfer. -/
theorem FlagInv.command_eq_iff {s : State} (hinv : FlagInv s) {t : Nat}
    {f : Bool → I2cMsg → Command} {x : Xfer} (hpc : (s.tasks t).command = some (f, x)) :
    f s.eddc_flag x.msg = f x.eddc x.msg ↔
      ∀ count ∈ (s.tasks t).modeOf, s.lastCount = some 3 ↔ count = 3 := by
  rw [Pc.command_eq_iff hpc, hinv.eddc_flag]
  simp only [decide_eq_decide]

theorem flagInv_step (c : Controller) (s : State) (a : Action) (s' : State) (hinv : FlagInv s)
    (hlast : LastCallAgrees s a) (hstep : step c s a = some s') : FlagInv s' := by
  cases a with
  | probe mallocOk =>
    simp only [step] at hstep
    split at hstep
    · obtain ⟨s₁, hs₁, rfl⟩ := Option.map_eq_some_iff.mp hstep
      have hsame := sameHistory_master_init hs₁
      exact hinv.congr ⟨hsame.eddc_flag, hsame.lastCount, hsame.log⟩
    · cases hstep
  | transfer t msgs =>
    simp only [step] at hstep
    split at hstep
    · cases hstep
      exact ⟨hinv.isolated, by simp⟩
    · cases hstep
  | task t ok =>
    have hlog := log_taskStep hstep
    unfold State.carryOut at hlog
    cases hcmd : (s.tasks t).command with
    | none =>
      rw [hcmd] at hlog
      exact hinv.congr hlog
    | some p =>
      obtain ⟨f, x⟩ := p
      rw [hcmd] at hlog
      -- the flag is the mode of the last call, and that is the mode of the command
      have hperform : FlagInv (s.perform f x) :=
        ⟨isolated_perform.mpr ⟨hinv.isolated, (hinv.command_eq_iff hcmd).mpr hlast⟩,
          hinv.eddc_flag⟩
      exact hperform.congr hlog

/-- A command in the mode of another call shows. -/
theorem not_isolated_of_lastCall (c : Controller) (s : State) (a : Action) (hinv : FlagInv s)
    (hlast : ¬ LastCallAgrees s a) : ∃ s', step c s a = some s' ∧ ¬ Isolated s' := by
  cases a with
  | task t ok =>
    cases hcmd : (s.tasks t).command with
    | none =>
      -- a step without a command meets the condition
      have hnone := Pc.modeOf_eq_none hcmd
      refine absurd (fun count hcount => ?_) hlast
      rw [hnone] at hcount
      cases hcount
    | some p =>
      obtain ⟨f, x⟩ := p
      obtain ⟨s', hs'⟩ := taskStep_of_command c ok hcmd
      have hlog := log_taskStep hs'
      rw [State.carryOut, hcmd] at hlog
      refine ⟨s', hs', fun hiso => hlast ((hinv.command_eq_iff hcmd).mp ?_)⟩
      -- the step has logged the command, whatever else it did
      have hiso' : Isolated (s.perform f x) := by
        unfold Isolated at hiso ⊢
        rwa [hlog.log] at hiso
      exact (isolated_perform.mp hiso').2
  | _ => exact absurd trivial hlast

/-- Every message is carried out in the mode of its own transfer exactly if every command that
    depends on the mode comes while the last call of `hc_i2c_transfer` was of that mode. -/
theorem always_isolated_iff (c : Controller) (tr : List Action) :
    Always (step c) Isolated init tr ↔ Meets (step c) LastCallAgrees init tr :=
  always_iff_meets (step c) (fun _ hinv => hinv.isolated) (flagInv_step c)
    (not_isolated_of_lastCall c) flagInv_init

/-- While task 1 is about to write to a device, task 2 calls with an EDDC access and waits. -/
def otherModeRun : List Action :=
  [.probe true, .transfer 1 [⟨0x48, 0, [5, 6]⟩], .task 1 true, .task 1 true, .task 1 true,
    .transfer 2 [⟨0x30, 0, [1]⟩, ⟨0x50, 0, [0]⟩, ⟨0x50, 1, [0, 0]⟩], .task 1 true]

/-- Interrupt 40 for a device with an address and a handler. -/
def exampleController : Controller where
  irq := 40
  hc_i2c_interrupt := 0x80010000
  priv := 0x80200000
  baudrate := 100000
  mbox := 39
  handler_ne := by decide
  irq_lt := by decide

theorem isolated_fails : ¬ ∀ (c : Controller) (tr : List Action),
    Always (step c) Isolated init tr := by
  intro h
  have hiso := h exampleController otherModeRun
  revert hiso
  decide

end Hcrtos.Native.I2c
