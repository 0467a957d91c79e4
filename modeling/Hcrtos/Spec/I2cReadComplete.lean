import Hcrtos.ForStd.FilledBuffer
import Hcrtos.ForStd.Lts
import Hcrtos.Native.I2cRead

/-!
# The reads of a successful transfer are complete

While a read is collected, the handler and the task fill the buffer from its front, each byte that
is taken from the FIFO behind the one before. The loop after the completion reports what is
missing. The loop of a short read does not, and the index that the handler and that loop share is
set only when a read is started with the interrupt.

## Key results

- `readFifo_inv`: what the handler keeps
- `Inv.interrupt`, `Inv.task`: the steps
- `reads_complete`: the runs in which nothing is missed
- `reads_complete_fails`: a transfer that succeeds with nothing read
-/

namespace Hcrtos.Native.I2cRead

open I2c (I2cMsg I2C_M_READ setFlags)
open Lts Buffer

/-! ### The handler -/

section Handler

variable {s : State}

/-- The bytes taken are the first ones of the buffer. -/
def State.Tracks (s : State) : Prop := Filled s.msg.buffer s.ridx s.taken

theorem State.Tracks.storeNext (h : s.Tracks) (hroom : s.ridx < s.msg.buffer.length)
    (byte : UInt8) (rest : List UInt8) : (s.storeNext byte rest).Tracks :=
  Filled.set h hroom byte

/-- What each byte keeps, the handler keeps. -/
theorem readFifo_inv {I : State → Prop}
    (hstep : ∀ s byte rest, I s → s.ridx < s.msg.buffer.length → I (s.storeNext byte rest))
    (fifo : List UInt8) (h : I s) : I (readFifo fifo s) := by
  induction fifo generalizing s with
  | nil => exact h
  | cons byte rest ih =>
    rw [readFifo]
    split
    · rename_i hroom
      exact ih (hstep s byte rest h hroom)
    · exact h

theorem interrupt_inv {I : State → Prop}
    (hstep : ∀ s byte rest, I s → s.ridx < s.msg.buffer.length → I (s.storeNext byte rest))
    (h : I s) : I (hc_i2c_interrupt s) := by
  unfold hc_i2c_interrupt
  split
  · exact readFifo_inv hstep s.fifo h
  · exact h

theorem State.Tracks.interrupt (h : s.Tracks) : (hc_i2c_interrupt s).Tracks :=
  interrupt_inv (fun _ byte rest htracks hroom => htracks.storeNext hroom byte rest) h

/-- A handler that takes no byte does nothing. -/
theorem interrupt_eq_self (h : ¬ s.TakesByte) : hc_i2c_interrupt s = s := by
  unfold hc_i2c_interrupt
  split
  · rename_i hread
    cases hfifo : s.fifo with
    | nil => rfl
    | cons byte rest =>
      -- the first round of the loop finds no room
      rw [readFifo, if_neg]
      intro hroom
      exact h ⟨hread, hroom, by rw [hfifo]; exact List.cons_ne_nil _ _⟩
  · rfl

/-- What the handler leaves alone. -/
structure Same (s s' : State) : Prop where
  past : s'.past = s.past
  returned : s'.returned = s.returned
  pc : s'.pc = s.pc
  flags : s'.msg.flags = s.msg.flags

theorem same_interrupt (s : State) : Same s (hc_i2c_interrupt s) :=
  interrupt_inv (I := Same s) (fun _ _ _ h _ => ⟨h.past, h.returned, h.pc, h.flags⟩)
    ⟨rfl, rfl, rfl, rfl⟩

end Handler

/-! ### The invariant -/

/-- What holds of the message at each place of the task. -/
def PcInv (s : State) : Pc → Prop
  | .loop x => x.i ≠ 0 → Complete (s.msg, s.taken)
  | .ready _ _ armed => if armed then s.Tracks else s.taken = []
  | .collect _ armed => if armed then s.Tracks else s.taken = []
  | .completion _ => s.Tracks
  | .drain _ => s.Tracks
  | .poll _ i => Filled s.msg.buffer i s.taken
  | .write _ => s.msg.flags &&& I2C_M_READ = 0
  | .attempt _ _ => s.msg.flags &&& I2C_M_READ = 0
  | .written _ _ => s.msg.flags &&& I2C_M_READ = 0
  | .writeReady _ _ => s.msg.flags &&& I2C_M_READ = 0
  | .transDone _ => s.msg.flags &&& I2C_M_READ = 0
  | .failed _ ret => ret < 0
  | .unlock i ret => 0 ≤ ret → i ≠ 0 → Complete (s.msg, s.taken)
  | _ => True

structure Inv (s : State) : Prop where
  past : ∀ r ∈ s.past, Complete r
  returned : ReadsComplete s
  pc : PcInv s s.pc

theorem inv_init : Inv init := ⟨nofun, nofun, trivial⟩

section Steps

variable {s s' : State}

/-- A message that is complete joins those before it. -/
theorem Inv.records (hinv : Inv s) {i : Nat} (h : i ≠ 0 → Complete (s.msg, s.taken)) :
    ∀ r ∈ s.records i, Complete r := by
  intro r hr
  unfold State.records at hr
  split at hr
  · cases hr
  · rename_i hi
    rcases List.mem_append.mp hr with hr | hr
    · exact hinv.past r hr
    · exact List.mem_singleton.mp hr ▸ h hi

/-- The task moves on with its message. -/
theorem Inv.goto (hinv : Inv s) (hpast : s'.past = s.past) (hreturned : s'.returned = s.returned)
    (hpc : PcInv s' s'.pc) : Inv s' := by
  constructor
  case past => exact hpast ▸ hinv.past
  case returned =>
    have h := hinv.returned
    unfold ReadsComplete at h ⊢
    rwa [hreturned]
  case pc => exact hpc

theorem complete_of_not_read {msg : I2cMsg} {taken : List UInt8}
    (h : msg.flags &&& I2C_M_READ = 0) : Complete (msg, taken) := fun hread => absurd h hread

/-- The bytes before a read is collected, in the way in which that is done. -/
theorem collect_inv {armed : Bool} (hpc : if armed then s.Tracks else s.taken = [])
    (hclean : armed = s.long ∨ s.ridx = 0) : if s.long then s.Tracks else s.taken = [] := by
  rcases hclean with hsame | hzero
  · rw [← hsame]
    exact hpc
  · -- the handler is at the first byte, so it has taken nothing
    have htaken : s.taken = [] := by
      cases armed with
      | true =>
        have htracks : s.Tracks := hpc
        exact List.eq_nil_of_length_eq_zero (htracks.1.symm.trans hzero)
      | false => exact hpc
    split
    · show Filled _ s.ridx s.taken
      rw [hzero, htaken]
      exact filled_zero _
    · exact htaken

/-- A step of the task that finds its byte and agrees with the start of the read. -/
theorem Inv.task (hinv : Inv s) (hclean : s.TaskClean s.pc) {ok : Bool}
    (hstep : taskStep s ok = some s') : Inv s' := by
  have hpc := hinv.pc
  unfold taskStep at hstep
  cases hcase : s.pc with
  | idle => simp only [hcase] at hstep; cases hstep
  | loop x =>
    rw [hcase] at hpc
    simp only [hcase] at hstep
    cases htodo : x.todo with
    | nil =>
      rw [htodo] at hstep
      cases hstep
      exact hinv.goto rfl rfl fun _ => hpc
    | cons msg todo =>
      rw [htodo] at hstep
      cases hstep
      -- the finished message joins those before it when the next one takes its place
      exact ⟨hinv.records hpc, hinv.returned, trivial⟩
  | host x =>
    simp only [hcase] at hstep
    split at hstep
    · split at hstep
      · cases hstep
        exact hinv.goto rfl rfl trivial
      · rename_i hwrite
        cases hstep
        exact hinv.goto rfl rfl (not_not.mp hwrite)
    · cases hstep
      exact hinv.goto rfl rfl (by decide : (-116 : Int) < 0)
  | clear x j =>
    simp only [hcase] at hstep
    cases hstep
    exact hinv.goto rfl rfl trivial
  | start x j =>
    simp only [hcase] at hstep
    cases hstep
    refine hinv.goto rfl rfl ?_
    show if triggers s.eddc_flag s.msg then _ else _
    split
    · exact filled_zero _
    · rfl
  | ready x j armed =>
    rw [hcase] at hpc
    simp only [hcase] at hstep
    split at hstep
    · cases hstep
      exact hinv.goto rfl rfl hpc
    · split at hstep
      · cases hstep
        exact hinv.goto rfl rfl (by decide : (-1 : Int) < 0)
      · cases hstep
        exact hinv.goto rfl rfl trivial
  | collect x armed =>
    rw [hcase] at hpc hclean
    simp only [hcase] at hstep
    have hstart := collect_inv hpc hclean
    split at hstep
    · rename_i hlong
      cases hstep
      rw [if_pos hlong] at hstart
      exact hinv.goto rfl rfl hstart
    · rename_i hshort
      cases hstep
      rw [if_neg hshort] at hstart
      refine hinv.goto rfl rfl ?_
      show Filled _ 0 s.taken
      rw [hstart]
      exact filled_zero _
  | completion x =>
    rw [hcase] at hpc
    simp only [hcase] at hstep
    cases hstep
    exact hinv.goto rfl rfl hpc
  | drain x =>
    rw [hcase] at hpc
    simp only [hcase] at hstep
    split at hstep
    · rename_i hroom
      cases hfifo : s.fifo with
      | nil =>
        rw [hfifo] at hstep
        cases hstep
        exact hinv.goto rfl rfl (by decide : (-1 : Int) < 0)
      | cons byte rest =>
        rw [hfifo] at hstep
        cases hstep
        refine hinv.goto rfl rfl ?_
        show PcInv _ s.pc
        rw [hcase]
        exact State.Tracks.storeNext hpc hroom byte rest
    · rename_i hfull
      cases hstep
      exact hinv.goto rfl rfl fun _ _ => Filled.eq hpc (Nat.le_of_not_lt hfull)
  | poll x i =>
    rw [hcase] at hpc hclean
    simp only [hcase] at hstep
    split at hstep
    · rename_i hroom
      cases hfifo : s.fifo with
      -- the timeout of the FIFO, after which the read counts as a success
      | nil => exact absurd hfifo (hclean hroom)
      | cons byte rest =>
        rw [hfifo] at hstep
        cases hstep
        exact hinv.goto rfl rfl (Filled.set hpc hroom byte)
    · rename_i hfull
      cases hstep
      exact hinv.goto rfl rfl fun _ _ => Filled.eq hpc (Nat.le_of_not_lt hfull)
  | write x =>
    rw [hcase] at hpc
    simp only [hcase] at hstep
    split at hstep
    · cases hstep
      exact hinv.goto rfl rfl hpc
    · cases hstep
      exact hinv.goto rfl rfl fun _ => complete_of_not_read hpc
  | attempt x j =>
    rw [hcase] at hpc
    simp only [hcase] at hstep
    split at hstep
    · cases hstep
      exact hinv.goto rfl rfl hpc
    · cases hstep
      exact hinv.goto rfl rfl hpc
  | written x j =>
    rw [hcase] at hpc
    simp only [hcase] at hstep
    cases hstep
    exact hinv.goto rfl rfl hpc
  | writeReady x j =>
    rw [hcase] at hpc
    simp only [hcase] at hstep
    split at hstep
    · cases hstep
      exact hinv.goto rfl rfl hpc
    · split at hstep
      · cases hstep
        exact hinv.goto rfl rfl (by decide : (-1 : Int) < 0)
      · cases hstep
        exact hinv.goto rfl rfl hpc
  | transDone x =>
    rw [hcase] at hpc
    simp only [hcase] at hstep
    split at hstep
    · cases hstep
      exact hinv.goto rfl rfl fun _ => complete_of_not_read hpc
    · cases hstep
      exact hinv.goto rfl rfl (by decide : (-1 : Int) < 0)
  | failed x ret =>
    rw [hcase] at hpc
    simp only [hcase] at hstep
    cases hstep
    exact hinv.goto rfl rfl fun hret => absurd hret (Int.not_le.mpr hpc)
  | unlock i ret =>
    rw [hcase] at hpc
    simp only [hcase] at hstep
    cases hstep
    refine ⟨hinv.past, ?_, trivial⟩
    intro r hr hret
    cases hr
    exact hinv.records (hpc hret)

/-- An interrupt that takes no byte where the task relies on that. -/
theorem Inv.interrupt (hinv : Inv s) (hclean : s.pc.exposed → ¬ s.TakesByte) :
    Inv (hc_i2c_interrupt s) := by
  have hsame := same_interrupt s
  have hpc := hinv.pc
  -- where the task relies on it, the handler does nothing; elsewhere it fills the buffer
  by_cases hexposed : s.pc.exposed = true
  · rw [interrupt_eq_self (hclean hexposed)]
    exact hinv
  apply hinv.goto hsame.past hsame.returned
  rw [hsame.pc]
  have hwrite : s.msg.flags &&& I2C_M_READ = 0 →
      (hc_i2c_interrupt s).msg.flags &&& I2C_M_READ = 0 := fun h => by rwa [hsame.flags]
  cases hcase : s.pc with rw [hcase] at hpc hexposed
  | loop x => exact fun hi => absurd (decide_eq_true hi) hexposed
  | unlock i ret => exact fun hret => absurd (decide_eq_true hret) hexposed
  | poll x i => exact absurd rfl hexposed
  | ready x j armed =>
    cases armed with
    | true => exact State.Tracks.interrupt hpc
    | false => exact absurd rfl hexposed
  | collect x armed =>
    cases armed with
    | true => exact State.Tracks.interrupt hpc
    | false => exact absurd rfl hexposed
  | completion x => exact State.Tracks.interrupt hpc
  | drain x => exact State.Tracks.interrupt hpc
  | write x => exact hwrite hpc
  | attempt x j => exact hwrite hpc
  | written x j => exact hwrite hpc
  | writeReady x j => exact hwrite hpc
  | transDone x => exact hwrite hpc
  | failed x ret => exact hpc
  | idle => trivial
  | host x => trivial
  | clear x j => trivial
  | start x j => trivial

theorem Inv.step (hinv : Inv s) {a : Action} (hclean : Clean s a)
    (hstep : I2cRead.step s a = some s') : Inv s' := by
  cases a with
  | call msgs =>
    cases hstep
    exact hinv.goto rfl rfl hinv.pc
  | lock msgs =>
    obtain ⟨-, hs⟩ := Option.ite_none_right_eq_some.mp hstep
    cases hs
    exact hinv.goto rfl rfl nofun
  | task ok => exact hinv.task hclean hstep
  | interrupt =>
    obtain ⟨-, hs⟩ := Option.ite_none_right_eq_some.mp hstep
    cases hs
    exact hinv.interrupt hclean
  | arrive byte =>
    cases hstep
    exact hinv.goto rfl rfl hinv.pc

end Steps

/-- When every step of a run meets the condition, each message that a successful call was to read
    has in its buffer the bytes that were taken for it from the FIFO. -/
theorem reads_complete {tr : List Action} {s : State} (hrun : run step init tr = some s)
    (hclean : Meets step Clean init tr) : ReadsComplete s :=
  (run_invariant_of_meets step (fun _ _ _ hinv hclean hstep => hinv.step hclean hstep) inv_init
    hclean hrun).returned

/-- A message to read two bytes. -/
def readTwo : I2cMsg := ⟨0x50, I2C_M_READ, [0, 0]⟩

/-- The steps of a call up to the loop that takes the bytes of a short read. -/
def toPoll : List Action :=
  [.call [readTwo], .lock [readTwo], .task true, .task true, .task true, .task true, .task true,
    .task true]

/-- The two bytes come in time. -/
def twoBytes : List Action :=
  [.arrive 1, .task true, .arrive 2, .task true, .task true, .task true, .task true]

theorem reads_complete_two : ∃ s, run step init (toPoll ++ twoBytes) = some s ∧
    s.returned = some (1, [({ setFlags 1 0 readTwo with buffer := [1, 2] }, [1, 2])]) ∧
    ReadsComplete s := by
  have hrun : ∃ s, run step init (toPoll ++ twoBytes) = some s ∧ s.returned =
      some (1, [({ setFlags 1 0 readTwo with buffer := [1, 2] }, [1, 2])]) := ⟨_, rfl, rfl⟩
  obtain ⟨s, hs, hreturned⟩ := hrun
  exact ⟨s, hs, hreturned, reads_complete hs (by decide)⟩

/-- No byte comes: the loop runs into its timeout, and the transfer succeeds. -/
theorem reads_complete_fails : ¬ ∀ (tr : List Action) (s : State),
    run step init tr = some s → ReadsComplete s := by
  intro h
  have hrun := h (toPoll ++ [.task true, .task true, .task true]) _ rfl
  have hcomplete := hrun (1, [(setFlags 1 0 readTwo, [])]) rfl (by decide) _
    (List.mem_singleton_self _)
  exact absurd hcomplete (by decide)

end Hcrtos.Native.I2cRead
