import Hcrtos.ForStd.FilledBuffer
import Hcrtos.Native.UartReceive

/-!
# The reader obtains what was received

As long as the ring does not overflow, the handler appends to its contents and the reader takes
from their front, so the bytes obtained, those in the ring and those in the FIFO are together
the received ones. A read of a single byte breaks this when it gives up: `sci_read` counts the
byte that it did not get.

## Key results

- `inv_storeByte`, `inv_sci_read`: the invariant through the handler and the reader
- `inv_step`: one step
- `always_exact_iff`: the runs in which the reader obtains what was received
- `exact_fails`: a run in which it does not
-/

namespace Hcrtos.Native.UartReceive

open Lts Buffer

/-- The call is where its stage says. -/
structure CallInv (s : State) (c : Call) : Prop where
  index_lt : c.stage ≠ .loop → c.index < c.buffer.length
  rd_lt : c.stage ≠ .wrap → s.rx_rd < CONFIG_UART_RX_BUF_SIZE
  unread_pos : c.stage = .fetch → 0 < s.unread

structure Inv (s : State) : Prop where
  exact : Exact s
  fits : Fits s
  fetched_le : s.fetched ≤ s.stored
  wt_eq : s.rx_wt = (s.rx_rd + s.unread) % CONFIG_UART_RX_BUF_SIZE
  rd_lt : s.call = none → s.rx_rd < CONFIG_UART_RX_BUF_SIZE
  call : ∀ c ∈ s.call, CallInv s c

theorem size_pos : 0 < CONFIG_UART_RX_BUF_SIZE := by decide

theorem inv_init : Inv init where
  exact := rfl
  fits := size_pos
  fetched_le := Nat.le_refl 0
  wt_eq := rfl
  rd_lt _ := size_pos
  call _ hc := nomatch hc

/-! ### The handler -/

/-- A stored byte goes from the front of the FIFO to the end of the ring. -/
theorem inv_storeByte {s : State} {byte : UInt8} {fifo : List UInt8} (hinv : Inv s)
    (hfifo : s.fifo = byte :: fifo) (hfits : Fits (storeByte s byte fifo)) :
    Inv (storeByte s byte fifo) := by
  have hle := hinv.fetched_le
  have hunread : (storeByte s byte fifo).unread = s.unread + 1 := by
    show s.stored + 1 - s.fetched = s.stored - s.fetched + 1
    omega
  constructor
  case exact =>
    show s.obtained ++ (Ring.contents (Function.update s.rx_buf s.rx_wt byte)
      CONFIG_UART_RX_BUF_SIZE s.rx_rd (storeByte s byte fifo).unread ++ fifo) = s.received
    -- the byte leaves the FIFO and joins the ring, so together they stay the same
    rw [hunread, hinv.wt_eq, Ring.contents_push hinv.fits, ← hinv.exact, State.waiting, hfifo]
    simp only [List.append_assoc, List.singleton_append]
  case fits => exact hfits
  case fetched_le => exact Nat.le_succ_of_le hle
  case wt_eq =>
    rw [hunread]
    show (s.rx_wt + 1) % _ = (s.rx_rd + (s.unread + 1)) % _
    rw [hinv.wt_eq, Nat.mod_add_mod, Nat.add_assoc]
  case rd_lt => exact hinv.rd_lt
  case call =>
    intro c hc
    have hcall := hinv.call c hc
    -- a reader about to fetch still finds a byte
    exact ⟨hcall.index_lt, hcall.rd_lt, fun _ => by omega⟩

/-- Where the handler stands does not matter. -/
theorem Inv.setIsr {s : State} (hinv : Inv s) (isr : Isr) : Inv { s with isr := isr } :=
  ⟨hinv.exact, hinv.fits, hinv.fetched_le, hinv.wt_eq, hinv.rd_lt,
    fun c hc => ⟨(hinv.call c hc).index_lt, (hinv.call c hc).rd_lt, (hinv.call c hc).unread_pos⟩⟩

theorem inv_sci_isr {s s' : State} {uiir : UInt8} {dr : Bool} (hinv : Inv s) (hfits : Fits s')
    (hstep : sci_isr s uiir dr = some s') : Inv s' := by
  unfold sci_isr at hstep
  split at hstep
  · cases hstep
  · cases hstep
    exact hinv.setIsr _
  all_goals
    split at hstep
    all_goals cases hstep
    all_goals first
      | exact inv_storeByte hinv ‹_› hfits
      | exact hinv.setIsr _

/-! ### The reader -/

/-- The reader moves on without touching the ring, and keeps what it obtained. -/
theorem Inv.setCall {s : State} {c c' : Call} (hinv : Inv s) (hcall : s.call = some c)
    (hobtained : c'.obtained = c.obtained) (hinv' : CallInv s c') :
    Inv { s with call := some c' } := by
  constructor
  case exact =>
    have hexact := hinv.exact
    unfold Exact State.obtained at hexact ⊢
    rw [hcall] at hexact
    show s.returned ++ c'.obtained ++ s.waiting = s.received
    rw [hobtained]
    exact hexact
  case fits => exact hinv.fits
  case fetched_le => exact hinv.fetched_le
  case wt_eq => exact hinv.wt_eq
  case rd_lt => exact fun h => nomatch h
  case call =>
    rintro _ ⟨⟩
    exact ⟨hinv'.index_lt, hinv'.rd_lt, hinv'.unread_pos⟩

theorem inv_ret {s : State} {c : Call} (hinv : Inv s) (hcall : s.call = some c)
    (hstage : c.stage ≠ .wrap) : Inv (ret s c c.index) := by
  have hobtained : c.obtained = c.buffer.take c.index := by simp [Call.obtained, hstage]
  constructor
  case exact =>
    have hexact := hinv.exact
    unfold Exact State.obtained at hexact ⊢
    rw [hcall] at hexact
    show s.returned ++ c.buffer.take c.index ++ [] ++ s.waiting = s.received
    rw [List.append_nil, ← hobtained]
    exact hexact
  case fits => exact hinv.fits
  case fetched_le => exact hinv.fetched_le
  case wt_eq => exact hinv.wt_eq
  case rd_lt => exact fun _ => (hinv.call c hcall).rd_lt hstage
  case call => exact fun c hc => nomatch hc

/-- The ring is empty when the indices are equal. -/
theorem Inv.unread_pos {s : State} (hinv : Inv s) (hrd : s.rx_rd < CONFIG_UART_RX_BUF_SIZE)
    (hne : s.rx_wt ≠ s.rx_rd) : 0 < s.unread := by
  apply Nat.pos_of_ne_zero
  intro hzero
  apply hne
  rw [hinv.wt_eq, hzero, Nat.add_zero, Nat.mod_eq_of_lt hrd]

/-- Fetching takes the oldest byte of the ring. -/
theorem inv_fetch {s : State} {c : Call} (hinv : Inv s) (hcall : s.call = some c)
    (hstage : c.stage = .fetch) : Inv (sci_read s c) := by
  obtain ⟨hindex, hrd, hpos⟩ := hinv.call c hcall
  have hindex := hindex (by simp [hstage])
  have hrd := hrd (by simp [hstage])
  have hpos := hpos hstage
  have hfits := hinv.fits
  have hle := hinv.fetched_le
  let byte := s.rx_buf s.rx_rd
  let c' : Call := { c with buffer := c.buffer.set c.index byte, stage := .wrap }
  have hs' : sci_read s c =
      { s with rx_rd := s.rx_rd + 1, fetched := s.fetched + 1, call := some c' } := by
    simp [sci_read, hstage, c', byte]
  have hunread : (sci_read s c).unread = s.unread - 1 := by
    rw [hs']
    show s.stored - (s.fetched + 1) = s.stored - s.fetched - 1
    omega
  have hstored : s.fetched + 1 ≤ s.stored := by
    unfold State.unread at hpos
    omega
  have hobtained : c'.obtained = c.obtained ++ [byte] := by
    simp [Call.obtained, hstage, c', take_succ_set c.buffer byte hindex]
  constructor
  case exact =>
    have hexact := hinv.exact
    unfold Exact State.obtained State.waiting at hexact ⊢
    -- the oldest byte of the ring moves over to what the call has obtained
    rw [hcall, Ring.contents_eq_cons hpos, Nat.mod_eq_of_lt hrd] at hexact
    rw [hunread, hs']
    show s.returned ++ c'.obtained ++ _ = s.received
    rw [hobtained, ← hexact]
    simp [byte]
  case fits =>
    unfold Fits at hfits ⊢
    omega
  case fetched_le =>
    rw [hs']
    exact hstored
  case wt_eq =>
    rw [hunread, hs']
    show s.rx_wt = (s.rx_rd + 1 + (s.unread - 1)) % _
    rw [hinv.wt_eq]
    congr 1
    omega
  case rd_lt =>
    rw [hs']
    exact fun h => nomatch h
  case call =>
    rw [hs']
    rintro _ ⟨⟩
    -- the read index may be one past the end until the wrap
    exact ⟨fun _ => by simpa [c'] using hindex, fun h => absurd rfl h, fun h => nomatch h⟩

/-- The read index wraps around. -/
theorem inv_wrap {s : State} {c : Call} (hinv : Inv s) (hcall : s.call = some c)
    (hstage : c.stage = .wrap) : Inv (sci_read s c) := by
  let c' : Call := { c with index := c.index + 1, stage := .loop }
  have hs' : sci_read s c =
      { s with rx_rd := s.rx_rd % CONFIG_UART_RX_BUF_SIZE, call := some c' } := by
    simp [sci_read, hstage, c']
  have hobtained : c'.obtained = c.obtained := by simp [Call.obtained, hstage, c']
  rw [hs']
  constructor
  case exact =>
    have hexact := hinv.exact
    unfold Exact State.obtained State.waiting at hexact ⊢
    rw [hcall] at hexact
    show s.returned ++ c'.obtained ++ (Ring.contents s.rx_buf _ (s.rx_rd % _) s.unread ++ s.fifo) =
      s.received
    -- the contents of the ring depend on the read index modulo the size only
    rw [hobtained, Ring.contents_mod]
    exact hexact
  case fits => exact hinv.fits
  case fetched_le => exact hinv.fetched_le
  case wt_eq =>
    show s.rx_wt = (s.rx_rd % _ + s.unread) % _
    rw [hinv.wt_eq, Nat.mod_add_mod]
  case rd_lt => exact fun h => nomatch h
  case call =>
    rintro _ ⟨⟩
    exact ⟨fun h => absurd rfl h, fun _ => Nat.mod_lt _ size_pos, fun h => nomatch h⟩

/-- The reader keeps the invariant, unless it gives up waiting for a single byte. -/
theorem inv_sci_read {s : State} {c : Call} (hinv : Inv s) (hcall : s.call = some c)
    (hgive : ∀ cnt > 100, c.stage = .asleep cnt → c.buffer.length ≠ 1) : Inv (sci_read s c) := by
  have hcinv := hinv.call c hcall
  cases hstage : c.stage with
  | loop =>
    have hrd := hcinv.rd_lt (by simp [hstage])
    by_cases hlt : c.index < c.buffer.length
    · simp only [sci_read, hstage, hlt, if_true]
      exact hinv.setCall hcall (by simp [Call.obtained, hstage])
        ⟨fun _ => hlt, fun _ => hrd, fun h => nomatch h⟩
    · simp only [sci_read, hstage, hlt, if_false]
      exact inv_ret hinv hcall (by simp [hstage])
  | check cnt =>
    have hindex := hcinv.index_lt (by simp [hstage])
    have hrd := hcinv.rd_lt (by simp [hstage])
    -- equal indices mean an empty ring, which has not overflowed
    by_cases heq : s.rx_wt = s.rx_rd
    · simp only [sci_read, hstage, if_pos heq]
      exact hinv.setCall hcall (by simp [Call.obtained, hstage])
        ⟨fun _ => hindex, fun _ => hrd, fun h => nomatch h⟩
    · simp only [sci_read, hstage, if_neg heq]
      exact hinv.setCall hcall (by simp [Call.obtained, hstage])
        ⟨fun _ => hindex, fun _ => hrd, fun _ => hinv.unread_pos hrd heq⟩
  | asleep cnt =>
    have hindex := hcinv.index_lt (by simp [hstage])
    have hrd := hcinv.rd_lt (by simp [hstage])
    -- after 100 ticks the call returns what it has
    by_cases hcnt : cnt > 100
    · have hlen := hgive cnt hcnt hstage
      simp only [sci_read, hstage, hcnt, hlen, if_true, if_false]
      exact inv_ret hinv hcall (by simp [hstage])
    · simp only [sci_read, hstage, hcnt, if_false]
      exact hinv.setCall hcall (by simp [Call.obtained, hstage])
        ⟨fun _ => hindex, fun _ => hrd, fun h => nomatch h⟩
  | fetch => exact inv_fetch hinv hcall hstage
  | wrap => exact inv_wrap hinv hcall hstage

/-! ### Runs -/

/-- One step keeps the invariant. -/
theorem inv_step (s : State) (a : Action) (s' : State) (hinv : Inv s) (hgive : NoGiveUp s a)
    (hfits : Fits s') (hstep : step s a = some s') : Inv s' := by
  cases a with
  | receive byte =>
    cases hstep
    have hexact := hinv.exact
    refine ⟨?_, hfits, hinv.fetched_le, hinv.wt_eq, hinv.rd_lt, fun c hc => ?_⟩
    · show s.obtained ++ (_ ++ (s.fifo ++ [byte])) = s.received ++ [byte]
      -- the line is the only step that adds to what was received
      rw [← hexact, State.waiting]
      simp only [List.append_assoc]
      rfl
    · exact ⟨(hinv.call c hc).index_lt, (hinv.call c hc).rd_lt, (hinv.call c hc).unread_pos⟩
  | interrupt =>
    simp only [step] at hstep
    split at hstep
    · cases hstep
      exact hinv.setIsr _
    · cases hstep
  | isr uiir dr => exact inv_sci_isr hinv hfits hstep
  | read buffer =>
    simp only [step] at hstep
    split at hstep
    next hidle =>
      cases hstep
      have hexact := hinv.exact
      refine ⟨?_, hfits, hinv.fetched_le, hinv.wt_eq, (fun h => nomatch h), ?_⟩
      · unfold Exact State.obtained at hexact ⊢
        rw [hidle.2] at hexact
        exact hexact
      · rintro _ ⟨⟩
        exact ⟨fun h => absurd rfl h, fun _ => hinv.rd_lt hidle.2, fun h => nomatch h⟩
    · cases hstep
  | task =>
    simp only [step] at hstep
    split at hstep
    next c hidle hcall =>
      cases hstep
      exact inv_sci_read hinv hcall fun cnt hcnt => hgive c hcall cnt hcnt hidle
    · cases hstep

/-- A single byte that the reader gave up on is counted all the same. -/
theorem not_exact_of_giveUp (s : State) (a : Action) (hinv : Inv s) (hgive : ¬ NoGiveUp s a) :
    ∃ s', step s a = some s' ∧ ¬ Exact s' := by
  cases a with
  | task =>
    simp only [NoGiveUp, not_forall, not_not] at hgive
    obtain ⟨c, hcall, cnt, hcnt, hidle, hstage, hlen⟩ := hgive
    have hcall : s.call = some c := hcall
    have hindex := (hinv.call c hcall).index_lt (by simp [hstage])
    refine ⟨sci_read s c, by simp [step, hidle, hcall], fun hexact' => ?_⟩
    have hlength := congrArg List.length hinv.exact
    have hlength' := congrArg List.length hexact'
    -- one byte more is obtained, none less waits, and none more was received
    simp [sci_read, hstage, hcnt, hlen, State.obtained, State.waiting, State.unread,
      Call.obtained, hcall] at hlength hlength'
    omega
  | _ => exact absurd trivial hgive

/-- While the ring does not overflow, the reader obtains what was received, and nothing else,
    exactly as long as no read of a single byte gives up. -/
theorem always_exact_iff (tr : List Action) (hfits : Always step Fits init tr) :
    Always step Exact init tr ↔ Meets step NoGiveUp init tr :=
  always_iff_meets_of_always step (fun _ hinv => hinv.exact) inv_step not_exact_of_giveUp inv_init
    hfits

/-- Two bytes arrive one after the other and are read. -/
def exampleRun : List Action :=
  [.receive 65, .interrupt, .isr 0xc4 true, .isr 0 true, .receive 66, .isr 0xcc true, .isr 0 true,
    .isr 0 true, .isr 0 true, .isr 0xc1 true, .read [0, 0]] ++ .replicate 9 .task

theorem exact_exampleRun :
    Always step Fits init exampleRun ∧
      (Always step Exact init exampleRun ↔ Meets step NoGiveUp init exampleRun) :=
  have hfits : Always step Fits init exampleRun := by decide
  ⟨hfits, always_exact_iff exampleRun hfits⟩

/-- A read of one byte on a silent line reports a byte. -/
def silentRun : List Action := .read [7] :: .replicate 205 .task

theorem exact_fails : ¬ ∀ tr, Always step Fits init tr → Always step Exact init tr := by
  intro h
  have hfits : Always step Fits init silentRun := by decide +kernel
  have hexact := h silentRun hfits
  revert hexact
  decide +kernel

end Hcrtos.Native.UartReceive
