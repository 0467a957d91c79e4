import Mathlib.Data.List.Nodup
import Hcrtos.Native.UartOpen

/-!
# The books of a UART

Opening and closing keep the count, the list and the memory in step, and an open that fails
changes nothing, with one exception: when the first open gets no receive buffer, it frees its
instance without taking it from the list.

## Key results

- `inv_open`, `inv_close`: the invariant through both calls
- `always_booked_iff`: the runs in which the books are right
- `booked_fails`: a run in which they are not
-/

namespace Hcrtos.Native.UartOpen

open Lts

/-- The open files have instances of their own, and these are on the list once. -/
structure Inv (s : State) : Prop where
  booked : Booked s
  null : s.heap 0 = none
  nodup : s.instance_list.Nodup
  linked : ∀ filep ins, s.f_priv filep = some ins → ins ∈ s.instance_list
  owner : ∀ filep filep' ins, s.f_priv filep = some ins → s.f_priv filep' = some ins →
    filep = filep'

theorem inv_init : Inv init where
  booked := ⟨rfl, (fun _ h => nomatch h), by simp [init]⟩
  null := rfl
  nodup := List.nodup_nil
  linked _ _ h := nomatch h
  owner _ _ _ h := nomatch h

/-! ### The heap -/

theorem malloc_self {heap : Nat → Option Block} {p : Nat} {b : Block} (hp : p ≠ 0) :
    malloc heap p b p = some b := by
  simp [malloc, hp]

theorem malloc_of_ne {heap : Nat → Option Block} {p q : Nat} {b : Block} (hq : q ≠ p) :
    malloc heap p b q = heap q := by
  unfold malloc
  split
  · rfl
  · exact Function.update_of_ne hq _ _

theorem malloc_zero {heap : Nat → Option Block} {p : Nat} {b : Block} (h : heap 0 = none) :
    malloc heap p b 0 = none := by
  by_cases hp : p = 0
  · simp [malloc, hp, h]
  · rw [malloc_of_ne (Ne.symm hp), h]

@[simp] theorem free_self (heap : Nat → Option Block) (p : Nat) : free heap p p = none :=
  Function.update_self ..

theorem free_of_ne {heap : Nat → Option Block} {p q : Nat} (hq : q ≠ p) :
    free heap p q = heap q :=
  Function.update_of_ne hq _ _

/-- Whatever is allocated after a block was freed was so before. -/
theorem free_eq_some {heap : Nat → Option Block} {p q : Nat} {b : Block}
    (h : free heap p q = some b) : q ≠ p ∧ heap q = some b := by
  by_cases hq : q = p
  · rw [hq, free_self] at h
    cases h
  · exact ⟨hq, by rwa [free_of_ne hq] at h⟩

/-! ### Opening -/

/-- An open that does not get its instance changes nothing. -/
theorem sci_open_null (s : State) (filep rx_buf : Nat) :
    sci_open s filep 0 rx_buf = (s, -ENOMEM) := rfl

/-- The state after an open that has got all it needs, with the heap `heap` and the receive
    buffer `rx_buf`. -/
def State.link (s : State) (filep ins rx_buf : Nat) (heap : Nat → Option Block) : State :=
  { s with
    refcnt := s.refcnt + 1
    rx_buf := rx_buf
    instance_list := s.instance_list ++ [ins]
    heap := heap
    f_priv := Function.update s.f_priv filep (some ins) }

theorem sci_open_first {s : State} {filep ins rx_buf : Nat} (hcnt : s.refcnt = 0)
    (hins : ins ≠ 0) (hbuf : rx_buf ≠ 0) :
    sci_open s filep ins rx_buf =
      (s.link filep ins rx_buf (malloc (malloc s.heap ins .sciDevice) rx_buf .rxBuf), 0) := by
  simp [sci_open, hcnt, hins, hbuf, State.link]

theorem sci_open_next {s : State} {filep ins rx_buf : Nat} (hcnt : s.refcnt ≠ 0)
    (hins : ins ≠ 0) :
    sci_open s filep ins rx_buf =
      (s.link filep ins s.rx_buf (malloc s.heap ins .sciDevice), 0) := by
  simp [sci_open, hcnt, hins, State.link]

/-- A linked instance keeps the invariant if the heap is right afterwards. -/
theorem inv_link {s : State} {filep ins rx_buf : Nat} {heap : Nat → Option Block}
    (hinv : Inv s) (hfresh : s.heap ins = none) (hnull : heap 0 = none)
    (hself : heap ins = some .sciDevice)
    (hold : ∀ p, s.heap p = some .sciDevice → heap p = some .sciDevice)
    (hbuf : heap rx_buf = some .rxBuf) : Inv (s.link filep ins rx_buf heap) := by
  obtain ⟨⟨hcnt, hlive, -⟩, -, hnodup, hlinked, howner⟩ := hinv
  -- the new instance cannot be a linked one, which is allocated
  have hnew : ins ∉ s.instance_list := by
    intro hmem
    rw [hlive ins hmem] at hfresh
    cases hfresh
  constructor
  case booked =>
    constructor
    · simp [State.link, hcnt]
    · intro p hp
      simp only [State.link, List.mem_append, List.mem_singleton] at hp
      cases hp with
      | inl hp => exact hold p (hlive p hp)
      | inr hp => rw [hp]; exact hself
    · have : 0 < s.refcnt + 1 := by omega
      simp [State.link, hbuf, this]
  case null => exact hnull
  case nodup =>
    simp [State.link, List.nodup_append, hnodup]
    exact fun p hp heq => hnew (heq ▸ hp)
  case linked =>
    intro f p hp
    simp only [State.link, Function.update_apply] at hp
    simp only [State.link, List.mem_append, List.mem_singleton]
    split at hp
    · exact Or.inr (Option.some.inj hp).symm
    · exact Or.inl (hlinked f p hp)
  case owner =>
    intro f f' p hf hf'
    simp only [State.link, Function.update_apply] at hf hf'
    split at hf <;> split at hf'
    · simp_all
    · cases hf
      -- a file that was open before has a linked instance, so not the new one
      exact absurd (hlinked f' ins hf') hnew
    · cases hf'
      exact absurd (hlinked f ins hf) hnew
    · exact howner f f' p hf hf'

/-- An open keeps the invariant, if it gets the buffer that it asks for. -/
theorem inv_open {s : State} {filep ins rx_buf : Nat} (hinv : Inv s)
    (hfresh : s.Fresh ins rx_buf) (hbuf : s.refcnt = 0 → ins ≠ 0 → rx_buf ≠ 0) :
    Inv (sci_open s filep ins rx_buf).1 := by
  -- without an instance nothing happens; the first instance also brings the buffer
  obtain ⟨hins, hrx, hdiff⟩ := hfresh
  by_cases hzero : ins = 0
  · rw [hzero, sci_open_null]
    exact hinv
  by_cases hcnt : s.refcnt = 0
  · have hrx0 := hbuf hcnt hzero
    have hne : ins ≠ rx_buf := fun h => hzero (hdiff h)
    rw [sci_open_first hcnt hzero hrx0]
    apply inv_link hinv hins
    · exact malloc_zero (malloc_zero hinv.null)
    · rw [malloc_of_ne hne, malloc_self hzero]
    · intro p hp
      have hpi : p ≠ ins := fun h => by rw [h, hins] at hp; cases hp
      have hpr : p ≠ rx_buf := fun h => by rw [h, hrx] at hp; cases hp
      rw [malloc_of_ne hpr, malloc_of_ne hpi, hp]
    · exact malloc_self hrx0
  · -- the buffer is there already, as the count is positive
    have hpos : 0 < s.refcnt := by
      have := hinv.booked.refcnt_eq
      omega
    have hrxBuf := hinv.booked.rx_buf_iff.mpr hpos
    rw [sci_open_next hcnt hzero]
    apply inv_link hinv hins
    · exact malloc_zero hinv.null
    · exact malloc_self hzero
    · intro p hp
      have hpi : p ≠ ins := fun h => by rw [h, hins] at hp; cases hp
      rw [malloc_of_ne hpi, hp]
    · have hpi : s.rx_buf ≠ ins := fun h => by rw [h, hins] at hrxBuf; cases hrxBuf
      rw [malloc_of_ne hpi, hrxBuf]

/-! ### Closing -/

theorem sci_close_eq (s : State) (filep ins : Nat) :
    sci_close s filep ins =
      { refcnt := s.refcnt - 1
        rx_buf := s.rx_buf
        instance_list := s.instance_list.erase ins
        heap := free (if s.refcnt - 1 = 0 then free s.heap s.rx_buf else s.heap) ins
        f_priv := Function.update s.f_priv filep none } := by
  by_cases hcnt : s.refcnt - 1 = 0 <;> simp [sci_close, hcnt]

/-- Closing a file frees its instance, and the buffer with the last one. -/
theorem inv_close {s : State} {filep ins : Nat} (hinv : Inv s)
    (hfile : s.f_priv filep = some ins) : Inv (sci_close s filep ins) := by
  obtain ⟨⟨hcnt, hlive, hbuf⟩, hnull, hnodup, hlinked, howner⟩ := hinv
  have hmem := hlinked filep ins hfile
  have hlen : 0 < s.instance_list.length := List.length_pos_of_mem hmem
  have hpos : s.heap s.rx_buf = some .rxBuf := hbuf.mpr (by omega)
  rw [sci_close_eq]
  constructor
  case booked =>
    constructor
    · dsimp only
      rw [List.length_erase_of_mem hmem, hcnt]
      omega
    · intro p hp
      rw [hnodup.mem_erase_iff] at hp
      have hp' := hlive p hp.2
      have hpr : p ≠ s.rx_buf := fun h => by rw [h, hpos] at hp'; cases hp'
      dsimp only
      rw [free_of_ne hp.1]
      split
      · rw [free_of_ne hpr, hp']
      · exact hp'
    -- the buffer is not the instance: the two blocks were allocated for different things
    · have hne : s.rx_buf ≠ ins := fun h => by rw [h, hlive ins hmem] at hpos; cases hpos
      dsimp only
      rw [free_of_ne hne]
      split
      · simp; omega
      · simp only [hpos, true_iff]; omega
  case null =>
    -- freeing allocates nothing, so address 0 stays free
    by_contra hsome
    obtain ⟨b, hb⟩ := Option.ne_none_iff_exists'.mp hsome
    obtain ⟨-, hb⟩ := free_eq_some hb
    split at hb
    · rw [(free_eq_some hb).2] at hnull
      cases hnull
    · rw [hb] at hnull
      cases hnull
  case nodup =>
    exact hnodup.erase ins
  case linked =>
    intro f p hp
    dsimp only at hp ⊢
    rw [Function.update_apply] at hp
    rw [hnodup.mem_erase_iff]
    split at hp
    · cases hp
    · next hf =>
      -- the other files have other instances, and these stay on the list
      have hne : p ≠ ins := fun h => hf (howner f filep ins (h ▸ hp) hfile)
      exact ⟨hne, hlinked f p hp⟩
  case owner =>
    intro f f' p hf hf'
    dsimp only at hf hf'
    rw [Function.update_apply] at hf hf'
    split at hf
    · cases hf
    · split at hf'
      · cases hf'
      · exact howner f f' p hf hf'

/-! ### Runs -/

theorem inv_step (s : State) (a : Action) (s' : State) (hinv : Inv s) (hgets : GetsBuffer s a)
    (hstep : step s a = some s') : Inv s' := by
  cases a with
  | «open» filep ins rx_buf =>
    simp only [step] at hstep
    split at hstep
    next henabled =>
      cases hstep
      exact inv_open hinv henabled.2 (hgets henabled.1 henabled.2)
    · cases hstep
  | close filep =>
    simp only [step, Option.map_eq_some_iff] at hstep
    obtain ⟨ins, hfile, rfl⟩ := hstep
    exact inv_close hinv hfile

/-- The first open that gets no buffer leaves its instance on the list uncounted. -/
theorem not_booked_of_noBuffer (s : State) (a : Action) (_hinv : Inv s)
    (hgets : ¬ GetsBuffer s a) : ∃ s', step s a = some s' ∧ ¬ Booked s' := by
  cases a with
  | «open» filep ins rx_buf =>
    simp only [GetsBuffer, not_forall, not_not] at hgets
    obtain ⟨hfile, hfresh, hcnt, hins, hbuf⟩ := hgets
    -- the error path frees the instance and leaves it on the list, so the count is one short
    refine ⟨(sci_open s filep ins rx_buf).1, if_pos ⟨hfile, hfresh⟩, fun hbooked => ?_⟩
    have hlen := hbooked.refcnt_eq
    simp [sci_open, hcnt, hins, hbuf] at hlen
    omega
  | close filep => exact absurd trivial hgets

/-- An open that gets its buffer changes nothing if it fails. -/
theorem failureAtomic_of_getsBuffer (s : State) (a : Action) (hgets : GetsBuffer s a) :
    FailureAtomic s a := by
  cases a with
  | «open» filep ins rx_buf =>
    intro hfile hfresh hfail
    by_cases hzero : ins = 0
    · rw [hzero, sci_open_null]
    by_cases hcnt : s.refcnt = 0
    · rw [sci_open_first hcnt hzero (hgets hfile hfresh hcnt hzero)] at hfail
      exact absurd hfail (Int.lt_irrefl 0)
    · rw [sci_open_next hcnt hzero] at hfail
      exact absurd hfail (Int.lt_irrefl 0)
  | close filep => trivial

/-- The books are right in every state, and every failing open leaves them alone, exactly if no
    open gets its instance but not the receive buffer. -/
theorem always_booked_iff (tr : List Action) :
    Always step Booked init tr ∧ Meets step FailureAtomic init tr ↔
      Meets step GetsBuffer init tr := by
  have hiff : Always step Booked init tr ↔ Meets step GetsBuffer init tr :=
    always_iff_meets step (fun _ hinv => hinv.booked) inv_step not_booked_of_noBuffer inv_init
  constructor
  · exact fun h => hiff.mp h.1
  · exact fun h => ⟨hiff.mpr h, h.mono step failureAtomic_of_getsBuffer⟩

/-- The first open gets its instance, but no buffer. -/
theorem booked_fails : ¬ ∀ tr : List Action,
    Always step Booked init tr ∧ Meets step FailureAtomic init tr := by
  intro h
  have hbooked := ((h [.open 1 0x1000 0]).1.2 _ rfl : Booked _).refcnt_eq
  revert hbooked
  decide

end Hcrtos.Native.UartOpen
