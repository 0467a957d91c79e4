import Hcrtos.Native.FileuartIsr
import Hcrtos.Spec.FileuartRing

/-!
# The log ring under interrupt writes

Between two loads or stores of the semaphore's holder, the ring may be torn. `settle` finishes
what the holder has begun, without any interrupt; the invariant says that the settled ring is
the one of a queue that drops its oldest bytes. An interrupt write keeps the invariant when it
commutes with `settle`, and `Harmless` says at which positions it does.

## Key results

- `settle_enqueue`: a harmless interrupt write commutes with finishing the interrupted part
- `inv_interrupt`, `inv_task`: what one step preserves
- `sound_of_undisturbed`: the ring is sound after every undisturbed run
- `lostByte`: an interrupt write between `write` and the update of `tx_rd` loses a byte
-/

namespace Hcrtos.Native.FileuartIsr

open Fileuart Word

/-! ### Enqueueing several bytes -/

/-- Enqueue bytes that are already expanded. -/
def enqueueAll (g : FileuartDev) (bs : List UInt8) : FileuartDev :=
  bs.foldl fileuart_enqueue_byte g

theorem fileuart_enqueue_eq (g : FileuartDev) (buf : List UInt8) :
    fileuart_enqueue g buf = enqueueAll g (expand buf) := by
  induction buf generalizing g with
  | nil => rfl
  | cons ch buf ih =>
    by_cases hch : ch = 10
    · have := ih (fileuart_enqueue_byte (fileuart_enqueue_byte g 13) ch)
      simpa [fileuart_enqueue, enqueueAll, expand_cons, hch] using this
    · have := ih (fileuart_enqueue_byte g ch)
      simpa [fileuart_enqueue, enqueueAll, expand_cons, hch] using this

@[simp] theorem enqueueAll_nil (g : FileuartDev) : enqueueAll g [] = g := rfl

@[simp] theorem enqueueAll_cons (g : FileuartDev) (b : UInt8) (bs : List UInt8) :
    enqueueAll g (b :: bs) = enqueueAll (fileuart_enqueue_byte g b) bs := rfl

/-- Enqueueing touches nothing but the ring. -/
theorem fileuart_enqueue_byte_frame (g : FileuartDev) (ch : UInt8) :
    fileuart_enqueue_byte g ch =
      { g with
        tx_buf := Function.update g.tx_buf g.tx_wt ch
        tx_wt := (g.tx_wt + 1) % CONFIG_FILEUART_TX_BUF_SIZE
        tx_rd := (fileuart_enqueue_byte g ch).tx_rd
        tx_count := (fileuart_enqueue_byte g ch).tx_count } := by
  unfold fileuart_enqueue_byte
  dsimp only
  split <;> rfl

/-- A ring with room for a byte counts it. -/
theorem enqueue_byte_of_lt {g : FileuartDev} (h : g.tx_count < CONFIG_FILEUART_TX_BUF_SIZE)
    (ch : UInt8) :
    fileuart_enqueue_byte g ch =
      { g with
        tx_buf := Function.update g.tx_buf g.tx_wt ch
        tx_wt := (g.tx_wt + 1) % CONFIG_FILEUART_TX_BUF_SIZE
        tx_count := g.tx_count + 1 } := by
  simp [fileuart_enqueue_byte, h]

/-- A full ring moves its read index. -/
theorem enqueue_byte_of_ge {g : FileuartDev} (h : ¬ g.tx_count < CONFIG_FILEUART_TX_BUF_SIZE)
    (ch : UInt8) :
    fileuart_enqueue_byte g ch =
      { g with
        tx_buf := Function.update g.tx_buf g.tx_wt ch
        tx_wt := (g.tx_wt + 1) % CONFIG_FILEUART_TX_BUF_SIZE
        tx_rd := (g.tx_rd + 1) % CONFIG_FILEUART_TX_BUF_SIZE } := by
  simp [fileuart_enqueue_byte, h]

theorem enqueue_byte_wt (g : FileuartDev) (ch : UInt8) :
    (fileuart_enqueue_byte g ch).tx_wt = (g.tx_wt + 1) % CONFIG_FILEUART_TX_BUF_SIZE := by
  rw [fileuart_enqueue_byte_frame]

theorem enqueue_byte_count (g : FileuartDev) (ch : UInt8) :
    (fileuart_enqueue_byte g ch).tx_count =
      if g.tx_count < CONFIG_FILEUART_TX_BUF_SIZE then g.tx_count + 1 else g.tx_count := by
  unfold fileuart_enqueue_byte
  dsimp only
  split <;> rfl

theorem enqueueAll_wt (g : FileuartDev) (bs : List UInt8)
    (hwt : g.tx_wt < CONFIG_FILEUART_TX_BUF_SIZE) :
    (enqueueAll g bs).tx_wt = (g.tx_wt + bs.length) % CONFIG_FILEUART_TX_BUF_SIZE := by
  induction bs generalizing g with
  | nil => exact (Nat.mod_eq_of_lt hwt).symm
  | cons b bs ih =>
    have hstep := enqueue_byte_wt g b
    have hlt : (fileuart_enqueue_byte g b).tx_wt < CONFIG_FILEUART_TX_BUF_SIZE := by
      rw [hstep]
      exact Nat.mod_lt _ size_pos
    rw [enqueueAll_cons, ih _ hlt, hstep, Nat.mod_add_mod, List.length_cons]
    congr 1
    omega

theorem enqueueAll_count (g : FileuartDev) (bs : List UInt8)
    (hcount : g.tx_count ≤ CONFIG_FILEUART_TX_BUF_SIZE) :
    (enqueueAll g bs).tx_count =
      min CONFIG_FILEUART_TX_BUF_SIZE (g.tx_count + bs.length) := by
  induction bs generalizing g with
  | nil => exact (Nat.min_eq_right hcount).symm
  | cons b bs ih =>
    have hstep := enqueue_byte_count g b
    have hle : (fileuart_enqueue_byte g b).tx_count ≤ CONFIG_FILEUART_TX_BUF_SIZE := by
      rw [hstep]
      split <;> omega
    rw [enqueueAll_cons, ih _ hle, hstep, List.length_cons]
    split <;> omega

/-- Bytes that fit do not move the read index. -/
theorem enqueueAll_rd_of_fits (g : FileuartDev) (bs : List UInt8)
    (hfits : g.tx_count + bs.length ≤ CONFIG_FILEUART_TX_BUF_SIZE) :
    (enqueueAll g bs).tx_rd = g.tx_rd := by
  induction bs generalizing g with
  | nil => rfl
  | cons b bs ih =>
    rw [List.length_cons] at hfits
    have hlt : g.tx_count < CONFIG_FILEUART_TX_BUF_SIZE := by omega
    rw [enqueueAll_cons, enqueue_byte_of_lt hlt]
    apply ih
    show g.tx_count + 1 + bs.length ≤ _
    omega

/-- A full ring moves its read index once for each byte. -/
theorem enqueueAll_rd_of_full (g : FileuartDev) (bs : List UInt8)
    (hfull : g.tx_count = CONFIG_FILEUART_TX_BUF_SIZE) :
    (enqueueAll g bs).tx_rd % CONFIG_FILEUART_TX_BUF_SIZE =
      (g.tx_rd + bs.length) % CONFIG_FILEUART_TX_BUF_SIZE := by
  induction bs generalizing g with
  | nil => rfl
  | cons b bs ih =>
    have hge : ¬ g.tx_count < CONFIG_FILEUART_TX_BUF_SIZE := by omega
    have hnext := enqueue_byte_of_ge hge b
    have hfull' : (fileuart_enqueue_byte g b).tx_count = CONFIG_FILEUART_TX_BUF_SIZE := by
      rw [hnext]
      exact hfull
    have hrd : (fileuart_enqueue_byte g b).tx_rd =
        (g.tx_rd + 1) % CONFIG_FILEUART_TX_BUF_SIZE := by rw [hnext]
    rw [enqueueAll_cons, ih _ hfull', hrd, Nat.mod_add_mod, List.length_cons]
    congr 1
    omega

theorem refines_enqueueAll {g : FileuartDev}
    {h : LossyFifo UInt8 CONFIG_FILEUART_TX_BUF_SIZE} (hr : Refines g h) (bs : List UInt8) :
    Refines (enqueueAll g bs) (h.pushAll bs) := by
  induction bs generalizing g h with
  | nil => exact hr
  | cons b bs ih => exact ih (refines_enqueue_byte hr b)

/-! ### Finishing what the holder has begun -/

/-- Stores to the fields of the ring. -/
def setBuf (g : FileuartDev) (w : Nat) (ch : UInt8) : FileuartDev :=
  { g with tx_buf := Function.update g.tx_buf w ch }
def setWt (g : FileuartDev) (w : Nat) : FileuartDev := { g with tx_wt := w }
def setRd (g : FileuartDev) (r : Nat) : FileuartDev := { g with tx_rd := r }
def setCount (g : FileuartDev) (c : Nat) : FileuartDev := { g with tx_count := c }

/-- The second half of `fileuart_enqueue_byte`. -/
def countUp (g : FileuartDev) : FileuartDev :=
  if g.tx_count < CONFIG_FILEUART_TX_BUF_SIZE then setCount g (g.tx_count + 1)
  else setRd g ((g.tx_rd + 1) % CONFIG_FILEUART_TX_BUF_SIZE)

/-- The device after the holder has finished the current byte, or the update of the indices
    after `write`, without an interrupt. -/
def settle (g : FileuartDev) : Pc → FileuartDev
  | .storeBuf w ch _ =>
    countUp (setBuf (setWt g (g.tx_wt % CONFIG_FILEUART_TX_BUF_SIZE)) w ch)
  | .loadWtMod _ => countUp (setWt g (g.tx_wt % CONFIG_FILEUART_TX_BUF_SIZE))
  | .storeWtMod w _ => countUp (setWt g (w % CONFIG_FILEUART_TX_BUF_SIZE))
  | .testCount _ => countUp g
  | .loadCount _ => setCount g (g.tx_count + 1)
  | .storeCount c _ => setCount g (c + 1)
  | .loadRd _ => setRd g ((g.tx_rd + 1) % CONFIG_FILEUART_TX_BUF_SIZE)
  | .storeRd r _ => setRd g ((r + 1) % CONFIG_FILEUART_TX_BUF_SIZE)
  | .loadRdMod _ => setRd g (g.tx_rd % CONFIG_FILEUART_TX_BUF_SIZE)
  | .storeRdMod r _ => setRd g (r % CONFIG_FILEUART_TX_BUF_SIZE)
  | .advanceLoadRd written _ =>
    setCount (setRd g ((g.tx_rd + written) % CONFIG_FILEUART_TX_BUF_SIZE))
      (g.tx_count - written)
  | .advanceStoreRd r written _ =>
    setCount (setRd g ((r + written) % CONFIG_FILEUART_TX_BUF_SIZE)) (g.tx_count - written)
  | .advanceLoadCount written _ => setCount g (g.tx_count - written)
  | .advanceStoreCount c written _ => setCount g (c - written)
  | _ => g

/-- What the holder knows about the values it has loaded. -/
def Loaded (g : FileuartDev) : Pc → Prop
  | .storeWt w _ _ => w = g.tx_wt ∧ g.tx_wt < CONFIG_FILEUART_TX_BUF_SIZE
  | .storeWtMod w _ => w = g.tx_wt
  | .loadCount _ => g.tx_count < CONFIG_FILEUART_TX_BUF_SIZE
  | .storeCount c _ => g.tx_count < CONFIG_FILEUART_TX_BUF_SIZE ∧ c = g.tx_count
  | .loadRd _ => g.tx_count = CONFIG_FILEUART_TX_BUF_SIZE
  | .storeRd r _ => g.tx_count = CONFIG_FILEUART_TX_BUF_SIZE ∧
      r % CONFIG_FILEUART_TX_BUF_SIZE = g.tx_rd % CONFIG_FILEUART_TX_BUF_SIZE
  | .loadRdMod _ => g.tx_count = CONFIG_FILEUART_TX_BUF_SIZE
  | .storeRdMod r _ => g.tx_count = CONFIG_FILEUART_TX_BUF_SIZE ∧
      r % CONFIG_FILEUART_TX_BUF_SIZE = g.tx_rd % CONFIG_FILEUART_TX_BUF_SIZE
  | .advanceLoadRd written _ => written ≤ g.tx_count
  | .advanceStoreRd r written _ => written ≤ g.tx_count ∧ r = g.tx_rd
  | .advanceLoadCount written _ => written ≤ g.tx_count
  | .advanceStoreCount c written _ => written ≤ g.tx_count ∧ c = g.tx_count
  | _ => True

/-- The positions at which an interrupt write of `k` bytes does not disturb the holder:

    - between a load of `tx_wt` or `tx_rd` and the store of the new value, it must leave the
      field as it was;
    - before the store to `tx_buf`, it must not reach that cell, and before the `%=` it must
      not find `tx_wt` behind the array;
    - after the test that `tx_count` is below the size, it must not fill the ring, and between
      the load and the store of `tx_count` it must be empty;
    - after a successful `write`, it must not overflow the ring. -/
def Harmless (g : FileuartDev) (k : Nat) : Pc → Prop
  | .storeWt _ _ _ => k % CONFIG_FILEUART_TX_BUF_SIZE = 0
  | .storeBuf w _ _ => k = 0 ∨ (g.tx_wt < CONFIG_FILEUART_TX_BUF_SIZE ∧
      ∀ j < k, (g.tx_wt + j) % CONFIG_FILEUART_TX_BUF_SIZE ≠ w)
  | .loadWtMod _ => k = 0 ∨ g.tx_wt < CONFIG_FILEUART_TX_BUF_SIZE
  | .storeWtMod _ _ => k = 0 ∨ (g.tx_wt < CONFIG_FILEUART_TX_BUF_SIZE ∧
      k % CONFIG_FILEUART_TX_BUF_SIZE = 0)
  | .loadCount _ => g.tx_count + k < CONFIG_FILEUART_TX_BUF_SIZE
  | .storeCount _ _ => k = 0
  | .storeRd _ _ | .storeRdMod _ _ => k % CONFIG_FILEUART_TX_BUF_SIZE = 0
  | .advanceLoadRd _ _ | .advanceStoreRd _ _ _ | .advanceLoadCount _ _ =>
    g.tx_count + k ≤ CONFIG_FILEUART_TX_BUF_SIZE
  | .advanceStoreCount _ _ _ => k = 0
  | _ => True

/-! ### Interrupt writes commute with finishing -/

theorem countUp_of_lt {g : FileuartDev} (h : g.tx_count < CONFIG_FILEUART_TX_BUF_SIZE) :
    countUp g = setCount g (g.tx_count + 1) := if_pos h

theorem countUp_of_full {g : FileuartDev} (h : g.tx_count = CONFIG_FILEUART_TX_BUF_SIZE) :
    countUp g = setRd g ((g.tx_rd + 1) % CONFIG_FILEUART_TX_BUF_SIZE) :=
  if_neg (by omega)

/-- What commutes with one byte commutes with several ones. -/
theorem enqueueAll_comm {f : FileuartDev → FileuartDev} {P : FileuartDev → List UInt8 → Prop}
    (hstep : ∀ g b bs, P g (b :: bs) →
      f (fileuart_enqueue_byte g b) = fileuart_enqueue_byte (f g) b ∧
      P (fileuart_enqueue_byte g b) bs)
    {g : FileuartDev} {bs : List UInt8} (h : P g bs) :
    f (enqueueAll g bs) = enqueueAll (f g) bs := by
  induction bs generalizing g with
  | nil => rfl
  | cons b bs ih =>
    obtain ⟨hcomm, hnext⟩ := hstep g b bs h
    rw [enqueueAll_cons, enqueueAll_cons, ih hnext, hcomm]

/-- Counting a byte early or late makes no difference, full or not. -/
theorem countUp_enqueueAll (g : FileuartDev) (bs : List UInt8) :
    countUp (enqueueAll g bs) = enqueueAll (countUp g) bs := by
  apply enqueueAll_comm (P := fun _ _ => True)
  · intro g b bs _
    refine ⟨?_, trivial⟩
    by_cases hlt : g.tx_count < CONFIG_FILEUART_TX_BUF_SIZE
    · by_cases hlt' : g.tx_count + 1 < CONFIG_FILEUART_TX_BUF_SIZE
      · simp [fileuart_enqueue_byte, countUp, setCount, hlt, hlt']
      · -- one of the two bytes fills the ring, and the other one overflows it
        simp [fileuart_enqueue_byte, countUp, setCount, setRd, hlt, hlt']
    · simp [fileuart_enqueue_byte, countUp, setRd, hlt]
  · trivial

/-- A store to a cell that the bytes do not reach. -/
theorem setBuf_enqueueAll {g : FileuartDev} {bs : List UInt8} {w : Nat} (ch : UInt8)
    (hwt : g.tx_wt < CONFIG_FILEUART_TX_BUF_SIZE)
    (hw : ∀ j < bs.length, (g.tx_wt + j) % CONFIG_FILEUART_TX_BUF_SIZE ≠ w) :
    setBuf (enqueueAll g bs) w ch = enqueueAll (setBuf g w ch) bs := by
  apply enqueueAll_comm (f := fun g => setBuf g w ch) (P := fun g bs =>
    g.tx_wt < CONFIG_FILEUART_TX_BUF_SIZE ∧
      ∀ j < bs.length, (g.tx_wt + j) % CONFIG_FILEUART_TX_BUF_SIZE ≠ w)
  · rintro g b bs ⟨hwt, hw⟩
    have hstep := enqueue_byte_wt g b
    have hne : g.tx_wt ≠ w := by
      have := hw 0 (by simp)
      rwa [Nat.add_zero, Nat.mod_eq_of_lt hwt] at this
    refine ⟨?_, ?_, ?_⟩
    · have hcomm := Function.update_comm hne b ch g.tx_buf
      by_cases hlt : g.tx_count < CONFIG_FILEUART_TX_BUF_SIZE
      · simp [fileuart_enqueue_byte, setBuf, hlt, hcomm]
      · simp [fileuart_enqueue_byte, setBuf, hlt, hcomm]
    · rw [hstep]
      exact Nat.mod_lt _ size_pos
    · intro j hj
      have := hw (j + 1) (by rw [List.length_cons]; omega)
      rwa [hstep, Nat.mod_add_mod, Nat.add_assoc, Nat.add_comm 1 j]
  · exact ⟨hwt, hw⟩

/-- The bytes fit and at least `written` bytes are counted. -/
def Fits (written : Nat) (g : FileuartDev) (bs : List UInt8) : Prop :=
  written ≤ g.tx_count ∧ g.tx_count + bs.length ≤ CONFIG_FILEUART_TX_BUF_SIZE

theorem Fits.next {written : Nat} {g : FileuartDev} {b : UInt8} {bs : List UInt8}
    (h : Fits written g (b :: bs)) : Fits written (fileuart_enqueue_byte g b) bs := by
  obtain ⟨hle, hfits⟩ := h
  rw [List.length_cons] at hfits
  have hlt : g.tx_count < CONFIG_FILEUART_TX_BUF_SIZE := by omega
  have hcount := enqueue_byte_count g b
  rw [if_pos hlt] at hcount
  constructor <;> rw [hcount] <;> omega

/-- Bytes that fit do not look at the read index. -/
theorem setRd_enqueueAll {g : FileuartDev} {bs : List UInt8} {written : Nat} (r : Nat)
    (h : Fits written g bs) : setRd (enqueueAll g bs) r = enqueueAll (setRd g r) bs := by
  apply enqueueAll_comm (f := fun g => setRd g r) (P := Fits written) _ h
  intro g b bs hfits
  refine ⟨?_, hfits.next⟩
  have hlen := hfits.2
  rw [List.length_cons] at hlen
  have hlt : g.tx_count < CONFIG_FILEUART_TX_BUF_SIZE := by omega
  simp [fileuart_enqueue_byte, setRd, hlt]

/-- Bytes that fit do not mind that fewer bytes are counted. -/
theorem takeCount_enqueueAll {g : FileuartDev} {bs : List UInt8} {written : Nat}
    (h : Fits written g bs) :
    setCount (enqueueAll g bs) ((enqueueAll g bs).tx_count - written) =
      enqueueAll (setCount g (g.tx_count - written)) bs := by
  apply enqueueAll_comm (f := fun g => setCount g (g.tx_count - written)) (P := Fits written) _ h
  intro g b bs hfits
  refine ⟨?_, hfits.next⟩
  obtain ⟨hle, hlen⟩ := hfits
  rw [List.length_cons] at hlen
  have hlt : g.tx_count < CONFIG_FILEUART_TX_BUF_SIZE := by omega
  have hlt' : g.tx_count - written < CONFIG_FILEUART_TX_BUF_SIZE := by omega
  have hcount : g.tx_count + 1 - written = g.tx_count - written + 1 := by omega
  simp [fileuart_enqueue_byte, setCount, hlt, hlt', hcount]

/-- Both at once: finishing the update of the indices after `write`. -/
theorem advance_enqueueAll {g : FileuartDev} {bs : List UInt8} {written : Nat} (r : Nat)
    (h : Fits written g bs) :
    setCount (setRd (enqueueAll g bs) r) ((enqueueAll g bs).tx_count - written) =
      enqueueAll (setCount (setRd g r) (g.tx_count - written)) bs := by
  have h' : Fits written (setRd g r) bs := h
  have hcomm := takeCount_enqueueAll h'
  rw [← setRd_enqueueAll r h] at hcomm
  exact hcomm

/-- A full ring reduces its read index anyway. -/
theorem modRd_enqueueAll {g : FileuartDev} (bs : List UInt8)
    (hfull : g.tx_count = CONFIG_FILEUART_TX_BUF_SIZE) :
    setRd (enqueueAll g bs) ((enqueueAll g bs).tx_rd % CONFIG_FILEUART_TX_BUF_SIZE) =
      enqueueAll (setRd g (g.tx_rd % CONFIG_FILEUART_TX_BUF_SIZE)) bs := by
  apply enqueueAll_comm (f := fun g => setRd g (g.tx_rd % CONFIG_FILEUART_TX_BUF_SIZE))
    (P := fun g _ => g.tx_count = CONFIG_FILEUART_TX_BUF_SIZE) _ hfull
  intro g b bs hfull
  have hge : ¬ g.tx_count < CONFIG_FILEUART_TX_BUF_SIZE := by omega
  constructor
  · simp [fileuart_enqueue_byte, setRd, hge]
  · rw [enqueue_byte_count, if_neg hge]
    exact hfull

@[simp] theorem setWt_self (g : FileuartDev) : setWt g g.tx_wt = g := rfl

/-- Bytes that go once around the ring, or several times, leave `tx_wt` as it was. -/
theorem enqueueAll_wt_of_revolution {g : FileuartDev} {bs : List UInt8}
    (hwt : g.tx_wt < CONFIG_FILEUART_TX_BUF_SIZE)
    (hk : bs.length % CONFIG_FILEUART_TX_BUF_SIZE = 0) : (enqueueAll g bs).tx_wt = g.tx_wt := by
  rw [enqueueAll_wt g bs hwt, Nat.add_mod, hk, Nat.add_zero, Nat.mod_mod, Nat.mod_eq_of_lt hwt]

/-- The same for the read index of a full ring. -/
theorem enqueueAll_rd_of_revolution {g : FileuartDev} {bs : List UInt8}
    (hfull : g.tx_count = CONFIG_FILEUART_TX_BUF_SIZE)
    (hk : bs.length % CONFIG_FILEUART_TX_BUF_SIZE = 0) :
    (enqueueAll g bs).tx_rd % CONFIG_FILEUART_TX_BUF_SIZE =
      g.tx_rd % CONFIG_FILEUART_TX_BUF_SIZE := by
  rw [enqueueAll_rd_of_full g bs hfull, Nat.add_mod, hk, Nat.add_zero, Nat.mod_mod]

/-- A harmless interrupt write commutes with finishing the interrupted part, and what the
    holder has loaded stays true. -/
theorem settle_enqueue {g : FileuartDev} {pc : Pc} {bs : List UInt8}
    (hcount : g.tx_count ≤ CONFIG_FILEUART_TX_BUF_SIZE) (hloaded : Loaded g pc)
    (hharmless : Harmless g bs.length pc) :
    settle (enqueueAll g bs) pc = enqueueAll (settle g pc) bs ∧
      Loaded (enqueueAll g bs) pc := by
  have hcount' := enqueueAll_count g bs hcount
  have hcount_mono : g.tx_count ≤ (enqueueAll g bs).tx_count := by
    rw [hcount']
    omega
  cases pc with
  | storeWt w ch todo =>
    obtain ⟨hw, hwt⟩ := hloaded
    have hsame := enqueueAll_wt_of_revolution hwt hharmless
    refine ⟨rfl, ?_, ?_⟩
    · rw [hsame]
      exact hw
    · rw [hsame]
      exact hwt
  | storeBuf w ch todo =>
    refine ⟨?_, trivial⟩
    rcases hharmless with hempty | ⟨hwt, hcells⟩
    · rw [List.eq_nil_of_length_eq_zero hempty]
      rfl
    · -- both `tx_wt` are reduced, so `settle` is a store followed by `countUp`
      have hwt' : (enqueueAll g bs).tx_wt % CONFIG_FILEUART_TX_BUF_SIZE =
          (enqueueAll g bs).tx_wt := by
        rw [enqueueAll_wt g bs hwt, Nat.mod_mod]
      simp only [settle]
      rw [hwt', Nat.mod_eq_of_lt hwt, setWt_self, setWt_self, setBuf_enqueueAll ch hwt hcells,
        countUp_enqueueAll]
  | loadWtMod todo =>
    refine ⟨?_, trivial⟩
    rcases hharmless with hempty | hwt
    · rw [List.eq_nil_of_length_eq_zero hempty]
      rfl
    · have hwt' : (enqueueAll g bs).tx_wt % CONFIG_FILEUART_TX_BUF_SIZE =
          (enqueueAll g bs).tx_wt := by
        rw [enqueueAll_wt g bs hwt, Nat.mod_mod]
      simp only [settle]
      rw [hwt', Nat.mod_eq_of_lt hwt, setWt_self, setWt_self, countUp_enqueueAll]
  | storeWtMod w todo =>
    have hw : w = g.tx_wt := hloaded
    rcases hharmless with hempty | ⟨hwt, hk⟩
    · rw [List.eq_nil_of_length_eq_zero hempty]
      exact ⟨rfl, hloaded⟩
    · have hsame := enqueueAll_wt_of_revolution hwt hk
      have hreduced : w % CONFIG_FILEUART_TX_BUF_SIZE = g.tx_wt := by
        rw [hw, Nat.mod_eq_of_lt hwt]
      have hset : setWt (enqueueAll g bs) g.tx_wt = enqueueAll g bs := by
        rw [← hsame, setWt_self]
      constructor
      · simp only [settle]
        rw [hreduced, hset, setWt_self, countUp_enqueueAll]
      · show w = _
        rw [hsame, hw]
  | testCount todo => exact ⟨countUp_enqueueAll g bs, trivial⟩
  | loadCount todo =>
    have hlt : g.tx_count < CONFIG_FILEUART_TX_BUF_SIZE := hloaded
    have hroom : g.tx_count + bs.length < CONFIG_FILEUART_TX_BUF_SIZE := hharmless
    have hlt' : (enqueueAll g bs).tx_count < CONFIG_FILEUART_TX_BUF_SIZE := by
      rw [hcount']
      omega
    refine ⟨?_, hlt'⟩
    have hcomm := countUp_enqueueAll g bs
    rwa [countUp_of_lt hlt', countUp_of_lt hlt] at hcomm
  | storeCount c todo =>
    have hempty : bs.length = 0 := hharmless
    rw [List.eq_nil_of_length_eq_zero hempty]
    exact ⟨rfl, hloaded⟩
  | loadRd todo =>
    have hfull : g.tx_count = CONFIG_FILEUART_TX_BUF_SIZE := hloaded
    have hfull' : (enqueueAll g bs).tx_count = CONFIG_FILEUART_TX_BUF_SIZE := by
      rw [hcount']
      omega
    refine ⟨?_, hfull'⟩
    have hcomm := countUp_enqueueAll g bs
    rwa [countUp_of_full hfull', countUp_of_full hfull] at hcomm
  | storeRd r todo =>
    obtain ⟨hfull, hr⟩ := hloaded
    have hfull' : (enqueueAll g bs).tx_count = CONFIG_FILEUART_TX_BUF_SIZE := by
      rw [hcount']
      omega
    have hr' := enqueueAll_rd_of_revolution hfull hharmless
    refine ⟨?_, hfull', by rw [hr', hr]⟩
    -- the loaded value is still congruent to the read index, so it may have been loaded now
    have hnext : (r + 1) % CONFIG_FILEUART_TX_BUF_SIZE =
        (g.tx_rd + 1) % CONFIG_FILEUART_TX_BUF_SIZE := by
      rw [Nat.add_mod, hr, ← Nat.add_mod]
    have hnext' : ((enqueueAll g bs).tx_rd + 1) % CONFIG_FILEUART_TX_BUF_SIZE =
        (g.tx_rd + 1) % CONFIG_FILEUART_TX_BUF_SIZE := by
      rw [Nat.add_mod, hr', ← Nat.add_mod]
    have hcomm := countUp_enqueueAll g bs
    rw [countUp_of_full hfull', countUp_of_full hfull, hnext'] at hcomm
    simp only [settle]
    rw [hnext, hcomm]
  | loadRdMod todo =>
    have hfull : g.tx_count = CONFIG_FILEUART_TX_BUF_SIZE := hloaded
    have hfull' : (enqueueAll g bs).tx_count = CONFIG_FILEUART_TX_BUF_SIZE := by
      rw [hcount']
      omega
    exact ⟨modRd_enqueueAll bs hfull, hfull'⟩
  | storeRdMod r todo =>
    obtain ⟨hfull, hr⟩ := hloaded
    have hfull' : (enqueueAll g bs).tx_count = CONFIG_FILEUART_TX_BUF_SIZE := by
      rw [hcount']
      omega
    have hr' := enqueueAll_rd_of_revolution hfull hharmless
    refine ⟨?_, hfull', by rw [hr', hr]⟩
    have hcomm := modRd_enqueueAll bs hfull
    rw [hr'] at hcomm
    simp only [settle]
    rw [hr, hcomm]
  | advanceLoadRd written chunk =>
    have hle : written ≤ g.tx_count := hloaded
    have hfits : Fits written g bs := ⟨hle, hharmless⟩
    refine ⟨?_, Nat.le_trans hle hcount_mono⟩
    simp only [settle]
    rw [enqueueAll_rd_of_fits g bs hfits.2]
    exact advance_enqueueAll _ hfits
  | advanceStoreRd r written chunk =>
    obtain ⟨hle, hr⟩ := hloaded
    have hfits : Fits written g bs := ⟨hle, hharmless⟩
    refine ⟨advance_enqueueAll _ hfits, Nat.le_trans hle hcount_mono, ?_⟩
    rw [enqueueAll_rd_of_fits g bs hfits.2, hr]
  | advanceLoadCount written chunk =>
    have hle : written ≤ g.tx_count := hloaded
    exact ⟨takeCount_enqueueAll ⟨hle, hharmless⟩, Nat.le_trans hle hcount_mono⟩
  | advanceStoreCount c written chunk =>
    have hempty : bs.length = 0 := hharmless
    rw [List.eq_nil_of_length_eq_zero hempty]
    exact ⟨rfl, hloaded⟩
  | _ => exact ⟨rfl, trivial⟩

/-! ### The invariant -/

/-- The settled ring holds the live bytes of a queue that accepted `s.accepted` and whose kept
    bytes are the file. -/
structure Inv (s : State) : Prop where
  count_le : s.dev.tx_count ≤ CONFIG_FILEUART_TX_BUF_SIZE
  loaded : Loaded s.dev s.pc
  history : ∃ h : LossyFifo UInt8 CONFIG_FILEUART_TX_BUF_SIZE,
    Refines (settle s.dev s.pc) h ∧ h.stream = s.accepted ∧ h.kept = s.file

/-- The side condition of a step: an interrupt write is harmless where it lands, and a
    `write` that accepts bytes takes them from `tx_rd` on, out of the contiguous bytes that
    are in the ring when it is called. -/
def Undisturbed (s : State) : Action → Prop
  | .interrupt buf => Harmless s.dev (expand buf).length s.pc
  | .task answer =>
    match s.pc with
    | .writeCall r _ => answer ≤ 0 ∨ (r = s.dev.tx_rd ∧ answer ≤ s.dev.tx_count ∧
        r + answer ≤ CONFIG_FILEUART_TX_BUF_SIZE)
    | _ => True
  | _ => True

instance decidableHarmless (g : FileuartDev) (k : Nat) (pc : Pc) :
    Decidable (Harmless g k pc) := by
  cases pc <;> dsimp only [Harmless] <;> infer_instance

instance decidableUndisturbed (s : State) (a : Action) : Decidable (Undisturbed s a) :=
  match a with
  | .interrupt buf => inferInstanceAs (Decidable (Harmless s.dev (expand buf).length s.pc))
  | .task answer => by
    dsimp only [Undisturbed]
    split <;> infer_instance
  | .startWrite _ | .startFlush | .mount _ | .umount _ | .setSuspended _ =>
    inferInstanceAs (Decidable True)

theorem inv_init : Inv init :=
  ⟨Nat.zero_le _, trivial, .empty, refines_init, rfl, rfl⟩

/-- An interrupt write that is harmless pushes its bytes. -/
theorem inv_interrupt {s s' : State} {buf : List UInt8} (hinv : Inv s)
    (hharmless : Harmless s.dev (expand buf).length s.pc)
    (hstep : step s (.interrupt buf) = some s') : Inv s' := by
  cases hstep
  obtain ⟨h, hr, hstream, hkept⟩ := hinv.history
  obtain ⟨hcomm, hloaded⟩ := settle_enqueue hinv.count_le hinv.loaded hharmless
  have hcount := enqueueAll_count s.dev (expand buf) hinv.count_le
  have hpush := refines_enqueueAll hr (expand buf)
  rw [← hcomm] at hpush
  constructor
  · show (fileuart_enqueue s.dev buf).tx_count ≤ _
    rw [fileuart_enqueue_eq, hcount]
    omega
  · show Loaded (fileuart_enqueue s.dev buf) s.pc
    rw [fileuart_enqueue_eq]
    exact hloaded
  · show ∃ h : LossyFifo UInt8 CONFIG_FILEUART_TX_BUF_SIZE,
      Refines (settle (fileuart_enqueue s.dev buf) s.pc) h ∧ _
    rw [fileuart_enqueue_eq]
    refine ⟨h.pushAll (expand buf), hpush, ?_, ?_⟩
    · rw [LossyFifo.pushAll_stream, hstream]
    · rw [LossyFifo.kept_pushAll]
      exact hkept

/-- The invariant at a position where nothing has begun. -/
theorem Inv.of_refines {s : State} {h : LossyFifo UInt8 CONFIG_FILEUART_TX_BUF_SIZE}
    (hr : Refines s.dev h) (hstream : h.stream = s.accepted) (hkept : h.kept = s.file)
    (hsettle : settle s.dev s.pc = s.dev) (hloaded : Loaded s.dev s.pc) : Inv s := by
  refine ⟨hr.count_le, hloaded, h, ?_, hstream, hkept⟩
  rw [hsettle]
  exact hr

/-- The invariant does not depend on how far the settled device has got. -/
theorem Inv.of_settle {s s' : State} (hinv : Inv s)
    (hsettle : settle s'.dev s'.pc = settle s.dev s.pc) (hloaded : Loaded s'.dev s'.pc)
    (hcount : s'.dev.tx_count ≤ CONFIG_FILEUART_TX_BUF_SIZE)
    (haccepted : s'.accepted = s.accepted) (hfile : s'.file = s.file) : Inv s' := by
  refine ⟨hcount, hloaded, ?_⟩
  rw [hsettle, haccepted, hfile]
  exact hinv.history

/-- Taking the cell is the point where a task's byte is pushed. -/
theorem inv_storeWt {s : State} {w : Nat} {ch : UInt8} {todo : List UInt8} (hinv : Inv s)
    (hpc : s.pc = .storeWt w ch todo) :
    Inv { s with
      dev := { s.dev with tx_wt := w + 1 }
      pc := .storeBuf w ch todo
      accepted := s.accepted ++ [ch] } := by
  obtain ⟨h, hr, hstream, hkept⟩ := hinv.history
  have hloaded := hinv.loaded
  rw [hpc] at hr hloaded
  obtain ⟨rfl, -⟩ := hloaded
  have hpush := refines_enqueue_byte hr ch
  refine ⟨hinv.count_le, trivial, h.push ch, hpush, ?_, ?_⟩
  · rw [LossyFifo.push_stream, hstream]
  · rw [LossyFifo.kept_push]
    exact hkept

/-- A `write` that accepts the oldest bytes pops them. -/
theorem inv_writeCall {s : State} {written chunk : Nat} (hinv : Inv s)
    (hpc : settle s.dev s.pc = s.dev) (hle : written ≤ s.dev.tx_count)
    (hend : s.dev.tx_rd + written ≤ CONFIG_FILEUART_TX_BUF_SIZE) :
    Inv { s with
      pc := .advanceLoadRd written chunk
      file := s.file ++ bytesAt s.dev s.dev.tx_rd written } := by
  obtain ⟨h, hr, hstream, hkept⟩ := hinv.history
  rw [hpc] at hr
  have hpop := refines_advance hr hle
  have hdata : bytesAt s.dev s.dev.tx_rd written = h.live.take written := by
    have hmap : Ring.contents s.dev.tx_buf CONFIG_FILEUART_TX_BUF_SIZE s.dev.tx_rd written =
        bytesAt s.dev s.dev.tx_rd written := Ring.contents_eq_map hend
    rw [← hr.live_eq, Ring.contents_take s.dev.tx_buf hle, hmap]
  refine ⟨hinv.count_le, hle, h.pop written, hpop.congr rfl rfl rfl rfl, hstream, ?_⟩
  rw [LossyFifo.kept_pop, hkept, hdata]

/-- What one load or store of the holder preserves. -/
theorem inv_task {s s' : State} {answer : Int} (hinv : Inv s)
    (hundisturbed : Undisturbed s (.task answer)) (hstep : taskStep s answer = some s') :
    Inv s' := by
  obtain ⟨h, hr, hstream, hkept⟩ := hinv.history
  have hcount := hinv.count_le
  have hloaded := hinv.loaded
  obtain ⟨g, pc, file, accepted⟩ := s
  cases pc with
  | idle => cases hstep
  | loadWt todo =>
    cases todo with
    | nil => cases hstep; exact .of_refines hr hstream hkept rfl trivial
    | cons ch todo => cases hstep; exact .of_refines hr hstream hkept rfl ⟨rfl, hr.wt_lt⟩
  | storeWt w ch todo => cases hstep; exact inv_storeWt hinv rfl
  | storeBuf w ch todo => cases hstep; exact hinv.of_settle rfl trivial hcount rfl rfl
  | loadWtMod todo => cases hstep; exact hinv.of_settle rfl rfl hcount rfl rfl
  | storeWtMod w todo => cases hstep; exact hinv.of_settle rfl trivial hcount rfl rfl
  | testCount todo =>
    simp only [taskStep] at hstep
    split at hstep
    · rename_i hlt
      cases hstep
      exact hinv.of_settle (countUp_of_lt hlt).symm hlt hcount rfl rfl
    · rename_i hge
      cases hstep
      have hfull : g.tx_count = CONFIG_FILEUART_TX_BUF_SIZE := by
        have : g.tx_count ≤ CONFIG_FILEUART_TX_BUF_SIZE := hcount
        omega
      exact hinv.of_settle (countUp_of_full hfull).symm hfull hcount rfl rfl
  | loadCount todo => cases hstep; exact hinv.of_settle rfl ⟨hloaded, rfl⟩ hcount rfl rfl
  | storeCount c todo =>
    cases hstep
    obtain ⟨hlt, hc⟩ := hloaded
    have hle : c + 1 ≤ CONFIG_FILEUART_TX_BUF_SIZE := by rw [hc]; exact hlt
    exact hinv.of_settle rfl trivial hle rfl rfl
  | loadRd todo => cases hstep; exact hinv.of_settle rfl ⟨hloaded, rfl⟩ hcount rfl rfl
  | storeRd r todo => cases hstep; exact hinv.of_settle rfl hloaded.1 hcount rfl rfl
  | loadRdMod todo => cases hstep; exact hinv.of_settle rfl ⟨hloaded, rfl⟩ hcount rfl rfl
  | storeRdMod r todo => cases hstep; exact hinv.of_settle rfl trivial hcount rfl rfl
  | flushTest =>
    simp only [taskStep] at hstep
    split at hstep <;> cases hstep <;> exact .of_refines hr hstream hkept rfl trivial
  | flushOpen =>
    have hopen : Refines (fileuart_open_mounted_log_locked g answer).1 h := refines_open hr answer
    simp only [taskStep] at hstep
    generalize fileuart_open_mounted_log_locked g answer = res at hstep hopen
    obtain ⟨g', opened⟩ := res
    cases hstep
    cases opened <;> exact .of_refines hopen hstream hkept rfl trivial
  | flushLoop =>
    simp only [taskStep] at hstep
    split at hstep <;> cases hstep <;> exact .of_refines hr hstream hkept rfl trivial
  | compareRd => cases hstep; exact .of_refines hr hstream hkept rfl trivial
  | compareWt r =>
    simp only [taskStep] at hstep
    split at hstep <;> cases hstep <;> exact .of_refines hr hstream hkept rfl trivial
  | chunkWt => cases hstep; exact .of_refines hr hstream hkept rfl trivial
  | chunkRd w => cases hstep; exact .of_refines hr hstream hkept rfl trivial
  | chunkTail => cases hstep; exact .of_refines hr hstream hkept rfl trivial
  | clipTest chunk =>
    simp only [taskStep] at hstep
    split at hstep <;> cases hstep <;> exact .of_refines hr hstream hkept rfl trivial
  | clipCount => cases hstep; exact .of_refines hr hstream hkept rfl trivial
  | writeRd chunk => cases hstep; exact .of_refines hr hstream hkept rfl trivial
  | writeCall r chunk =>
    simp only [taskStep] at hstep
    split at hstep
    · cases hstep
    · split at hstep
      · cases hstep
        exact .of_refines (refines_close hr false) hstream hkept rfl trivial
      · rename_i hpos
        cases hstep
        -- the write succeeded, so the side condition says where its bytes came from
        rcases hundisturbed with hneg | ⟨hrd, hle, hend⟩
        · exact absurd hneg hpos
        · have hrd' : r = g.tx_rd := hrd
          subst hrd'
          have hle' : answer.toNat ≤ g.tx_count := by
            have : answer ≤ g.tx_count := hle
            omega
          have hend' : g.tx_rd + answer.toNat ≤ CONFIG_FILEUART_TX_BUF_SIZE := by omega
          exact inv_writeCall hinv rfl hle' hend'
  | advanceLoadRd written chunk =>
    cases hstep; exact hinv.of_settle rfl ⟨hloaded, rfl⟩ hcount rfl rfl
  | advanceStoreRd r written chunk =>
    cases hstep; exact hinv.of_settle rfl hloaded.1 hcount rfl rfl
  | advanceLoadCount written chunk =>
    cases hstep; exact hinv.of_settle rfl ⟨hloaded, rfl⟩ hcount rfl rfl
  | advanceStoreCount c written chunk =>
    cases hstep
    obtain ⟨hle, hc⟩ := hloaded
    have hc' : c = g.tx_count := hc
    have hsmall : g.tx_count < 2 ^ 32 := Nat.lt_of_le_of_lt hcount (by decide)
    have hsub : sub32 c written = c - written := by
      rw [hc']
      exact sub32_of_le hle hsmall
    refine hinv.of_settle ?_ trivial ?_ rfl rfl
    · show setCount g (sub32 c written) = setCount g (c - written)
      rw [hsub]
    · show sub32 c written ≤ _
      rw [hsub, hc']
      exact Nat.le_trans (Nat.sub_le _ _) hcount
  | advanceDirty written chunk =>
    cases hstep
    have hr' : Refines { g with dirty_bytes := g.dirty_bytes + written } h :=
      hr.congr rfl rfl rfl rfl
    by_cases hshort : written < chunk
    · rw [if_pos hshort]
      exact .of_refines hr' hstream hkept rfl trivial
    · rw [if_neg hshort]
      exact .of_refines hr' hstream hkept rfl trivial
  | flushSync =>
    simp only [taskStep] at hstep
    split at hstep
    · split at hstep
      · cases hstep
        exact .of_refines (hr.congr rfl rfl rfl rfl) hstream hkept rfl trivial
      · cases hstep
        exact .of_refines (refines_close hr false) hstream hkept rfl trivial
    · cases hstep
      exact .of_refines hr hstream hkept rfl trivial

/-- An operation that leaves the ring alone, when the semaphore is free. -/
theorem inv_idle {s : State} {g : FileuartDev} (hinv : Inv s) (hidle : s.pc = .idle)
    (hg : ∀ h, Refines s.dev h → Refines g h) : Inv { s with dev := g } := by
  obtain ⟨h, hr, hstream, hkept⟩ := hinv.history
  rw [hidle] at hr
  apply Inv.of_refines (s := { s with dev := g }) (hg h hr) hstream hkept
  · show settle g s.pc = g
    rw [hidle]
    rfl
  · show Loaded g s.pc
    rw [hidle]
    trivial

/-- What one step preserves. -/
theorem inv_step (s : State) (a : Action) (s' : State) (hinv : Inv s)
    (hundisturbed : Undisturbed s a) (hstep : step s a = some s') : Inv s' := by
  cases a with
  | interrupt buf => exact inv_interrupt hinv hundisturbed hstep
  | task answer => exact inv_task hinv hundisturbed hstep
  | startWrite buf =>
    simp only [step] at hstep
    split at hstep
    · rename_i hidle
      cases hstep
      obtain ⟨h, hr, hstream, hkept⟩ := hinv.history
      rw [hidle] at hr
      exact .of_refines hr hstream hkept rfl trivial
    · cases hstep
  | startFlush =>
    simp only [step] at hstep
    split at hstep
    · rename_i hidle
      split at hstep
      · cases hstep
        obtain ⟨h, hr, hstream, hkept⟩ := hinv.history
        rw [hidle] at hr
        exact .of_refines hr hstream hkept rfl trivial
      · cases hstep
        exact hinv
    · cases hstep
  | mount dev =>
    simp only [step] at hstep
    split at hstep
    · cases hstep
      exact inv_idle hinv ‹_› fun h hr => refines_mount hr dev
    · cases hstep
  | umount dev =>
    simp only [step] at hstep
    split at hstep
    · cases hstep
      exact inv_idle hinv ‹_› fun h hr => refines_umount hr dev
    · cases hstep
  | setSuspended suspended =>
    simp only [step] at hstep
    split at hstep
    · cases hstep
      exact inv_idle hinv ‹_› fun h hr => refines_suspend hr suspended
    · cases hstep

/-! ### Without interrupts -/

/-- The loads and stores of one byte, taken together, are `fileuart_enqueue_byte`. -/
theorem run_enqueue_byte (g : FileuartDev) (ch : UInt8) (todo file accepted : List UInt8) :
    ∃ n, Lts.run step ⟨g, .loadWt (ch :: todo), file, accepted⟩
        (List.replicate n (.task 0)) =
      some ⟨fileuart_enqueue_byte g ch, .loadWt todo, file, accepted ++ [ch]⟩ := by
  -- the byte is stored before the count is tested
  let stored : FileuartDev :=
    { g with
      tx_buf := Function.update g.tx_buf g.tx_wt ch
      tx_wt := (g.tx_wt + 1) % CONFIG_FILEUART_TX_BUF_SIZE }
  have hstore : Lts.run step ⟨g, .loadWt (ch :: todo), file, accepted⟩
      (List.replicate 5 (.task 0)) = some ⟨stored, .testCount todo, file, accepted ++ [ch]⟩ := rfl
  by_cases hlt : g.tx_count < CONFIG_FILEUART_TX_BUF_SIZE
  · have htest : step ⟨stored, .testCount todo, file, accepted ++ [ch]⟩ (.task 0) =
        some ⟨stored, .loadCount todo, file, accepted ++ [ch]⟩ := if_pos hlt
    have hcount : Lts.run step ⟨stored, .loadCount todo, file, accepted ++ [ch]⟩
        (List.replicate 2 (.task 0)) =
        some ⟨{ stored with tx_count := g.tx_count + 1 }, .loadWt todo, file,
          accepted ++ [ch]⟩ := rfl
    refine ⟨5 + 3, ?_⟩
    rw [List.replicate_add, Lts.run_append, hstore, Option.bind_some, List.replicate_succ,
      Lts.run_cons, htest, Option.bind_some, hcount, fileuart_enqueue_byte, if_pos hlt]
  · have htest : step ⟨stored, .testCount todo, file, accepted ++ [ch]⟩ (.task 0) =
        some ⟨stored, .loadRd todo, file, accepted ++ [ch]⟩ := if_neg hlt
    have hdrop : Lts.run step ⟨stored, .loadRd todo, file, accepted ++ [ch]⟩
        (List.replicate 4 (.task 0)) =
        some ⟨{ stored with tx_rd := (g.tx_rd + 1) % CONFIG_FILEUART_TX_BUF_SIZE }, .loadWt todo,
          file, accepted ++ [ch]⟩ := rfl
    refine ⟨5 + 5, ?_⟩
    rw [List.replicate_add, Lts.run_append, hstore, Option.bind_some, List.replicate_succ,
      Lts.run_cons, htest, Option.bind_some, hdrop, fileuart_enqueue_byte, if_neg hlt]

/-- A task that is not interrupted enqueues its bytes as `fileuart_enqueue` does. -/
theorem run_enqueueAll (g : FileuartDev) (todo file accepted : List UInt8) :
    ∃ n, Lts.run step ⟨g, .loadWt todo, file, accepted⟩ (List.replicate n (.task 0)) =
      some ⟨enqueueAll g todo, .idle, file, accepted ++ todo⟩ := by
  induction todo generalizing g accepted with
  | nil =>
    refine ⟨1, ?_⟩
    simp [List.replicate, Lts.run_cons, step, taskStep]
  | cons ch todo ih =>
    obtain ⟨n, hn⟩ := run_enqueue_byte g ch todo file accepted
    obtain ⟨m, hm⟩ := ih (fileuart_enqueue_byte g ch) (accepted ++ [ch])
    refine ⟨n + m, ?_⟩
    rw [List.replicate_add, Lts.run_append, hn, Option.bind_some, hm, List.append_assoc]
    rfl

/-- A write of a task that is not interrupted is `fileuart_enqueue`. -/
theorem run_startWrite (g : FileuartDev) (buf file accepted : List UInt8) :
    ∃ n, Lts.run step ⟨g, .idle, file, accepted⟩
        (.startWrite buf :: List.replicate n (.task 0)) =
      some ⟨fileuart_enqueue g buf, .idle, file, accepted ++ expand buf⟩ := by
  obtain ⟨n, hn⟩ := run_enqueueAll g (expand buf) file accepted
  refine ⟨n, (Lts.run_cons_some step).mpr ⟨_, rfl, ?_⟩⟩
  rw [fileuart_enqueue_eq]
  exact hn

/-! ### Soundness of the ring -/

/-- What the ring promises: never more than `CONFIG_FILEUART_TX_BUF_SIZE` bytes, and, when no
    operation is in progress, consistent indices and the latest accepted bytes; a byte that
    is not in the ring any more went to the file, in order, or was overwritten by the byte
    that was accepted `CONFIG_FILEUART_TX_BUF_SIZE` places later. -/
structure Sound (s : State) : Prop where
  count_le : s.dev.tx_count ≤ CONFIG_FILEUART_TX_BUF_SIZE
  wt_eq : s.pc = .idle →
    s.dev.tx_wt = (s.dev.tx_rd + s.dev.tx_count) % CONFIG_FILEUART_TX_BUF_SIZE
  fates : ∃ fates : List Fate,
    s.file = LossyFifo.keptOf s.accepted fates ∧
    (∀ i, fates[i]? = some .dropped →
      i + CONFIG_FILEUART_TX_BUF_SIZE < s.accepted.length) ∧
    (s.pc = .idle →
      fates.length + s.dev.tx_count = s.accepted.length ∧
      Ring.contents s.dev.tx_buf CONFIG_FILEUART_TX_BUF_SIZE s.dev.tx_rd s.dev.tx_count =
        s.accepted.drop fates.length)

theorem Inv.sound {s : State} (hinv : Inv s) : Sound s := by
  obtain ⟨h, hr, hstream, hkept⟩ := hinv.history
  -- when the semaphore is free, nothing is left to be settled
  have hidle : s.pc = .idle → Refines s.dev h := by
    intro hpc
    rw [hpc] at hr
    exact hr
  refine ⟨hinv.count_le, fun hpc => (hidle hpc).wt_eq, h.fates, ?_, ?_, ?_⟩
  · rw [← hkept, ← hstream]
    rfl
  · rw [← hstream]
    exact h.overwritten
  · intro hpc
    have hlen := h.length_add_live
    rw [← (hidle hpc).count_eq, hstream] at hlen
    refine ⟨hlen, ?_⟩
    rw [(hidle hpc).live_eq, ← hstream]
    rfl

/-- In every run whose steps are undisturbed, the ring is sound in every state reached. -/
theorem sound_of_undisturbed (tr : List Action) (s : State)
    (hundisturbed : Lts.Meets step Undisturbed init tr)
    (hrun : Lts.run step init tr = some s) : Sound s :=
  (Lts.run_invariant_of_meets step inv_step inv_init hundisturbed hrun).sound

/-- An interrupt logs a byte while the worker flushes another one. -/
def undisturbedRun : List Action :=
  [.mount (some [115, 100, 97]), .interrupt [97], .startFlush, .task 0, .task 3, .task 0, .task 0,
    .task 0, .task 0, .task 0, .task 0, .task 0, .task 1, .interrupt [98], .task 0, .task 0,
    .task 0, .task 0]

theorem sound_undisturbedRun :
    ∃ s, Lts.run step init undisturbedRun = some s ∧ s.file = [97] ∧ s.accepted = [97, 98] ∧
      Sound s := by
  have hfile : (Lts.run step init undisturbedRun).map (fun s => (s.file, s.accepted)) =
      some ([97], [97, 98]) := by decide
  have hundisturbed : Lts.Meets step Undisturbed init undisturbedRun := by decide
  obtain ⟨s, hs, hsfile⟩ := Option.map_eq_some_iff.mp hfile
  have hsound := sound_of_undisturbed undisturbedRun s hundisturbed hs
  exact ⟨s, hs, congrArg Prod.fst hsfile, congrArg Prod.snd hsfile, hsound⟩

/-! ### The byte that an interrupt loses -/

/-- Enqueueing touches nothing but the ring. -/
theorem enqueueAll_frame (g : FileuartDev) (bs : List UInt8) :
    (enqueueAll g bs).fd = g.fd ∧ (enqueueAll g bs).devname = g.devname ∧
      (enqueueAll g bs).dirty_bytes = g.dirty_bytes ∧
      (enqueueAll g bs).suspend_depth = g.suspend_depth := by
  induction bs generalizing g with
  | nil => exact ⟨rfl, rfl, rfl, rfl⟩
  | cons b bs ih =>
    obtain ⟨hfd, hdevname, hdirty, hsuspend⟩ := ih (fileuart_enqueue_byte g b)
    rw [enqueueAll_cons, hfd, hdevname, hdirty, hsuspend, fileuart_enqueue_byte_frame]
    exact ⟨rfl, rfl, rfl, rfl⟩

/-- A device is mounted, and a flush gets as far as its `write`, which accepts everything.
    Before `tx_rd` is advanced, an interrupt logs `'b'`. -/
def flushRace : List Action :=
  [.mount (some [115, 100, 97]), .startFlush, .task 0, .task 3, .task 0, .task 0, .task 0] ++
    [.task 0, .task 0, .task 0, .task 65536] ++
    [.interrupt [98]] ++
    [.task 0, .task 0, .task 0, .task 0, .task 0, .task 0, .task 0]

/-- An interrupt fills the ring with `'a'` before that. -/
def lostByteRun : List Action :=
  .interrupt (List.replicate CONFIG_FILEUART_TX_BUF_SIZE 97) :: flushRace

/-- The device whose ring is full of the first `CONFIG_FILEUART_TX_BUF_SIZE` cells of `b`. -/
def fullDev (b : Nat → UInt8) : FileuartDev :=
  { FileuartDev.init with tx_buf := b, tx_count := CONFIG_FILEUART_TX_BUF_SIZE }

/-- The same while its log is open. -/
def openDev (b : Nat → UInt8) : FileuartDev :=
  { fullDev b with fd := 3, devname := [115, 100, 97] }

/-- The same after the interrupt. -/
def racedDev (b : Nat → UInt8) : FileuartDev :=
  { openDev b with tx_buf := Function.update b 0 98, tx_rd := 1, tx_wt := 1 }

/-- The race on a full ring. -/
theorem run_flushRace (b : Nat → UInt8) (bs : List UInt8) :
    Lts.run step ⟨fullDev b, .idle, [], bs⟩ flushRace =
      some ⟨{ racedDev b with tx_count := 0 }, .idle, bytesAt (openDev b) 0 65536,
        bs ++ [98]⟩ := by
  -- the flush computes its chunk
  have hstart : Lts.run step ⟨fullDev b, .idle, [], bs⟩
      [.mount (some [115, 100, 97]), .startFlush, .task 0, .task 3, .task 0, .task 0, .task 0] =
      some ⟨openDev b, .chunkTail, [], bs⟩ := rfl
  -- and writes it
  have hwrite : Lts.run step ⟨openDev b, .chunkTail, [], bs⟩
      [.task 0, .task 0, .task 0, .task 65536] =
      some ⟨openDev b, .advanceLoadRd 65536 65536, bytesAt (openDev b) 0 65536, bs⟩ := by
    have hchunk : sub32 CONFIG_FILEUART_TX_BUF_SIZE 0 = 65536 := by decide
    have hrd : (openDev b).tx_rd = 0 := rfl
    have hcount : (openDev b).tx_count = 65536 := rfl
    simp [Lts.run_cons, step, taskStep, hchunk, hrd, hcount]
  -- the interrupt overwrites the oldest byte, which is in the file already
  have hinterrupt : Lts.run step
      ⟨openDev b, .advanceLoadRd 65536 65536, bytesAt (openDev b) 0 65536, bs⟩
      [.interrupt [98]] =
      some ⟨racedDev b, .advanceLoadRd 65536 65536, bytesAt (openDev b) 0 65536,
        bs ++ [98]⟩ := by
    have hexpand : expand [98] = [98] := rfl
    have henqueue : fileuart_enqueue (openDev b) [98] = racedDev b := by
      simp [fileuart_enqueue, fileuart_enqueue_byte, racedDev, openDev, fullDev,
        FileuartDev.init, CONFIG_FILEUART_TX_BUF_SIZE]
    simp only [Lts.run_cons, step, hexpand, henqueue, Option.bind_some, Lts.run_nil]
  -- and the flush drops everything, the new byte included
  have hrd : (1 + 65536) % CONFIG_FILEUART_TX_BUF_SIZE = 1 := by decide
  have hcount : sub32 65536 65536 = 0 := by decide
  have hdropped : Lts.run step
      ⟨racedDev b, .advanceLoadRd 65536 65536, bytesAt (openDev b) 0 65536, bs ++ [98]⟩
      [.task 0, .task 0, .task 0, .task 0] =
      some ⟨{ racedDev b with
          tx_rd := (1 + 65536) % CONFIG_FILEUART_TX_BUF_SIZE, tx_count := sub32 65536 65536 },
        .advanceDirty 65536 65536, bytesAt (openDev b) 0 65536, bs ++ [98]⟩ := by
    simp only [Lts.run_cons, step, taskStep, Option.bind_some, Lts.run_nil]
    rfl
  have hdone : Lts.run step
      ⟨{ racedDev b with tx_rd := 1, tx_count := 0 }, .advanceDirty 65536 65536,
        bytesAt (openDev b) 0 65536, bs ++ [98]⟩ [.task 0, .task 0, .task 0] =
      some ⟨{ racedDev b with tx_count := 0 }, .idle, bytesAt (openDev b) 0 65536,
        bs ++ [98]⟩ := by
    simp [Lts.run_cons, step, taskStep, racedDev, openDev, fullDev, FileuartDev.init,
      FILEUART_SYNC_INTERVAL_BYTES]
  rw [hrd, hcount] at hdropped
  have hadvance : Lts.run step
      ⟨racedDev b, .advanceLoadRd 65536 65536, bytesAt (openDev b) 0 65536, bs ++ [98]⟩
      ([.task 0, .task 0, .task 0, .task 0] ++ [.task 0, .task 0, .task 0]) =
      some ⟨{ racedDev b with tx_count := 0 }, .idle, bytesAt (openDev b) 0 65536,
        bs ++ [98]⟩ := by
    rw [Lts.run_append, hdropped, Option.bind_some, hdone]
  rw [flushRace, Lts.run_append, Lts.run_append, Lts.run_append, hstart, Option.bind_some,
    hwrite, Option.bind_some, hinterrupt, Option.bind_some]
  exact hadvance

/-- Bytes that fill the empty ring exactly. -/
theorem enqueueAll_fills {bs : List UInt8} (hlen : bs.length = CONFIG_FILEUART_TX_BUF_SIZE) :
    enqueueAll .init bs = fullDev (enqueueAll .init bs).tx_buf := by
  have hcount : (enqueueAll .init bs).tx_count = CONFIG_FILEUART_TX_BUF_SIZE := by
    have hadd : FileuartDev.init.tx_count + bs.length = CONFIG_FILEUART_TX_BUF_SIZE := by
      rw [hlen]
      exact Nat.zero_add _
    rw [enqueueAll_count .init bs (Nat.zero_le _), hadd, Nat.min_self]
  have hwt : (enqueueAll .init bs).tx_wt = 0 := by
    have hadd : FileuartDev.init.tx_wt + bs.length = CONFIG_FILEUART_TX_BUF_SIZE := by
      rw [hlen]
      exact Nat.zero_add _
    rw [enqueueAll_wt .init bs size_pos, hadd, Nat.mod_self]
  have hrd := enqueueAll_rd_of_fits .init bs (by rw [hlen]; exact Nat.le_of_eq (Nat.zero_add _))
  obtain ⟨hfd, hdevname, hdirty, hsuspend⟩ := enqueueAll_frame .init bs
  generalize enqueueAll .init bs = g at *
  obtain ⟨fd, tx_buf, devname, tx_rd, tx_wt, tx_count, dirty_bytes, suspend_depth⟩ := g
  simp only at hcount hrd hwt hfd hdevname hdirty hsuspend
  subst hcount hrd hwt hfd hdevname hdirty hsuspend
  rfl

/-- The flush of the full ring hands out accepted bytes. -/
theorem mem_of_mem_bytesAt {bs : List UInt8} (hlen : bs.length = CONFIG_FILEUART_TX_BUF_SIZE)
    {x : UInt8} (hx : x ∈ bytesAt (openDev (enqueueAll .init bs).tx_buf) 0 65536) :
    x ∈ bs := by
  have hr := refines_enqueueAll refines_init bs
  have hlive := hr.live_eq
  rw [enqueueAll_fills hlen] at hlive
  have hcontents : Ring.contents (enqueueAll .init bs).tx_buf CONFIG_FILEUART_TX_BUF_SIZE 0
      CONFIG_FILEUART_TX_BUF_SIZE =
      bytesAt (openDev (enqueueAll .init bs).tx_buf) 0 CONFIG_FILEUART_TX_BUF_SIZE :=
    Ring.contents_eq_map (Nat.le_of_eq (Nat.zero_add _))
  have hx' :
      x ∈ (LossyFifo.empty.pushAll bs : LossyFifo UInt8 CONFIG_FILEUART_TX_BUF_SIZE).live := by
    rw [← hlive]
    show x ∈ Ring.contents (enqueueAll .init bs).tx_buf CONFIG_FILEUART_TX_BUF_SIZE 0
      CONFIG_FILEUART_TX_BUF_SIZE
    rw [hcontents]
    exact hx
  have hstream := List.mem_of_mem_drop hx'
  rw [LossyFifo.pushAll_stream] at hstream
  exact hstream

theorem expand_of_forall_ne {bs : List UInt8} (h : ∀ x ∈ bs, x ≠ 10) : expand bs = bs := by
  induction bs with
  | nil => rfl
  | cons b bs ih =>
    have hb := h b List.mem_cons_self
    rw [expand_cons, if_neg hb, ih fun x hx => h x (List.mem_cons_of_mem b hx)]
    rfl

/-- The run loses `'b'`: it is not in the ring, not in the file, and nothing was written over
    it. -/
theorem lostByte : ∃ s, Lts.run step init lostByteRun = some s ∧ ¬ Sound s := by
  have hmem : ∀ x ∈ List.replicate CONFIG_FILEUART_TX_BUF_SIZE (97 : UInt8), x = 97 :=
    fun x hx => List.eq_of_mem_replicate hx
  have hlen : (List.replicate CONFIG_FILEUART_TX_BUF_SIZE (97 : UInt8)).length =
      CONFIG_FILEUART_TX_BUF_SIZE := List.length_replicate
  rw [lostByteRun]
  generalize List.replicate CONFIG_FILEUART_TX_BUF_SIZE (97 : UInt8) = bs at hmem hlen ⊢
  have hexpand : expand bs = bs :=
    expand_of_forall_ne fun x hx => by rw [hmem x hx]; decide
  have hfill : step init (.interrupt bs) =
      some ⟨fullDev (enqueueAll .init bs).tx_buf, .idle, [], bs⟩ := by
    rw [← enqueueAll_fills hlen]
    simp only [step, fileuart_enqueue_eq, hexpand]
    rfl
  have hrace := run_flushRace (enqueueAll .init bs).tx_buf bs
  refine ⟨_, (Lts.run_cons_some step).mpr ⟨_, hfill, hrace⟩, ?_⟩
  intro hsound
  obtain ⟨fates, hfile, hdropped, hidle⟩ := hsound.fates
  have hacc : (bs ++ [98]).length = CONFIG_FILEUART_TX_BUF_SIZE + 1 := by
    rw [List.length_append, hlen, List.length_singleton]
  have hfates : fates.length + 0 = (bs ++ [98]).length := (hidle rfl).1
  have hdropped' : ∀ i, fates[i]? = some .dropped →
      i + CONFIG_FILEUART_TX_BUF_SIZE < (bs ++ [98]).length := hdropped
  dsimp only at hfile
  rw [hacc] at hfates hdropped'
  -- the fate of the last byte can only be that it was written to the file
  have hlast : fates[CONFIG_FILEUART_TX_BUF_SIZE]? = some .kept := by
    have hlt : CONFIG_FILEUART_TX_BUF_SIZE < fates.length := by omega
    cases hfate : fates[CONFIG_FILEUART_TX_BUF_SIZE] with
    | kept => rw [List.getElem?_eq_getElem hlt, hfate]
    | dropped =>
      have := hdropped' CONFIG_FILEUART_TX_BUF_SIZE (by rw [List.getElem?_eq_getElem hlt, hfate])
      have : 1 < CONFIG_FILEUART_TX_BUF_SIZE := by decide
      omega
  have hb : (bs ++ [98])[CONFIG_FILEUART_TX_BUF_SIZE]? = some 98 := by
    rw [← hlen]
    exact List.getElem?_concat_length
  have hwritten := LossyFifo.mem_keptOf hb hlast
  rw [← hfile] at hwritten
  have := hmem 98 (mem_of_mem_bytesAt hlen hwritten)
  cases this

end Hcrtos.Native.FileuartIsr
