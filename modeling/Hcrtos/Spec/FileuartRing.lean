import Hcrtos.ForStd.LossyFifo
import Hcrtos.ForStd.Ring
import Hcrtos.Native.Fileuart

/-!
# The log ring is a queue that drops its oldest bytes

The device refines `LossyFifo`: an enqueued byte is a `push`, and a `write` that accepted
`written` bytes is a `pop` of as many. Over a serialised run, the accepted stream, the file
and the ring are then the stream, the kept bytes and the live bytes of one queue.

## Key results

- `refines_enqueue_byte`: the step lemma of the ring
- `refines_flushLoop`: a flush hands out the oldest bytes
- `logged_step`: one operation extends the history of the ring
- `ring_run`: what holds of the ring and the file after every serialised run
-/

namespace Hcrtos.Native.Fileuart

/-- The ring holds the live bytes of the queue `h`. -/
structure Refines (g : FileuartDev) (h : LossyFifo UInt8 CONFIG_FILEUART_TX_BUF_SIZE) :
    Prop where
  reachable : h.Reachable
  rd_lt : g.tx_rd < CONFIG_FILEUART_TX_BUF_SIZE
  wt_eq : g.tx_wt = (g.tx_rd + g.tx_count) % CONFIG_FILEUART_TX_BUF_SIZE
  live_eq : Ring.contents g.tx_buf CONFIG_FILEUART_TX_BUF_SIZE g.tx_rd g.tx_count = h.live

theorem size_pos : 0 < CONFIG_FILEUART_TX_BUF_SIZE := by decide

theorem Refines.count_eq {g : FileuartDev} {h : LossyFifo UInt8 CONFIG_FILEUART_TX_BUF_SIZE}
    (hr : Refines g h) : g.tx_count = h.live.length := by
  rw [← hr.live_eq, Ring.contents_length]

theorem Refines.count_le {g : FileuartDev} {h : LossyFifo UInt8 CONFIG_FILEUART_TX_BUF_SIZE}
    (hr : Refines g h) : g.tx_count ≤ CONFIG_FILEUART_TX_BUF_SIZE := by
  rw [hr.count_eq]
  exact h.live_length_le

/-- The empty ring holds the empty queue. -/
theorem refines_init : Refines .init .empty where
  reachable := .empty
  rd_lt := size_pos
  wt_eq := rfl
  live_eq := rfl

/-- Only the ring itself matters. -/
theorem Refines.congr {g g' : FileuartDev}
    {h : LossyFifo UInt8 CONFIG_FILEUART_TX_BUF_SIZE} (hr : Refines g h)
    (hbuf : g'.tx_buf = g.tx_buf) (hrd : g'.tx_rd = g.tx_rd) (hwt : g'.tx_wt = g.tx_wt)
    (hcount : g'.tx_count = g.tx_count) : Refines g' h where
  reachable := hr.reachable
  rd_lt := by rw [hrd]; exact hr.rd_lt
  wt_eq := by rw [hwt, hrd, hcount]; exact hr.wt_eq
  live_eq := by rw [hbuf, hrd, hcount]; exact hr.live_eq

/-! ### Accepting bytes -/

/-- Enqueueing a byte pushes it; a full ring drops its oldest byte. -/
theorem refines_enqueue_byte {g : FileuartDev}
    {h : LossyFifo UInt8 CONFIG_FILEUART_TX_BUF_SIZE} (hr : Refines g h) (ch : UInt8) :
    Refines (fileuart_enqueue_byte g ch) (h.push ch) := by
  have hwt := hr.wt_eq
  have hcount := hr.count_eq
  by_cases hlt : g.tx_count < CONFIG_FILEUART_TX_BUF_SIZE
  · have hg : fileuart_enqueue_byte g ch =
        { g with
          tx_buf := Function.update g.tx_buf g.tx_wt ch
          tx_wt := (g.tx_wt + 1) % CONFIG_FILEUART_TX_BUF_SIZE
          tx_count := g.tx_count + 1 } := by
      simp [fileuart_enqueue_byte, hlt]
    rw [hg]
    constructor
    · exact hr.reachable.push ch
    · exact hr.rd_lt
    · show (g.tx_wt + 1) % _ = (g.tx_rd + (g.tx_count + 1)) % _
      rw [hwt, Nat.mod_add_mod, Nat.add_assoc]
    · show Ring.contents (Function.update g.tx_buf g.tx_wt ch) _ g.tx_rd (g.tx_count + 1) = _
      rw [hwt, Ring.contents_push hlt, hr.live_eq]
      exact (LossyFifo.live_push_of_lt (by omega) ch).symm
  · -- the ring is full, so the written cell is the one of the oldest byte
    have hfull : g.tx_count = CONFIG_FILEUART_TX_BUF_SIZE := by
      have := hr.count_le
      omega
    have hg : fileuart_enqueue_byte g ch =
        { g with
          tx_buf := Function.update g.tx_buf g.tx_wt ch
          tx_wt := (g.tx_wt + 1) % CONFIG_FILEUART_TX_BUF_SIZE
          tx_rd := (g.tx_rd + 1) % CONFIG_FILEUART_TX_BUF_SIZE } := by
      simp [fileuart_enqueue_byte, hlt]
    rw [hg]
    constructor
    · exact hr.reachable.push ch
    · exact Nat.mod_lt _ size_pos
    · show (g.tx_wt + 1) % _ = ((g.tx_rd + 1) % _ + g.tx_count) % _
      rw [hwt, Nat.mod_add_mod, Nat.mod_add_mod]
      congr 1
      omega
    · show Ring.contents (Function.update g.tx_buf g.tx_wt ch) _
        ((g.tx_rd + 1) % _) g.tx_count = _
      have hlive := hr.live_eq
      rw [hfull] at hwt hlive ⊢
      rw [Ring.contents_mod, hwt, Ring.contents_push_full size_pos, hlive]
      exact (LossyFifo.live_push_of_full size_pos (by omega) ch).symm

/-- `expand` as a recursion over the buffer. -/
theorem expand_cons (ch : UInt8) (buf : List UInt8) :
    expand (ch :: buf) = (if ch = 10 then [13, ch] else [ch]) ++ expand buf := rfl

/-- Enqueueing a buffer pushes its newline expansion. -/
theorem refines_enqueue {g : FileuartDev}
    {h : LossyFifo UInt8 CONFIG_FILEUART_TX_BUF_SIZE} (hr : Refines g h) (buf : List UInt8) :
    Refines (fileuart_enqueue g buf) (h.pushAll (expand buf)) := by
  induction buf generalizing g h with
  | nil => exact hr
  | cons ch buf ih =>
    rw [expand_cons, LossyFifo.pushAll_append]
    by_cases hch : ch = 10
    · have hstep := refines_enqueue_byte (refines_enqueue_byte hr 13) ch
      have := ih hstep
      simpa [fileuart_enqueue, hch] using this
    · have := ih (refines_enqueue_byte hr ch)
      simpa [fileuart_enqueue, hch] using this

/-! ### Flushing -/

/-- A chunk does not go beyond the contents or the end of the buffer. -/
theorem chunkSize_le (g : FileuartDev) (hrd : g.tx_rd < CONFIG_FILEUART_TX_BUF_SIZE)
    (hwt : g.tx_wt < CONFIG_FILEUART_TX_BUF_SIZE) :
    chunkSize g ≤ g.tx_count ∧ g.tx_rd + chunkSize g ≤ CONFIG_FILEUART_TX_BUF_SIZE := by
  unfold chunkSize
  dsimp only
  split <;> split <;> omega

theorem Refines.wt_lt {g : FileuartDev} {h : LossyFifo UInt8 CONFIG_FILEUART_TX_BUF_SIZE}
    (hr : Refines g h) : g.tx_wt < CONFIG_FILEUART_TX_BUF_SIZE := by
  rw [hr.wt_eq]
  exact Nat.mod_lt _ size_pos

/-- The bytes a `write` is given are the oldest ones. -/
theorem Refines.bytesAt_eq {g : FileuartDev}
    {h : LossyFifo UInt8 CONFIG_FILEUART_TX_BUF_SIZE} (hr : Refines g h) {k : Nat}
    (hk : k ≤ chunkSize g) : bytesAt g g.tx_rd k = h.live.take k := by
  have hchunk := chunkSize_le g hr.rd_lt hr.wt_lt
  have hk' : k ≤ g.tx_count := by omega
  have hmap : Ring.contents g.tx_buf CONFIG_FILEUART_TX_BUF_SIZE g.tx_rd k =
      bytesAt g g.tx_rd k := Ring.contents_eq_map (by omega)
  rw [← hr.live_eq, Ring.contents_take g.tx_buf hk', hmap]

/-- The device after a `write` that accepted `written` bytes. -/
def advance (g : FileuartDev) (written : Nat) : FileuartDev :=
  { g with
    tx_rd := (g.tx_rd + written) % CONFIG_FILEUART_TX_BUF_SIZE
    tx_count := g.tx_count - written
    dirty_bytes := g.dirty_bytes + written }

/-- Advancing the read index hands out the oldest bytes. -/
theorem refines_advance {g : FileuartDev}
    {h : LossyFifo UInt8 CONFIG_FILEUART_TX_BUF_SIZE} (hr : Refines g h) {written : Nat}
    (hle : written ≤ g.tx_count) : Refines (advance g written) (h.pop written) where
  reachable := hr.reachable.pop written
  rd_lt := Nat.mod_lt _ size_pos
  wt_eq := by
    show g.tx_wt = ((g.tx_rd + written) % _ + (g.tx_count - written)) % _
    rw [Nat.mod_add_mod, Nat.add_assoc, Nat.add_sub_cancel' hle]
    exact hr.wt_eq
  live_eq := by
    show Ring.contents g.tx_buf _ ((g.tx_rd + written) % _) (g.tx_count - written) = _
    rw [Ring.contents_mod, Ring.contents_drop, hr.live_eq, LossyFifo.live_pop]

theorem refines_close {g : FileuartDev}
    {h : LossyFifo UInt8 CONFIG_FILEUART_TX_BUF_SIZE} (hr : Refines g h) (clear_mount : Bool) :
    Refines (fileuart_close_log_locked g clear_mount) h :=
  hr.congr rfl rfl rfl rfl

theorem refines_open {g : FileuartDev}
    {h : LossyFifo UInt8 CONFIG_FILEUART_TX_BUF_SIZE} (hr : Refines g h) (fd : Int) :
    Refines (fileuart_open_mounted_log_locked g fd).1 h := by
  unfold fileuart_open_mounted_log_locked
  split
  · exact hr
  · split
    · exact hr
    · split
      · exact hr
      · split
        · exact hr.congr rfl rfl rfl rfl
        · exact hr.congr rfl rfl rfl rfl

/-- The queue after `data` was handed out of `h`, held by the ring of `g`. -/
def HandedOut (h : LossyFifo UInt8 CONFIG_FILEUART_TX_BUF_SIZE) (g : FileuartDev)
    (data : List UInt8) : Prop :=
  ∃ h' : LossyFifo UInt8 CONFIG_FILEUART_TX_BUF_SIZE,
    Refines g h' ∧ h'.stream = h.stream ∧ h'.kept = h.kept ++ data

theorem HandedOut.nothing {g : FileuartDev}
    {h : LossyFifo UInt8 CONFIG_FILEUART_TX_BUF_SIZE} (hr : Refines g h) :
    HandedOut h g [] :=
  ⟨h, hr, rfl, (List.append_nil _).symm⟩

/-- The flush loop hands out the oldest bytes, whatever its calls of `write` answer. -/
theorem refines_flushLoop {g : FileuartDev}
    {h : LossyFifo UInt8 CONFIG_FILEUART_TX_BUF_SIZE} (hr : Refines g h)
    (answers : List Int) :
    HandedOut h (flushLoop g answers).1 (flushLoop g answers).2.1 := by
  induction answers generalizing g h with
  | nil =>
    unfold flushLoop
    split
    · exact .nothing (refines_close hr false)
    · exact .nothing hr
  | cons answer answers ih =>
    unfold flushLoop
    split
    · dsimp only
      split
      · exact .nothing (refines_close hr false)
      · -- the answer is positive: one iteration is a `pop`
        have hle : min answer.toNat (chunkSize g) ≤ chunkSize g := Nat.min_le_right _ _
        have hcount := (chunkSize_le g hr.rd_lt hr.wt_lt).1
        generalize min answer.toNat (chunkSize g) = written at hle ⊢
        have hdata := hr.bytesAt_eq hle
        have hpop := refines_advance hr (Nat.le_trans hle hcount)
        have hkept := LossyFifo.kept_pop h written
        split
        · -- a short write leaves the loop
          exact ⟨_, hpop, rfl, by rw [hkept, hdata]⟩
        · obtain ⟨h', hr', hstream, hkept'⟩ := ih hpop
          refine ⟨h', hr', hstream, ?_⟩
          rw [hkept', hkept, List.append_assoc, hdata]
          rfl
    · exact .nothing hr

/-- So does the whole flush. -/
theorem refines_flush {g : FileuartDev}
    {h : LossyFifo UInt8 CONFIG_FILEUART_TX_BUF_SIZE} (hr : Refines g h) (r : FlushAnswers) :
    HandedOut h (fileuart_flush_locked g r).1 (fileuart_flush_locked g r).2 := by
  unfold fileuart_flush_locked
  split
  · exact .nothing hr
  · have hopen := refines_open hr r.fd
    generalize fileuart_open_mounted_log_locked g r.fd = res at hopen ⊢
    obtain ⟨g₁, opened⟩ := res
    dsimp only at hopen ⊢
    split
    · exact .nothing hopen
    · obtain ⟨h', hr', hstream, hkept⟩ := refines_flushLoop hopen r.writes
      generalize flushLoop g₁ r.writes = res at hr' hkept ⊢
      obtain ⟨g₂, data, returned⟩ := res
      dsimp only at hr' hkept ⊢
      -- what is left only touches the file descriptor and `dirty_bytes`
      split
      · exact ⟨h', hr', hstream, hkept⟩
      · split
        · split
          · exact ⟨h', hr'.congr rfl rfl rfl rfl, hstream, hkept⟩
          · exact ⟨h', refines_close hr' false, hstream, hkept⟩
        · exact ⟨h', hr', hstream, hkept⟩

/-! ### Mount, unmount and suspend leave the ring alone -/

theorem refines_mount {g : FileuartDev}
    {h : LossyFifo UInt8 CONFIG_FILEUART_TX_BUF_SIZE} (hr : Refines g h)
    (dev : Option CString) : Refines (fileuart_mount_locked g dev) h := by
  unfold fileuart_mount_locked
  split
  · exact hr
  · exact hr
  · dsimp only
    split
    · exact hr.congr rfl rfl rfl rfl
    · exact hr.congr rfl rfl rfl rfl

theorem refines_umount {g : FileuartDev}
    {h : LossyFifo UInt8 CONFIG_FILEUART_TX_BUF_SIZE} (hr : Refines g h)
    (dev : Option CString) : Refines (fileuart_umount_locked g dev) h := by
  unfold fileuart_umount_locked
  split
  · exact refines_close hr true
  · exact hr

theorem refines_suspend {g : FileuartDev}
    {h : LossyFifo UInt8 CONFIG_FILEUART_TX_BUF_SIZE} (hr : Refines g h) (suspended : Bool) :
    Refines (fileuart_suspend_locked g suspended) h := by
  unfold fileuart_suspend_locked
  split
  · exact hr.congr rfl rfl rfl rfl
  · split
    · exact hr.congr rfl rfl rfl rfl
    · exact hr

@[simp] theorem fileuart_schedule_flush_dev (s : State) :
    (fileuart_schedule_flush s).dev = s.dev := by
  unfold fileuart_schedule_flush
  split <;> rfl

@[simp] theorem fileuart_schedule_flush_file (s : State) :
    (fileuart_schedule_flush s).file = s.file := by
  unfold fileuart_schedule_flush
  split <;> rfl

/-! ### Runs -/

/-- The ring and the file of `s` are those of a queue that accepted `stream`. -/
def Logged (stream : List UInt8) (s : State) : Prop :=
  ∃ h : LossyFifo UInt8 CONFIG_FILEUART_TX_BUF_SIZE,
    Refines s.dev h ∧ h.stream = stream ∧ h.kept = s.file

theorem Logged.congr {stream : List UInt8} {s s' : State} (hs : Logged stream s)
    (hdev : s'.dev = s.dev) (hfile : s'.file = s.file) : Logged stream s' := by
  unfold Logged
  rw [hdev, hfile]
  exact hs

theorem Logged.schedule {stream : List UInt8} {s : State} (hs : Logged stream s) :
    Logged stream (fileuart_schedule_flush s) :=
  hs.congr (fileuart_schedule_flush_dev s) (fileuart_schedule_flush_file s)

theorem logged_init : Logged [] init := ⟨.empty, refines_init, rfl, rfl⟩

/-- A write appends its newline expansion to the stream. -/
theorem logged_write {stream : List UInt8} {s : State} (hs : Logged stream s)
    (buf : List UInt8) : Logged (stream ++ expand buf) (fileuart_write s buf) := by
  obtain ⟨h, hr, hstream, hkept⟩ := hs
  apply Logged.schedule
  refine ⟨h.pushAll (expand buf), refines_enqueue hr buf, ?_, ?_⟩
  · rw [LossyFifo.pushAll_stream, hstream]
  · rw [LossyFifo.kept_pushAll]
    exact hkept

/-- The delayed work moves the oldest bytes from the ring to the file. -/
theorem logged_delayed_work {stream : List UInt8} {s : State} (hs : Logged stream s)
    (r : FlushAnswers) : Logged stream (fileuart_delayed_work s r) := by
  obtain ⟨h, hr, hstream, hkept⟩ := hs
  have hout : HandedOut h
      (if s.dev.suspend_depth = 0 then fileuart_flush_locked s.dev r else (s.dev, [])).1
      (if s.dev.suspend_depth = 0 then fileuart_flush_locked s.dev r else (s.dev, [])).2 := by
    split
    · exact refines_flush hr r
    · exact .nothing hr
  unfold fileuart_delayed_work
  generalize (if s.dev.suspend_depth = 0 then fileuart_flush_locked s.dev r
    else (s.dev, [])) = res at hout ⊢
  obtain ⟨dev, data⟩ := res
  obtain ⟨h', hr', hstream', hkept'⟩ := hout
  have hlogged : Logged stream { s with dev := dev, file := s.file ++ data } :=
    ⟨h', hr', hstream'.trans hstream, by rw [hkept', hkept]⟩
  dsimp only
  split
  · exact hlogged.schedule
  · exact hlogged

theorem logged_suspend {stream : List UInt8} {s : State} (hs : Logged stream s)
    (suspended : Bool) : Logged stream (fileuart_set_storage_suspended s suspended) := by
  obtain ⟨h, hr, hstream, hkept⟩ := hs
  have hlogged : Logged stream { s with dev := fileuart_suspend_locked s.dev suspended } :=
    ⟨h, refines_suspend hr suspended, hstream, hkept⟩
  unfold fileuart_set_storage_suspended
  dsimp only
  split
  · exact hlogged.schedule
  · exact hlogged

/-- One operation extends the history of the ring by what it accepts. -/
theorem logged_step {stream : List UInt8} {s s' : State} {a : Action}
    (hs : Logged stream s) (hstep : step s a = some s') :
    Logged (stream ++ accepted [a]) s' := by
  cases a with
  | write buf =>
    cases hstep
    have := logged_write hs buf
    simpa [accepted] using this
  | flush r =>
    simp only [step] at hstep
    split at hstep
    · cases hstep
    · cases hstep
      rename_i wq _
      have htaken : Logged stream { s with wq := wq } := hs.congr rfl rfl
      have hwork := logged_delayed_work htaken r
      generalize fileuart_delayed_work { s with wq := wq } r = t at hwork ⊢
      have hdone : Logged stream { t with wq := t.wq.finish () } := hwork.congr rfl rfl
      simpa [accepted] using hdone
  | mount dev =>
    cases hstep
    obtain ⟨h, hr, hstream, hkept⟩ := hs
    have hlogged : Logged stream { s with dev := fileuart_mount_locked s.dev dev } :=
      ⟨h, refines_mount hr dev, hstream, hkept⟩
    simpa [accepted] using hlogged.schedule
  | umount dev =>
    cases hstep
    obtain ⟨h, hr, hstream, hkept⟩ := hs
    have hlogged : Logged stream { s with dev := fileuart_umount_locked s.dev dev } :=
      ⟨h, refines_umount hr dev, hstream, hkept⟩
    simpa [accepted] using hlogged
  | setSuspended suspended =>
    cases hstep
    simpa [accepted] using logged_suspend hs suspended

theorem accepted_cons (a : Action) (tr : List Action) :
    accepted (a :: tr) = accepted [a] ++ accepted tr := by
  simp [accepted]

/-- A run extends the history of the ring by what it accepts. -/
theorem logged_run {stream : List UInt8} {s s' : State} {tr : List Action}
    (hs : Logged stream s) (hrun : Lts.run step s tr = some s') :
    Logged (stream ++ accepted tr) s' := by
  -- the history grows along the run, so it is generalised with the start state
  induction tr generalizing stream s with
  | nil =>
    cases hrun
    simpa [accepted] using hs
  | cons a tr ih =>
    obtain ⟨t, ht, hrun'⟩ := (Lts.run_cons_some step).mp hrun
    have htail := ih (logged_step hs ht) hrun'
    rw [accepted_cons, ← List.append_assoc]
    exact htail

/-- After every serialised run, the ring holds the last `tx_count` accepted bytes, and each
    byte before them was either written to the file, in order, or dropped as the oldest byte
    of a full ring. -/
theorem ring_run (tr : List Action) (s : State) (hrun : Lts.run step init tr = some s) :
    s.dev.tx_count ≤ CONFIG_FILEUART_TX_BUF_SIZE ∧
    s.dev.tx_wt = (s.dev.tx_rd + s.dev.tx_count) % CONFIG_FILEUART_TX_BUF_SIZE ∧
    Ring.contents s.dev.tx_buf CONFIG_FILEUART_TX_BUF_SIZE s.dev.tx_rd s.dev.tx_count =
      (accepted tr).drop ((accepted tr).length - s.dev.tx_count) ∧
    s.file.Sublist (accepted tr) ∧
    ∃ h : LossyFifo UInt8 CONFIG_FILEUART_TX_BUF_SIZE,
      h.Reachable ∧ h.stream = accepted tr ∧ h.kept = s.file ∧
      h.fates.length + s.dev.tx_count = (accepted tr).length ∧
      ∀ i, h.fates[i]? = some .dropped →
        i + CONFIG_FILEUART_TX_BUF_SIZE < (accepted tr).length := by
  have hlogged := logged_run logged_init hrun
  rw [List.nil_append] at hlogged
  obtain ⟨h, hr, hstream, hkept⟩ := hlogged
  have hlen := h.length_add_live
  rw [← hr.count_eq, hstream] at hlen
  refine ⟨hr.count_le, hr.wt_eq, ?_, ?_, h, hr.reachable, hstream, hkept, hlen, ?_⟩
  · rw [hr.live_eq, LossyFifo.live, hstream]
    congr 1
    omega
  · rw [← hkept, ← hstream]
    exact h.kept_sublist
  · rw [← hstream]
    exact h.overwritten

/-- A line is logged, a storage device is mounted, and the worker writes two of the three
    bytes. -/
def mountRun : List Action :=
  [.write [97, 10], .mount (some [115, 100, 97]), .flush ⟨3, [2], 0⟩]

theorem ring_run_mountRun :
    ∃ s, Lts.run step init mountRun = some s ∧ s.file = [97, 13] ∧
      Ring.contents s.dev.tx_buf CONFIG_FILEUART_TX_BUF_SIZE s.dev.tx_rd s.dev.tx_count =
        (accepted mountRun).drop ((accepted mountRun).length - s.dev.tx_count) := by
  have hfile : (Lts.run step init mountRun).map State.file = some [97, 13] := by decide
  obtain ⟨s, hs, hsfile⟩ := Option.map_eq_some_iff.mp hfile
  obtain ⟨-, -, hlive, -⟩ := ring_run mountRun s hs
  exact ⟨s, hs, hsfile, hlive⟩

end Hcrtos.Native.Fileuart
