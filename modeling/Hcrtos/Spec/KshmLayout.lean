import Hcrtos.ForStd.MessageRing
import Hcrtos.Native.Kshm

/-!
# What the ring functions do to the layout of the messages

A descriptor holds messages of given sizes when its indices and their rounded sizes are a
`MessageRing.Layout`. Each function of the ring is one operation of such a layout.

## Key results

- `request_write_spec`: what a granted write request points to
- `Holds.update_write`, `Holds.update_read`: the indices after an update
- `Holds.request_read`: a read request for the oldest message finds it
-/

namespace Hcrtos.Native.Kshm

open Word MessageRing

/-! ### Rounding -/

/-- Sizes up to `2 ^ 32 - 32` are rounded without wrapping around. -/
theorem ROUNDUP32_eq {n : Nat} (h : n ≤ 2 ^ 32 - 32) : ROUNDUP32 n = (n + 31) / 32 * 32 := by
  unfold ROUNDUP32
  rw [add32_of_lt (by omega)]

theorem le_ROUNDUP32 {n : Nat} (h : n ≤ 2 ^ 32 - 32) : n ≤ ROUNDUP32 n := by
  rw [ROUNDUP32_eq h]
  omega

theorem ROUNDUP32_pos {n : Nat} (h : n ≤ 2 ^ 32 - 32) (hpos : n ≠ 0) : 0 < ROUNDUP32 n :=
  Nat.lt_of_lt_of_le (Nat.pos_of_ne_zero hpos) (le_ROUNDUP32 h)

theorem ROUNDUP32_aligned (n : Nat) : ROUNDUP32 n % 32 = 0 := Nat.mul_mod_left _ _

theorem ROUNDUP32_of_wrap {n : Nat} (h : 2 ^ 32 - 32 < n) (hn : n < 2 ^ 32) : ROUNDUP32 n = 0 := by
  unfold ROUNDUP32 add32
  omega

/-! ### Descriptors -/

variable {cfg : KshmCfg} {d : KshmDesc}

theorem KshmCfg.size_le (cfg : KshmCfg) : cfg.size ≤ 2 ^ 31 := by
  have := cfg.base_kernel
  have := cfg.base_end
  omega

/-- The messages of sizes `ns` stand between the indices of `d`. -/
structure Holds (cfg : KshmCfg) (d : KshmDesc) (ns : List Nat) : Prop where
  layout : Layout cfg.size (d.rd d.index) (d.wt d.index) (ns.map ROUNDUP32)
  size_le : ∀ n ∈ ns, n ≠ 0 ∧ n ≤ 2 ^ 32 - 32 ∧ ROUNDUP32 n ≤ cfg.size
  rd_aligned : d.rd d.index % 32 = 0
  wt_aligned : d.wt d.index % 32 = 0

theorem holds_init (cfg : KshmCfg) : Holds cfg .init [] where
  layout := Layout.empty cfg.size_pos
  size_le := by simp
  rd_aligned := rfl
  wt_aligned := rfl

theorem Holds.nil_of_eq {ns : List Nat} (h : Holds cfg d ns)
    (heq : d.rd d.index = d.wt d.index) : ns = [] := by
  have hpos : ∀ s ∈ ns.map ROUNDUP32, 0 < s := by
    intro s hs
    obtain ⟨n, hn, rfl⟩ := List.mem_map.mp hs
    obtain ⟨hn0, hmax, -⟩ := h.size_le n hn
    exact ROUNDUP32_pos hmax hn0
  exact List.map_eq_nil_iff.mp (h.layout.eq_nil hpos heq)

/-- Indices and rounded sizes are small enough for their sum not to wrap around. -/
theorem advance_eq {i s : Nat} (hi : i < cfg.size) (hs : s ≤ cfg.size) :
    advance cfg i s = next cfg.size i s := by
  have := cfg.size_le
  unfold advance next
  rw [add32_of_lt (by omega)]

theorem next_aligned {cap i s : Nat} (hi : i % 32 = 0) (hs : s % 32 = 0) :
    next cap i s % 32 = 0 := by
  unfold next
  split
  · exact hs
  · split <;> omega

/-! ### Requests and updates -/

/-- The areas that `kshm_request_write` looks at. -/
theorem tailHead_eq (hrd : d.rd d.index < cfg.size) (hwt : d.wt d.index < cfg.size) :
    tailHead cfg d =
      if d.rd d.index ≤ d.wt d.index then (cfg.size - d.wt d.index, d.rd d.index)
      else (d.rd d.index - d.wt d.index, 0) := by
  have := cfg.size_le
  unfold tailHead
  dsimp only
  split
  · rw [sub32_of_le (by omega) (by omega)]
  · rw [sub32_of_le (by omega) (by omega)]

theorem special_reset_rd (d : KshmDesc) :
    (kshm_special_reset d).rd (kshm_special_reset d).index = 0 := by
  simp [kshm_special_reset]

theorem special_reset_wt (d : KshmDesc) :
    (kshm_special_reset d).wt (kshm_special_reset d).index = 0 := by
  simp [kshm_special_reset]

/-- What the test of `kshm_request_write` says before it resets the ring. -/
theorem room_afterReset {s : Nat} (hrd : d.rd d.index < cfg.size) (hwt : d.wt d.index < cfg.size)
    (hreserved : d.reserved d.index = 0) (hs : s < 2 ^ 32)
    (hroom : room cfg d s = .afterReset) :
    d.rd d.index = d.wt d.index ∧ d.rd d.index ≠ 0 ∧ s ≤ cfg.size := by
  have hadd : add32 (d.reserved d.index) s = s := by
    rw [hreserved, add32_of_lt (by omega), Nat.zero_add]
  have hareas := tailHead_eq hrd hwt
  unfold room at hroom
  dsimp only at hroom
  rw [hadd] at hroom
  by_cases heq : d.rd d.index = d.wt d.index
  · rw [if_pos (Nat.le_of_eq heq)] at hareas
    rw [hareas, if_pos heq] at hroom
    split at hroom
    · rename_i hsmall
      split at hroom
      · cases hroom
      · -- at index 0, the whole ring would have been behind `wt`
        refine ⟨heq, ?_, by omega⟩
        simp only at hsmall
        omega
    · cases hroom
  · rw [if_neg heq] at hroom
    split at hroom <;> cases hroom

/-- A refused request leaves the descriptor alone. -/
theorem request_write_refused {n : Nat} {d' : KshmDesc}
    (h : kshm_request_write cfg d n = (d', none)) : d' = d := by
  unfold kshm_request_write at h
  split at h
  · cases h
    rfl
  · dsimp only at h
    split at h
    · cases h
      rfl
    · cases h
    · split at h
      · cases h
      · split at h
        · cases h
        · split at h <;> cases h
          rfl

/-- A granted request that did not reset the ring points to a free place. -/
theorem request_write_spec {n p : Nat} {d' : KshmDesc} (hrd : d.rd d.index < cfg.size)
    (hwt : d.wt d.index < cfg.size) (hroom : room cfg d (ROUNDUP32 n) ≠ .afterReset)
    (h : kshm_request_write cfg d n = (d', some p)) :
    d' = d ∧ n ≠ 0 ∧ ∃ off, p = cfg.base + off ∧
      Free cfg.size (d.rd d.index) (d.wt d.index) (ROUNDUP32 n) off := by
  have hbase := cfg.base_end
  unfold kshm_request_write at h
  split at h
  · cases h
  · rename_i hn
    dsimp only at h
    cases hr : room cfg d (ROUNDUP32 n) with
    | none => simp [hr] at h
    | afterReset => exact absurd hr hroom
    | enough =>
      rw [hr, tailHead_eq hrd hwt, add32_of_lt (by omega)] at h
      generalize ROUNDUP32 n = s at h ⊢
      by_cases hle : d.rd d.index ≤ d.wt d.index
      · simp only [if_pos hle] at h
        split at h
        · cases h
          exact ⟨rfl, hn, _, rfl, .behind hle (.inl (by omega))⟩
        · split at h
          · cases h
            exact ⟨rfl, hn, _, rfl, .behind hle (.inr (by omega))⟩
          · split at h
            · cases h
              exact ⟨rfl, hn, 0, rfl, .start hle (by omega) (by omega)⟩
            · cases h
      · simp only [if_neg hle] at h
        split at h
        · cases h
          exact ⟨rfl, hn, _, rfl, .between (by omega) (by omega)⟩
        · split at h
          · omega
          · split at h
            · omega
            · cases h

theorem kshm_update_write_eq {n : Nat} (hn : n ≠ 0) (hwt : d.wt d.index < cfg.size)
    (hs : ROUNDUP32 n ≤ cfg.size) :
    kshm_update_write cfg d n =
      { d with
        wt := Function.update d.wt d.index
          (next cfg.size (d.wt d.index) (ROUNDUP32 n)) } := by
  unfold kshm_update_write
  rw [if_neg hn]
  dsimp only
  rw [advance_eq hwt hs]

theorem kshm_update_read_eq {n : Nat} (hrd : d.rd d.index < cfg.size)
    (hs : ROUNDUP32 n ≤ cfg.size) :
    kshm_update_read cfg d n =
      { d with
        rd := Function.update d.rd d.index
          (next cfg.size (d.rd d.index) (ROUNDUP32 n)) } := by
  unfold kshm_update_read
  dsimp only
  rw [advance_eq hrd hs]

/-- Committing a message that was put into a free place. -/
theorem Holds.update_write {ns : List Nat} {n off : Nat} (h : Holds cfg d ns) (hn : n ≠ 0)
    (hmax : n ≤ 2 ^ 32 - 32)
    (hfree : Free cfg.size (d.rd d.index) (d.wt d.index) (ROUNDUP32 n) off) :
    Holds cfg (kshm_update_write cfg d n) (ns ++ [n]) := by
  have hrd := h.layout.rd_lt
  have hs : ROUNDUP32 n ≤ cfg.size := Nat.le_trans (Nat.le_add_left _ _) (hfree.le_cap hrd)
  rw [kshm_update_write_eq hn h.layout.wt_lt hs]
  constructor
  · have hpush := h.layout.push hfree
    simpa using hpush
  · intro m hm
    obtain hm' | hm' := List.mem_append.mp hm
    · exact h.size_le m hm'
    · cases List.mem_singleton.mp hm'
      exact ⟨hn, hmax, hs⟩
  · exact h.rd_aligned
  · show Function.update d.wt d.index _ d.index % 32 = 0
    rw [Function.update_self]
    exact next_aligned h.wt_aligned (ROUNDUP32_aligned n)

/-- Committing the read of the oldest message. -/
theorem Holds.update_read {ns : List Nat} {n : Nat} (h : Holds cfg d (n :: ns)) :
    Holds cfg (kshm_update_read cfg d n) ns := by
  obtain ⟨-, -, hs⟩ := h.size_le n List.mem_cons_self
  rw [kshm_update_read_eq h.layout.rd_lt hs]
  constructor
  · have hpop := h.layout.pop
    simpa using hpop
  · intro m hm
    exact h.size_le m (List.mem_cons_of_mem n hm)
  · show Function.update d.rd d.index _ d.index % 32 = 0
    rw [Function.update_self]
    exact next_aligned h.rd_aligned (ROUNDUP32_aligned n)
  · exact h.wt_aligned

/-- The cells that a read may be handed. -/
def available (cfg : KshmCfg) (rd wt : Nat) : Nat :=
  if rd ≤ wt then wt - rd else max (cfg.size - rd) wt

theorem available_eq {rd wt : Nat} (hrd : rd < cfg.size) (hwt : wt < cfg.size) :
    (if wt ≥ rd then sub32 wt rd else max (sub32 cfg.size rd) wt) = available cfg rd wt := by
  have hsize := cfg.size_le
  unfold available
  split
  · rw [sub32_of_le (by omega) (by omega)]
  · rw [sub32_of_le (by omega) (by omega)]

theorem available_le {rd wt : Nat} (hwt : wt < cfg.size) : available cfg rd wt ≤ cfg.size := by
  unfold available
  split <;> omega

/-- What `kshm_request_read` comes to. -/
theorem request_read_eq {n : Nat} (hn : n ≠ 0) (hrd : d.rd d.index < cfg.size)
    (hwt : d.wt d.index < cfg.size) :
    kshm_request_read cfg d n =
      if available cfg (d.rd d.index) (d.wt d.index) < ROUNDUP32 n then none
      else some (cfg.base + place cfg.size (d.rd d.index) (ROUNDUP32 n)) := by
  have hbase := cfg.base_end
  have hsize := cfg.size_le
  have hle : available cfg (d.rd d.index) (d.wt d.index) ≤ cfg.size := available_le hwt
  unfold kshm_request_read
  rw [if_neg hn]
  dsimp only
  rw [available_eq hrd hwt]
  split
  · rfl
  · -- the size is at most what is available, so the sum is a word
    rw [add32_of_lt (show d.rd d.index + ROUNDUP32 n < 2 ^ 32 by omega)]
    unfold place
    split
    · rfl
    · rw [add32_of_lt (by omega)]

/-- A request for the oldest message is granted, and points to it. -/
theorem Holds.request_read {ns : List Nat} {n : Nat} (h : Holds cfg d (n :: ns)) :
    kshm_request_read cfg d n =
      some (cfg.base + place cfg.size (d.rd d.index) (ROUNDUP32 n)) := by
  obtain ⟨hn, -, hs⟩ := h.size_le n List.mem_cons_self
  have hhead := h.layout.head_cases
  rw [request_read_eq hn h.layout.rd_lt h.layout.wt_lt, if_neg]
  unfold available
  split <;> omega

/-- A request on an empty ring is refused. -/
theorem Holds.request_read_nil {n : Nat} (h : Holds cfg d []) (hn : n ≠ 0)
    (hmax : n ≤ 2 ^ 32 - 32) : kshm_request_read cfg d n = none := by
  have heq : d.rd d.index = d.wt d.index := h.layout.walk_eq
  have hpos := ROUNDUP32_pos hmax hn
  have hnone : available cfg (d.rd d.index) (d.wt d.index) = 0 := by
    unfold available
    rw [if_pos (Nat.le_of_eq heq), heq, Nat.sub_self]
  rw [request_read_eq hn h.layout.rd_lt h.layout.wt_lt, hnone, if_pos hpos]

/-- Indices outside of the current pair, and the other fields, do not matter. -/
theorem Holds.congr {d' : KshmDesc} {ns : List Nat} (h : Holds cfg d ns)
    (hrd : d'.rd d'.index = d.rd d.index) (hwt : d'.wt d'.index = d.wt d.index) :
    Holds cfg d' ns where
  layout := by rw [hrd, hwt]; exact h.layout
  size_le := h.size_le
  rd_aligned := by rw [hrd]; exact h.rd_aligned
  wt_aligned := by rw [hwt]; exact h.wt_aligned

theorem kernel_start : 2 ^ 31 ≤ 2 ^ 31 := Nat.le_refl _

/-- A ring of two lines at the start of the kernel's memory. -/
def twoLines : KshmCfg where
  base := 2 ^ 31
  size := 64
  dma_ch := -1
  size_pos := by decide
  size_aligned := by decide
  base_kernel := kernel_start
  base_end := by decide

/-- A ring of four lines at the start of the kernel's memory. -/
def fourLines : KshmCfg where
  base := 2 ^ 31
  size := 128
  dma_ch := -1
  size_pos := by decide
  size_aligned := by decide
  base_kernel := kernel_start
  base_end := by decide

end Hcrtos.Native.Kshm
