import Mathlib.Data.List.GetD
import Hcrtos.ForStd.Mealy
import Hcrtos.Native.RcMain

/-!
# The key map of a remote control

The table stands for a partial function from scancodes to key codes. Requests that change it are
explained by that function alone, whatever `kmalloc` answers.

## Key results

- `ir_establish_scancode_new`, `Shape.ir_update_mapping_spec`: the two parts of a request
- `keymap_refines`: the replies to a list of requests, and the key codes after them
- `ir_setkeytable_spec`, `ir_setkeytable_of_nodup`: a table that is loaded
-/

namespace Hcrtos.Native.Rc.RcMap

open SortedTable Mealy

/-- What holds of the table at every moment: it is sorted, its entries fit, and it is as large as
    its memory, a power of two. -/
structure Shape (m : RcMap) : Prop where
  sorted : Sorted RcMapTable.scancode m.scan
  fits : m.len ≤ m.size
  alloc : ∃ k, m.alloc = ENTRY_SIZE * 2 ^ k ∧ m.size = 2 ^ k
  word : m.alloc < 2 ^ 32

/-- The key code of a scancode. -/
def keycodes (m : RcMap) (scancode : Nat) : Option Nat :=
  (lookup RcMapTable.scancode m.scan scancode).map RcMapTable.keycode

/-- No scancode has one of the codes for no key. -/
def Proper (f : Nat → Option Nat) : Prop :=
  ∀ scancode keycode, f scancode = some keycode → keycode ≠ KEY_RESERVED ∧ keycode ≠ KEY_UNKNOWN

/-- What holds between requests. -/
structure Wf (m : RcMap) : Prop extends Shape m where
  proper : Proper m.keycodes

/-- The key codes after a scancode is given one, or none. -/
def assign (f : Nat → Option Nat) (scancode keycode : Nat) : Nat → Option Nat :=
  Function.update f scancode
    (if keycode = KEY_RESERVED ∨ keycode = KEY_UNKNOWN then none else some keycode)

theorem Proper.assign {f : Nat → Option Nat} (h : Proper f) (scancode keycode : Nat) :
    Proper (assign f scancode keycode) := by
  intro sc kc hsc
  rw [RcMap.assign, Function.update_apply] at hsc
  split at hsc
  · split at hsc
    · cases hsc
    · next hne =>
      cases hsc
      exact not_or.mp hne
  · exact h sc kc hsc

/-- A code that is assigned replaces the one that was there. -/
theorem assign_update (f : Nat → Option Nat) (scancode keycode : Nat) (x : Option Nat) :
    assign (Function.update f scancode x) scancode keycode = assign f scancode keycode :=
  Function.update_idem ..

/-! ### Resizing -/

@[simp] theorem scan_resize (m : RcMap) (ok : Bool) : (m.ir_resize_table ok).1.scan = m.scan := by
  unfold ir_resize_table
  simp only
  split_ifs <;> rfl

theorem Shape.size_pos {m : RcMap} (h : m.Shape) : 0 < m.size := by
  obtain ⟨k, -, hsize⟩ := h.alloc
  rw [hsize]
  exact Nat.two_pow_pos k

theorem Shape.alloc_eq {m : RcMap} (h : m.Shape) : m.alloc = 16 * m.size := by
  obtain ⟨k, halloc, hsize⟩ := h.alloc
  rw [halloc, hsize]
  rfl

/-- The table with its memory doubled. -/
def doubled (m : RcMap) : RcMap := { m with alloc := m.alloc * 2, size := m.size * 2 }

/-- The table with half of its memory. -/
def halved (m : RcMap) : RcMap := { m with alloc := m.alloc / 2, size := m.size / 2 }

/-- A full table grows, up to its limit. -/
theorem Shape.resize_full {m : RcMap} (h : m.Shape) (ok : Bool) (hfull : m.size = m.len) :
    m.ir_resize_table ok =
      if m.alloc < IR_TAB_MAX_SIZE ∧ ok = true then (m.doubled, 0) else (m, -ENOMEM) := by
  have hpos := h.size_pos
  have hentry := h.alloc_eq
  unfold ir_resize_table
  by_cases hmax : m.alloc ≥ IR_TAB_MAX_SIZE
  · rw [if_pos ⟨hfull, hmax⟩, if_neg fun hlt => absurd hmax (Nat.not_le.mpr hlt.1)]
  · rw [if_neg fun hx => hmax hx.2]
    have hnoshrink : ¬ (m.len * 3 < m.size ∧ m.alloc > IR_TAB_MIN_SIZE) := by omega
    have hne : ¬ m.alloc * 2 = m.alloc := by omega
    have hdiv : m.alloc * 2 / ENTRY_SIZE = m.size * 2 := by
      show m.alloc * 2 / 16 = m.size * 2
      omega
    simp only [if_pos hfull, if_neg hnoshrink, if_neg hne, hdiv]
    cases ok with
    | false => rw [if_pos rfl, if_neg fun hx => Bool.false_ne_true hx.2]
    | true => rw [if_neg Bool.noConfusion, if_pos ⟨Nat.not_le.mp hmax, rfl⟩]; rfl

/-- A table that is not full may shrink. -/
theorem Shape.resize_room {m : RcMap} (h : m.Shape) (ok : Bool) (hroom : m.size ≠ m.len) :
    m.ir_resize_table ok =
      if m.len * 3 < m.size ∧ m.alloc > IR_TAB_MIN_SIZE then
        if ok = true then (m.halved, 0) else (m, -ENOMEM)
      else (m, 0) := by
  have hpos := h.size_pos
  have hentry := h.alloc_eq
  unfold ir_resize_table
  rw [if_neg fun hx => hroom hx.1]
  simp only [if_neg hroom]
  by_cases hshrink : m.len * 3 < m.size ∧ m.alloc > IR_TAB_MIN_SIZE
  · have hne : ¬ m.alloc / 2 = m.alloc := by omega
    have hdiv : m.alloc / 2 / ENTRY_SIZE = m.size / 2 := by
      show m.alloc / 2 / 16 = m.size / 2
      omega
    simp only [if_pos hshrink, if_neg hne, hdiv]
    cases ok with
    | false => rfl
    | true => rfl
  · simp only [if_neg hshrink, if_pos]

theorem Shape.doubled {m : RcMap} (h : m.Shape) (hmax : m.alloc < IR_TAB_MAX_SIZE) :
    m.doubled.Shape where
  sorted := h.sorted
  fits := by
    have hfits := h.fits
    show m.len ≤ m.size * 2
    omega
  alloc := by
    obtain ⟨k, halloc, hsize⟩ := h.alloc
    refine ⟨k + 1, ?_, ?_⟩
    · show m.alloc * 2 = _
      rw [halloc, Nat.pow_succ, Nat.mul_assoc]
    · show m.size * 2 = _
      rw [hsize, Nat.pow_succ]
  word := by
    have hmax' : m.alloc < 8192 := hmax
    show m.alloc * 2 < 2 ^ 32
    omega

/-- The entries still fit when the table shrinks. -/
theorem Shape.halved {m : RcMap} (h : m.Shape) (hshrink : m.len * 3 < m.size)
    (hmin : m.alloc > IR_TAB_MIN_SIZE) : m.halved.Shape where
  sorted := h.sorted
  fits := by
    show m.len ≤ m.size / 2
    omega
  alloc := by
    obtain ⟨k, halloc, hsize⟩ := h.alloc
    have hmin' : 256 < m.alloc := hmin
    cases k with
    | zero =>
      have hsmall : m.alloc = 16 := halloc
      omega
    | succ k =>
      refine ⟨k, ?_, ?_⟩
      · show m.alloc / 2 = _
        rw [halloc, Nat.pow_succ, ← Nat.mul_assoc, Nat.mul_div_cancel _ (by decide)]
      · show m.size / 2 = _
        rw [hsize, Nat.pow_succ, Nat.mul_div_cancel _ (by decide)]
  word := by
    have hword := h.word
    show m.alloc / 2 < 2 ^ 32
    omega

theorem Shape.resize {m : RcMap} (h : m.Shape) (ok : Bool) : (m.ir_resize_table ok).1.Shape := by
  by_cases hfull : m.size = m.len
  · rw [h.resize_full ok hfull]
    split
    · next hgrow => exact h.doubled hgrow.1
    · exact h
  · rw [h.resize_room ok hfull]
    split
    · next hshrink =>
      split
      · exact h.halved hshrink.1 hshrink.2
      · exact h
    · exact h

/-! ### Establishing a scancode -/

/-- The scancode that is meant, with the mask of the device. -/
def masked (scancode_mask scancode : Nat) : Nat :=
  if scancode_mask ≠ 0 then scancode &&& scancode_mask else scancode

theorem seek_fst (scancode : Nat) (xs : List RcMapTable) (i : Nat) :
    (seek scancode xs i).1 = i + place RcMapTable.scancode xs scancode := by
  induction xs generalizing i with
  | nil => rfl
  | cons e es ih =>
    rw [seek, place]
    split
    · next heq => rw [if_neg (by omega)]; rfl
    · split
      · next hge => rw [if_neg (by omega)]; rfl
      · next hlt => rw [if_pos (by omega), ih]; omega

/-- The loop finds the scancode if the table has it. -/
theorem seek_snd {scancode : Nat} {xs : List RcMapTable} {i : Nat}
    (h : Sorted RcMapTable.scancode xs) :
    (seek scancode xs i).2 = true ↔ ∃ e ∈ xs, e.scancode = scancode := by
  induction xs generalizing i with
  | nil => simp [seek]
  | cons e es ih =>
    obtain ⟨hlt, hrest⟩ := List.pairwise_cons.mp h
    rw [seek]
    split
    · next heq => exact iff_of_true rfl ⟨e, List.mem_cons_self, heq⟩
    · next hne =>
      split
      · next hge =>
        -- all others are greater still
        refine iff_of_false Bool.false_ne_true ?_
        rintro ⟨a, ha, hsc⟩
        rcases List.mem_cons.mp ha with rfl | ha
        · exact hne hsc
        · have := hlt a ha
          omega
      · rw [ih hrest]
        simp [hne]

/-- A scancode that the table has is found. -/
theorem ir_establish_scancode_old {m : RcMap} (h : m.Shape) (scancode_mask : Nat) {scancode : Nat}
    (resize ok : Bool) (hold : ∃ e ∈ m.scan, e.scancode = masked scancode_mask scancode) :
    m.ir_establish_scancode scancode_mask scancode resize ok =
      (m, place RcMapTable.scancode m.scan (masked scancode_mask scancode)) := by
  have hfound := (@seek_snd (masked scancode_mask scancode) m.scan 0 h.sorted).mpr hold
  have hindex := seek_fst (masked scancode_mask scancode) m.scan 0
  unfold ir_establish_scancode
  show (if (seek (masked scancode_mask scancode) m.scan 0).2 = true then
    (m, (seek (masked scancode_mask scancode) m.scan 0).1) else _) = _
  rw [if_pos hfound, hindex, Nat.zero_add]

/-- The table that a new scancode goes into. -/
def roomier (m : RcMap) : RcMap := if m.size = m.len then m.doubled else m

/-- There is no room for a new scancode, and none can be made. -/
def Full (m : RcMap) (resize ok : Bool) : Prop :=
  m.size = m.len ∧ ¬ (resize = true ∧ m.alloc < IR_TAB_MAX_SIZE ∧ ok = true)

instance (m : RcMap) (resize ok : Bool) : Decidable (m.Full resize ok) :=
  inferInstanceAs (Decidable (_ ∧ _))

theorem Shape.make_room_eq {m : RcMap} (h : m.Shape) (resize ok : Bool) :
    m.make_room resize ok = if m.Full resize ok then none else some m.roomier := by
  unfold make_room
  by_cases hfull : m.size = m.len
  · rw [if_pos hfull, h.resize_full ok hfull]
    cases resize with
    | false => rw [if_pos (.inl rfl), if_pos ⟨hfull, fun hx => Bool.false_ne_true hx.1⟩]
    | true =>
      by_cases hgrow : m.alloc < IR_TAB_MAX_SIZE ∧ ok = true
      · have hnot : ¬ m.Full true ok := fun hx => hx.2 ⟨rfl, hgrow⟩
        rw [if_pos hgrow, if_neg hnot, roomier, if_pos hfull]
        exact if_neg (by simp)
      · have hyes : m.Full true ok := ⟨hfull, fun hx => hgrow hx.2⟩
        rw [if_neg hgrow, if_pos hyes]
        exact if_pos (Or.inr (by simp [ENOMEM]))
  · have hnot : ¬ m.Full resize ok := fun hx => hfull hx.1
    rw [if_neg hfull, if_neg hnot, roomier, if_neg hfull]

/-- The table with a new scancode, which has no key yet. -/
def withScancode (m : RcMap) (scancode : Nat) : RcMap :=
  { m with scan := SortedTable.insert RcMapTable.scancode m.scan ⟨scancode, KEY_RESERVED⟩ }

@[simp] theorem scan_roomier (m : RcMap) : m.roomier.scan = m.scan := by
  unfold roomier
  split <;> rfl

/-- A scancode that the table does not have gets an entry, unless there is no room for it. -/
theorem ir_establish_scancode_new {m : RcMap} (h : m.Shape) (scancode_mask : Nat) {scancode : Nat}
    (resize ok : Bool) (hnew : ¬ ∃ e ∈ m.scan, e.scancode = masked scancode_mask scancode) :
    m.ir_establish_scancode scancode_mask scancode resize ok =
      if m.Full resize ok then (m, NO_INDEX)
      else (m.roomier.withScancode (masked scancode_mask scancode),
        place RcMapTable.scancode m.scan (masked scancode_mask scancode)) := by
  have hfound := mt (@seek_snd (masked scancode_mask scancode) m.scan 0 h.sorted).mp hnew
  have hindex := seek_fst (masked scancode_mask scancode) m.scan 0
  rw [Nat.zero_add] at hindex
  unfold ir_establish_scancode
  show (if (seek (masked scancode_mask scancode) m.scan 0).2 = true then _ else _) = _
  rw [if_neg hfound, h.make_room_eq]
  by_cases hfull : m.Full resize ok
  · rw [if_pos hfull, if_pos hfull]
  · rw [if_neg hfull, if_neg hfull, withScancode, SortedTable.insert, scan_roomier, ← hindex]
    rw [← scan_roomier m]
    rfl

theorem Shape.roomier {m : RcMap} (h : m.Shape) {resize ok : Bool} (hnot : ¬ m.Full resize ok) :
    m.roomier.Shape ∧ m.len < m.roomier.size := by
  have hfits := h.fits
  have hpos := h.size_pos
  unfold RcMap.roomier
  split
  · next hfull =>
    have hgrow : m.alloc < IR_TAB_MAX_SIZE := by
      by_contra hmax
      exact hnot ⟨hfull, fun hx => hmax hx.2.1⟩
    refine ⟨h.doubled hgrow, ?_⟩
    show m.len < m.size * 2
    omega
  · next hroom => exact ⟨h, by omega⟩

theorem place_insert {xs : List RcMapTable} {e : RcMapTable} :
    (SortedTable.insert RcMapTable.scancode xs e).length = xs.length + 1 ∧
      (SortedTable.insert RcMapTable.scancode xs e)[
        place RcMapTable.scancode xs e.scancode]? = some e := by
  have hle := @place_le_length _ _ _ RcMapTable.scancode xs e.scancode
  constructor
  · rw [SortedTable.insert, List.length_append, List.length_cons, List.length_take,
      List.length_drop]
    omega
  · rw [SortedTable.insert, List.getElem?_append_right (by simp)]
    simp [Nat.min_eq_left hle]

/-- The table with a new scancode keeps its shape. -/
theorem Shape.withScancode {m : RcMap} (h : m.Shape) (hroom : m.len < m.size) {scancode : Nat}
    (hnew : ¬ ∃ e ∈ m.scan, e.scancode = scancode) : (m.withScancode scancode).Shape where
  sorted := h.sorted.insert fun a ha hsc => hnew ⟨a, ha, hsc⟩
  fits := by
    show (SortedTable.insert _ _ _).length ≤ m.size
    rw [place_insert.1]
    exact hroom
  alloc := h.alloc
  word := h.word

/-! ### Key codes -/

theorem keycodes_eq_none_iff {m : RcMap} {sc : Nat} :
    m.keycodes sc = none ↔ ¬ ∃ e ∈ m.scan, e.scancode = sc := by
  rw [keycodes, Option.map_eq_none_iff, lookup_eq_none_iff]
  push Not
  rfl

theorem Shape.keycodes_getElem {m : RcMap} (h : m.Shape) {i : Nat} (hi : i < m.len) :
    m.keycodes m.scan[i].scancode = some m.scan[i].keycode := by
  have hlookup := h.sorted.lookup_eq_some_iff.mpr ⟨List.getElem_mem hi, rfl⟩
  rw [keycodes, hlookup, Option.map_some]

/-- No table is so large that an index could be taken for the one that says there is none. -/
theorem Shape.len_le {m : RcMap} (h : m.Shape) : m.len ≤ NO_INDEX := by
  have hentry := h.alloc_eq
  have hword := h.word
  have hfits := h.fits
  show m.len ≤ 2 ^ 32 - 1
  omega

/-- The key code that is looked up. -/
theorem Shape.rc_g_keycode_from_table_eq {m : RcMap} (h : m.Shape) (scancode : Nat) :
    m.rc_g_keycode_from_table scancode = (m.keycodes scancode).getD KEY_RESERVED := by
  have hbsearch := @bsearch_eq _ _ _ _ _ scancode h.sorted
  unfold rc_g_keycode_from_table ir_lookup_by_scancode keycodes
  rw [← hbsearch]
  cases hb : bsearch RcMapTable.scancode m.scan scancode with
  | none =>
    have hlen : ¬ NO_INDEX < m.len := Nat.not_lt.mpr h.len_le
    simp [hlen]
  | some i =>
    have hi : i < m.len := bsearch_lt hb
    have hget : m.scan[i]? = some m.scan[i] := List.getElem?_eq_getElem hi
    simp [hi, hget]

theorem keycodes_withScancode {m : RcMap} (h : m.Shape) {scancode : Nat}
    (hnew : ¬ ∃ e ∈ m.scan, e.scancode = scancode) :
    (m.withScancode scancode).keycodes =
      Function.update m.keycodes scancode (some KEY_RESERVED) := by
  funext sc
  have hlookup := @lookup_insert _ _ _ _ _ sc ⟨scancode, KEY_RESERVED⟩ h.sorted
    fun a ha hsc => hnew ⟨a, ha, hsc⟩
  rw [keycodes, withScancode, hlookup, Function.update_apply]
  split
  · rfl
  · rfl

/-- The key code of an entry is set, or the entry is deleted; the entry's old key code is
    returned. -/
theorem Shape.ir_update_mapping_spec {m : RcMap} (h : m.Shape) {i : Nat} (hi : i < m.len)
    (keycode : Nat) (ok : Bool) :
    (m.ir_update_mapping i keycode ok).2 = m.scan[i].keycode ∧
      (m.ir_update_mapping i keycode ok).1.Shape ∧
      (m.ir_update_mapping i keycode ok).1.keycodes =
        assign m.keycodes m.scan[i].scancode keycode := by
  have hget : m.scan.getD i ⟨0, KEY_RESERVED⟩ = m.scan[i] := List.getD_eq_getElem _ _ hi
  have hfits := h.fits
  -- resizing changes no entry
  have hresize : ∀ t : RcMap, t.Shape → ∀ b : Prop, ∀ [Decidable b],
      (if b then (t.ir_resize_table ok).1 else t).Shape ∧
        (if b then (t.ir_resize_table ok).1 else t).keycodes = t.keycodes := by
    intro t ht b _
    split
    · exact ⟨ht.resize ok, by funext sc; rw [keycodes, keycodes, scan_resize]⟩
    · exact ⟨ht, rfl⟩
  unfold ir_update_mapping
  rw [hget]
  refine ⟨rfl, ?_⟩
  by_cases hdel : keycode = KEY_RESERVED ∨ keycode = KEY_UNKNOWN
  · have ht : ({ m with scan := m.scan.eraseIdx i } : RcMap).Shape :=
      { sorted := h.sorted.erase i
        fits := (List.length_eraseIdx_le m.scan i).trans hfits
        alloc := h.alloc
        word := h.word }
    simp only [if_pos hdel]
    refine ⟨(hresize _ ht _).1, (hresize _ ht _).2.trans ?_⟩
    funext sc
    have herase := @lookup_erase _ _ _ _ _ sc _ h.sorted hi
    rw [keycodes, herase, assign, if_pos hdel, Function.update_apply]
    split <;> rfl
  · have hkey : RcMapTable.scancode { m.scan[i] with keycode } = m.scan[i].scancode := rfl
    have ht : ({ m with scan := m.scan.set i { m.scan[i] with keycode } } : RcMap).Shape :=
      { sorted := h.sorted.set hi hkey
        fits := by
          show (m.scan.set i _).length ≤ m.size
          rw [List.length_set]
          exact hfits
        alloc := h.alloc
        word := h.word }
    simp only [if_neg hdel]
    refine ⟨(hresize _ ht _).1, (hresize _ ht _).2.trans ?_⟩
    funext sc
    have hset := @lookup_set _ _ _ RcMapTable.scancode _ sc { m.scan[i] with keycode } i h.sorted
      hi hkey
    rw [keycodes, hset, assign, if_neg hdel, Function.update_apply]
    split <;> rfl

/-! ### Requests -/

/-- A request, with what `kmalloc` answers on the way. -/
structure Request where
  ke : Entry
  ok : Bool
  ok' : Bool

/-- The scancodes of the key map. -/
def scancodes (f : Nat → Option Nat) : Set Nat := {sc | (f sc).isSome = true}

/-- The scancode that a request is about: the one with this index among those of the key map, or
    the one that it names. -/
def Target (scancode_mask : Nat) (f : Nat → Option Nat) (ke : Entry) (scancode : Nat) : Prop :=
  if ke.by_index = true then
    scancode ∈ scancodes f ∧ {sc | sc < scancode ∧ sc ∈ scancodes f}.ncard = ke.index
  else ∃ raw, scancode_to_u64 ke = .ok raw ∧ scancode = masked scancode_mask raw

/-- The errors of a request: an entry that is not valid, an index that no scancode has, or a new
    scancode for which there is no memory. -/
inductive Refused (scancode_mask : Nat) (f : Nat → Option Nat) (r : Request) : Int → Prop where
  | long (h : r.ke.len > 32) : Refused scancode_mask f r (-EINVAL)
  | keycode (h : r.ke.keycode > KEY_MAX) : Refused scancode_mask f r (-EINVAL)
  | index (hi : r.ke.by_index = true) (h : (scancodes f).ncard ≤ r.ke.index) :
      Refused scancode_mask f r (-EINVAL)
  | length (hi : r.ke.by_index = false) (h : scancode_to_u64 r.ke = .error (-EINVAL)) :
      Refused scancode_mask f r (-EINVAL)
  | memory {scancode : Nat} (hi : r.ke.by_index = false)
      (ht : Target scancode_mask f r.ke scancode) (hnew : f scancode = none)
      (h : 512 ≤ (scancodes f).ncard ∨ r.ok = false) : Refused scancode_mask f r (-ENOMEM)

theorem scancodes_keycodes (m : RcMap) :
    scancodes m.keycodes = {sc | (lookup RcMapTable.scancode m.scan sc).isSome = true} := by
  ext sc
  simp [scancodes, keycodes]

theorem Shape.ncard_scancodes {m : RcMap} (h : m.Shape) : (scancodes m.keycodes).ncard = m.len := by
  rw [scancodes_keycodes, h.sorted.ncard_keys]
  rfl

/-- The scancode of an entry is the one with its index. -/
theorem Shape.ncard_index {m : RcMap} (h : m.Shape) {i : Nat} (hi : i < m.len) :
    m.scan[i].scancode ∈ scancodes m.keycodes ∧
      {sc | sc < m.scan[i].scancode ∧ sc ∈ scancodes m.keycodes}.ncard = i := by
  rw [scancodes_keycodes]
  refine ⟨?_, h.sorted.ncard_lt hi⟩
  exact isSome_lookup_iff.mpr ⟨_, List.getElem_mem hi, rfl⟩

/-- A full table is a large one, or `kmalloc` has failed. -/
theorem Shape.full_large {m : RcMap} (h : m.Shape) {ok : Bool} (hfull : m.Full true ok) :
    512 ≤ (scancodes m.keycodes).ncard ∨ ok = false := by
  rw [h.ncard_scancodes, ← hfull.1]
  cases ok with
  | false => exact .inr rfl
  | true =>
    have hmax : ¬ m.alloc < 8192 := fun hlt => hfull.2 ⟨rfl, hlt, rfl⟩
    have hentry := h.alloc_eq
    exact .inl (by omega)

/-- What a request does: it gives its scancode a key code and returns the old one, or it is refused
    and changes nothing. -/
def Outcome (scancode_mask : Nat) (m : RcMap) (r : Request) (m' : RcMap) : Except Int Nat → Prop
  | .ok old => ∃ sc, Target scancode_mask m.keycodes r.ke sc ∧
      old = (m.keycodes sc).getD KEY_RESERVED ∧
      m'.keycodes = assign m.keycodes sc r.ke.keycode
  | .error e => Refused scancode_mask m.keycodes r e ∧ m' = m

theorem Wf.of_assign {m m' : RcMap} (h : m.Wf) (hs : m'.Shape) {sc kc : Nat}
    (hk : m'.keycodes = assign m.keycodes sc kc) : m'.Wf :=
  { toShape := hs, proper := hk ▸ h.proper.assign sc kc }

/-- The part of a request behind a scancode that has been established. -/
theorem Wf.established {m : RcMap} (h : m.Wf) {scancode_mask scancode : Nat} {resize ok : Bool}
    (hnot : (∃ e ∈ m.scan, e.scancode = masked scancode_mask scancode) ∨ ¬ m.Full resize ok) :
    ∃ t i, ∃ hi : i < t.len, m.ir_establish_scancode scancode_mask scancode resize ok = (t, i) ∧
      t.Shape ∧ t.scan[i].scancode = masked scancode_mask scancode ∧
      t.scan[i].keycode = (m.keycodes (masked scancode_mask scancode)).getD KEY_RESERVED ∧
      ∀ kc, assign t.keycodes (masked scancode_mask scancode) kc =
        assign m.keycodes (masked scancode_mask scancode) kc := by
  by_cases hold : ∃ e ∈ m.scan, e.scancode = masked scancode_mask scancode
  · obtain ⟨hi, hsc⟩ := h.sorted.getElem_place hold
    have hkey := h.toShape.keycodes_getElem hi
    rw [hsc] at hkey
    refine ⟨m, _, hi, ir_establish_scancode_old h.toShape scancode_mask resize ok hold, h.toShape,
      hsc, ?_, fun kc => rfl⟩
    rw [hkey, Option.getD_some]
  · have hnot := hnot.resolve_left hold
    obtain ⟨hshape, hroom⟩ := h.toShape.roomier hnot
    rw [← scan_roomier m] at hold
    have hnew := ir_establish_scancode_new h.toShape scancode_mask resize ok
      (by rwa [scan_roomier] at hold)
    rw [if_neg hnot, ← scan_roomier m] at hnew
    have hlen : m.roomier.len = m.len := congrArg List.length (scan_roomier m)
    have hkeycodes : m.roomier.keycodes = m.keycodes := by
      funext sc
      rw [keycodes, keycodes, scan_roomier]
    obtain ⟨hlength, hget⟩ := @place_insert m.roomier.scan
      ⟨masked scancode_mask scancode, KEY_RESERVED⟩
    obtain ⟨hi, hget⟩ := List.getElem?_eq_some_iff.mp hget
    refine ⟨_, _, hi, hnew, hshape.withScancode (hlen ▸ hroom) hold, ?_, ?_, fun kc => ?_⟩
    · exact congrArg RcMapTable.scancode hget
    · rw [← hkeycodes, keycodes_eq_none_iff.mpr hold, Option.getD_none]
      exact congrArg RcMapTable.keycode hget
    · rw [keycodes_withScancode hshape hold, assign_update, hkeycodes]

/-- A request that `input_set_keycode` is called with. -/
theorem Wf.input_set_keycode_spec {m : RcMap} (h : m.Wf) (scancode_mask : Nat) (r : Request) :
    (m.input_set_keycode scancode_mask r.ke r.ok r.ok').1.Wf ∧
      Outcome scancode_mask m r (m.input_set_keycode scancode_mask r.ke r.ok r.ok').1
        (m.input_set_keycode scancode_mask r.ke r.ok r.ok').2 := by
  unfold input_set_keycode
  by_cases hlong : r.ke.len > 32
  · rw [if_pos hlong]
    exact ⟨h, .long hlong, rfl⟩
  rw [if_neg hlong]
  by_cases hcode : r.ke.keycode > KEY_MAX
  · rw [if_pos hcode]
    exact ⟨h, .keycode hcode, rfl⟩
  rw [if_neg hcode]
  unfold ir_setkeycode
  cases hindex : r.ke.by_index with
  | true =>
    by_cases hi : r.ke.index ≥ m.len
    · simp only [if_true, if_pos hi]
      refine ⟨h, .index hindex ?_, rfl⟩
      rwa [h.toShape.ncard_scancodes]
    · -- the entry with this index
      have hi' : r.ke.index < m.len := Nat.not_le.mp hi
      obtain ⟨hold, hshape, hk⟩ := h.toShape.ir_update_mapping_spec hi' r.ke.keycode r.ok'
      simp only [if_true, if_neg hi]
      refine ⟨h.of_assign hshape hk, m.scan[r.ke.index].scancode, ?_, ?_, hk⟩
      · rw [Target, if_pos hindex]
        exact h.toShape.ncard_index hi'
      · rw [h.toShape.keycodes_getElem hi', Option.getD_some]
        exact hold
  | false =>
    simp only [Bool.false_eq_true, if_false]
    cases hraw : scancode_to_u64 r.ke with
    | error e =>
      have he : e = -EINVAL := by
        unfold scancode_to_u64 at hraw
        split at hraw
        · cases hraw
        · cases hraw
          rfl
      exact ⟨h, he ▸ .length hindex (he ▸ hraw), rfl⟩
    | ok raw =>
      have htarget : Target scancode_mask m.keycodes r.ke (masked scancode_mask raw) := by
        rw [Target, if_neg (by simp [hindex])]
        exact ⟨raw, hraw, rfl⟩
      by_cases hnot : (∃ e ∈ m.scan, e.scancode = masked scancode_mask raw) ∨ ¬ m.Full true r.ok
      · obtain ⟨t, i, hi, heq, hshape, hsc, hkc, hassign⟩ := h.established hnot
        obtain ⟨hold, hshape', hk⟩ := hshape.ir_update_mapping_spec hi r.ke.keycode r.ok'
        rw [hsc, hassign] at hk
        simp only [heq, if_neg (Nat.not_le.mpr hi)]
        exact ⟨h.of_assign hshape' hk, _, htarget, hold.trans hkc, hk⟩
      · -- there is no room for a new scancode
        obtain ⟨hnew, hfull⟩ := not_or.mp hnot
        have hfull := not_not.mp hfull
        have heq := ir_establish_scancode_new h.toShape scancode_mask true r.ok hnew
        rw [if_pos hfull] at heq
        simp only [heq, if_pos (show NO_INDEX ≥ m.len from h.toShape.len_le)]
        exact ⟨h, .memory hindex htarget (keycodes_eq_none_iff.mpr hnew)
          (h.toShape.full_large hfull), rfl⟩

/-! ### Loading a table -/

/-- The key codes of a list of entries, the later ones over the earlier. -/
def loaded (scancode_mask : Nat) (es : List RcMapTable) (f : Nat → Option Nat) :
    Nat → Option Nat :=
  es.foldl (fun f e => assign f (masked scancode_mask e.scancode) e.keycode) f

theorem wf_create {n : Nat} (hpos : 0 < n) (hn : n ≤ 2 ^ 27) : (ir_create_table n).Wf := by
  -- the power of two is at least the size of one entry
  obtain ⟨k, hk⟩ : ∃ k, Nat.size (n * ENTRY_SIZE - 1) = k + 4 := by
    have hle : 4 ≤ Nat.size (n * ENTRY_SIZE - 1) := by
      apply Nat.lt_size.mpr
      simp only [ENTRY_SIZE]
      omega
    exact ⟨Nat.size (n * ENTRY_SIZE - 1) - 4, by omega⟩
  have hsize : Nat.size (n * ENTRY_SIZE - 1) ≤ 31 := by
    apply Nat.size_le.mpr
    simp only [ENTRY_SIZE]
    omega
  have halloc : (ir_create_table n).alloc = ENTRY_SIZE * 2 ^ k := by
    show 2 ^ Nat.size (n * ENTRY_SIZE - 1) = _
    rw [hk, Nat.pow_add, Nat.mul_comm]
    rfl
  refine { sorted := List.Pairwise.nil, fits := Nat.zero_le _, alloc := ⟨k, halloc, ?_⟩,
           word := ?_, proper := nofun }
  · show (ir_create_table n).alloc / ENTRY_SIZE = 2 ^ k
    rw [halloc, Nat.mul_div_cancel_left _ (by decide)]
  · have hlt : 2 ^ Nat.size (n * ENTRY_SIZE - 1) ≤ 2 ^ 31 := Nat.pow_le_pow_right (by decide) hsize
    show 2 ^ Nat.size (n * ENTRY_SIZE - 1) < 2 ^ 32
    omega

theorem setkeytableLoop_spec {scancode_mask : Nat} {ok : Nat → Bool} {es : List RcMapTable}
    {i : Nat} {m : RcMap} (h : m.Wf) (hok : (setkeytableLoop scancode_mask ok es i m).2 = 0) :
    (setkeytableLoop scancode_mask ok es i m).1.Wf ∧
      (setkeytableLoop scancode_mask ok es i m).1.keycodes =
        loaded scancode_mask es m.keycodes := by
  induction es generalizing i m with
  | nil => exact ⟨h, rfl⟩
  | cons e es ih =>
    rw [setkeytableLoop] at hok ⊢
    by_cases hnot : (∃ e' ∈ m.scan, e'.scancode = masked scancode_mask e.scancode) ∨
        ¬ m.Full false true
    · obtain ⟨t, j, hj, heq, hshape, hsc, -, hassign⟩ := h.established hnot
      obtain ⟨-, hshape', hk⟩ := hshape.ir_update_mapping_spec hj e.keycode (ok i)
      rw [hsc, hassign] at hk
      simp only [heq, if_neg (Nat.not_le.mpr hj)] at hok ⊢
      obtain ⟨hwf, hfold⟩ := ih (h.of_assign hshape' hk) hok
      refine ⟨hwf, ?_⟩
      rw [hfold, hk]
      rfl
    · obtain ⟨hnew, hfull⟩ := not_or.mp hnot
      have heq := ir_establish_scancode_new h.toShape scancode_mask false true hnew
      rw [if_pos (not_not.mp hfull)] at heq
      simp only [heq, if_pos (show NO_INDEX ≥ m.len from h.toShape.len_le)] at hok
      exact absurd hok (by decide)

theorem ir_setkeytable_spec {scancode_mask : Nat} {create : Bool} {ok : Nat → Bool}
    {es : List RcMapTable} {m : RcMap} (hne : es ≠ []) (hlen : es.length ≤ 2 ^ 27)
    (h : ir_setkeytable scancode_mask create ok es = .ok m) :
    m.Wf ∧ m.keycodes = loaded scancode_mask es fun _ => none := by
  unfold ir_setkeytable at h
  split at h
  · cases h
  · have hcreate := wf_create (List.length_pos_of_ne_nil hne) hlen
    simp only at h
    split at h
    · next hzero =>
      cases h
      exact setkeytableLoop_spec hcreate hzero
    · cases h

/-- An entry without a key is updated without resizing. -/
theorem Shape.update_reserved {m : RcMap} {i : Nat} (hi : i < m.len)
    (hold : m.scan[i].keycode = KEY_RESERVED) (keycode : Nat) (ok : Bool) :
    (m.ir_update_mapping i keycode ok).1.size = m.size ∧
      (m.ir_update_mapping i keycode ok).1.len ≤ m.len := by
  have hget : m.scan.getD i ⟨0, KEY_RESERVED⟩ = m.scan[i] := List.getD_eq_getElem _ _ hi
  unfold ir_update_mapping
  simp only [hget, hold, ne_eq, not_true, if_false]
  split
  · exact ⟨rfl, List.length_eraseIdx_le m.scan i⟩
  · refine ⟨rfl, ?_⟩
    show (m.scan.set i _).length ≤ _
    rw [List.length_set]
    rfl

/-- Different scancodes find room in a table that has been created for them. -/
theorem setkeytableLoop_of_nodup {scancode_mask : Nat} {ok : Nat → Bool} {es : List RcMapTable}
    {i : Nat} {m : RcMap} (h : m.Wf)
    (hnodup : (es.map fun e => masked scancode_mask e.scancode).Nodup)
    (hnew : ∀ e ∈ es, m.keycodes (masked scancode_mask e.scancode) = none)
    (hroom : m.len + es.length ≤ m.size) : (setkeytableLoop scancode_mask ok es i m).2 = 0 := by
  induction es generalizing i m with
  | nil => rfl
  | cons e es ih =>
    rw [List.map_cons, List.nodup_cons] at hnodup
    rw [List.length_cons] at hroom
    have he := keycodes_eq_none_iff.mp (hnew e List.mem_cons_self)
    have hne : ¬ m.size = m.len := by omega
    have hnot : ¬ m.Full false true := fun hfull => hne hfull.1
    obtain ⟨t, j, hj, heq, hshape, hsc, hkc, hassign⟩ := h.established (.inr hnot)
    -- the table has one entry more, and is as large as before
    have hsame : t.size = m.size ∧ t.len = m.len + 1 := by
      have hestablish := ir_establish_scancode_new h.toShape scancode_mask false true he
      rw [if_neg hnot, heq, roomier, if_neg hne] at hestablish
      rw [(Prod.mk.inj hestablish).1]
      exact ⟨rfl, place_insert.1⟩
    rw [hnew e List.mem_cons_self, Option.getD_none] at hkc
    obtain ⟨-, hshape', hk⟩ := hshape.ir_update_mapping_spec hj e.keycode (ok i)
    obtain ⟨hsize, hlen⟩ := Shape.update_reserved hj hkc e.keycode (ok i)
    rw [hsc, hassign] at hk
    rw [setkeytableLoop]
    simp only [heq, if_neg (Nat.not_le.mpr hj)]
    refine ih (h.of_assign hshape' hk) hnodup.2 (fun e' he' => ?_) (by omega)
    rw [hk, assign, Function.update_of_ne]
    · exact hnew e' (List.mem_cons_of_mem e he')
    · intro hsc'
      exact hnodup.1 (hsc' ▸ List.mem_map_of_mem he')

theorem loaded_of_not_mem {scancode_mask : Nat} {es : List RcMapTable} {f : Nat → Option Nat}
    {sc : Nat} (h : ∀ e ∈ es, masked scancode_mask e.scancode ≠ sc) :
    loaded scancode_mask es f sc = f sc := by
  induction es generalizing f with
  | nil => rfl
  | cons e es ih =>
    have hrest := @ih (assign f (masked scancode_mask e.scancode) e.keycode)
      fun e' he' => h e' (List.mem_cons_of_mem e he')
    rw [loaded, List.foldl_cons]
    refine hrest.trans ?_
    rw [assign, Function.update_of_ne (h e List.mem_cons_self).symm]

theorem loaded_of_mem {scancode_mask : Nat} {es : List RcMapTable} {f : Nat → Option Nat}
    (hnodup : (es.map fun e => masked scancode_mask e.scancode).Nodup) {e : RcMapTable}
    (he : e ∈ es) : loaded scancode_mask es f (masked scancode_mask e.scancode) =
      if e.keycode = KEY_RESERVED ∨ e.keycode = KEY_UNKNOWN then none else some e.keycode := by
  induction es generalizing f with
  | nil => cases he
  | cons a es ih =>
    rw [List.map_cons, List.nodup_cons] at hnodup
    rw [loaded, List.foldl_cons]
    rcases List.mem_cons.mp he with rfl | he
    · refine (loaded_of_not_mem fun e' he' hsc => ?_).trans ?_
      · exact hnodup.1 (hsc ▸ List.mem_map_of_mem he')
      · rw [assign, Function.update_self]
    · exact ih hnodup.2 he

/-- A table without a scancode twice is always loaded once its memory has been allocated, and then
    has the key codes of its entries and no others. -/
theorem ir_setkeytable_of_nodup {scancode_mask : Nat} {ok : Nat → Bool} {es : List RcMapTable}
    (hne : es ≠ []) (hlen : es.length ≤ 2 ^ 27)
    (hnodup : (es.map fun e => masked scancode_mask e.scancode).Nodup) :
    ∃ m, ir_setkeytable scancode_mask true ok es = .ok m ∧
      (∀ e ∈ es, m.rc_g_keycode_from_table (masked scancode_mask e.scancode) =
        if e.keycode = KEY_UNKNOWN then KEY_RESERVED else e.keycode) ∧
      ∀ sc, (∀ e ∈ es, masked scancode_mask e.scancode ≠ sc) →
        m.rc_g_keycode_from_table sc = KEY_RESERVED := by
  have hcreate := wf_create (List.length_pos_of_ne_nil hne) hlen
  have hroom : (ir_create_table es.length).len + es.length ≤ (ir_create_table es.length).size := by
    have hlt := Nat.lt_size_self (es.length * ENTRY_SIZE - 1)
    show 0 + es.length ≤ 2 ^ Nat.size (es.length * ENTRY_SIZE - 1) / ENTRY_SIZE
    rw [Nat.zero_add, Nat.le_div_iff_mul_le (by decide)]
    omega
  have hzero := @setkeytableLoop_of_nodup scancode_mask ok es 0 _ hcreate hnodup (fun _ _ => rfl)
    hroom
  obtain ⟨hwf, hk⟩ := setkeytableLoop_spec hcreate hzero
  refine ⟨_, if_pos hzero, fun e he => ?_, fun sc hsc => ?_⟩
  · rw [hwf.toShape.rc_g_keycode_from_table_eq, hk, loaded_of_mem hnodup he]
    by_cases hr : e.keycode = KEY_RESERVED
    · simp [hr]
    · by_cases hu : e.keycode = KEY_UNKNOWN <;> simp [hr, hu]
  · rw [hwf.toShape.rc_g_keycode_from_table_eq, hk, loaded_of_not_mem hsc]
    rfl

theorem ir_setkeytable_two_keys :
    ∃ m, ir_setkeytable 0 true (fun _ => false) [⟨7, 30⟩, ⟨5, 240⟩] = .ok m ∧
      (∀ e ∈ [(⟨7, 30⟩ : RcMapTable), ⟨5, 240⟩], m.rc_g_keycode_from_table (masked 0 e.scancode) =
        if e.keycode = KEY_UNKNOWN then KEY_RESERVED else e.keycode) ∧
      ∀ sc, (∀ e ∈ [(⟨7, 30⟩ : RcMapTable), ⟨5, 240⟩], masked 0 e.scancode ≠ sc) →
        m.rc_g_keycode_from_table sc = KEY_RESERVED :=
  @ir_setkeytable_of_nodup 0 (fun _ => false) [⟨7, 30⟩, ⟨5, 240⟩] (by simp) (by decide)
    (by decide)

/-- A step of a device that answers requests. -/
def answer (scancode_mask : Nat) (m : RcMap) (r : Request) : RcMap × List (Except Int Nat) :=
  ((m.input_set_keycode scancode_mask r.ke r.ok r.ok').1,
    [(m.input_set_keycode scancode_mask r.ke r.ok r.ok').2])

/-- The replies to some requests, and the key codes after them. -/
inductive Explained (scancode_mask : Nat) :
    (Nat → Option Nat) → List Request → List (Except Int Nat) → (Nat → Option Nat) → Prop where
  | nil (f : Nat → Option Nat) : Explained scancode_mask f [] [] f
  | ok {f f' : Nat → Option Nat} {r : Request} {rs : List Request}
      {replies : List (Except Int Nat)} {sc : Nat} (ht : Target scancode_mask f r.ke sc)
      (hrest : Explained scancode_mask (assign f sc r.ke.keycode) rs replies f') :
      Explained scancode_mask f (r :: rs) (.ok ((f sc).getD KEY_RESERVED) :: replies) f'
  | error {f f' : Nat → Option Nat} {r : Request} {rs : List Request}
      {replies : List (Except Int Nat)} {e : Int} (hr : Refused scancode_mask f r e)
      (hrest : Explained scancode_mask f rs replies f') :
      Explained scancode_mask f (r :: rs) (.error e :: replies) f'

theorem Wf.explained {m : RcMap} (h : m.Wf) (scancode_mask : Nat) (rs : List Request) :
    (after (answer scancode_mask) m rs).Wf ∧
      Explained scancode_mask m.keycodes rs (outputs (answer scancode_mask) m rs)
        (after (answer scancode_mask) m rs).keycodes := by
  induction rs generalizing m with
  | nil => exact ⟨h, .nil _⟩
  | cons r rs ih =>
    obtain ⟨hwf, hout⟩ := h.input_set_keycode_spec scancode_mask r
    obtain ⟨hwf', hrest⟩ := ih hwf
    refine ⟨hwf', ?_⟩
    rw [after_cons, outputs_cons, answer, List.singleton_append]
    cases hreply : (m.input_set_keycode scancode_mask r.ke r.ok r.ok').2 with
    | ok old =>
      rw [hreply] at hout
      obtain ⟨sc, htarget, rfl, hk⟩ := hout
      rw [hk] at hrest
      exact .ok htarget hrest
    | error e =>
      rw [hreply] at hout
      rw [hout.2] at hrest ⊢
      exact .error hout.1 hrest

/-- The life of a key map: it is loaded, and then changed by requests. Its entries, the size of its
    memory and what `kmalloc` answers do not show, apart from the requests that are refused. -/
theorem keymap_refines {scancode_mask : Nat} {create : Bool} {ok : Nat → Bool}
    {es : List RcMapTable} {m : RcMap} (hne : es ≠ []) (hlen : es.length ≤ 2 ^ 27)
    (h : ir_setkeytable scancode_mask create ok es = .ok m) (rs : List Request) :
    ∃ f, Explained scancode_mask (loaded scancode_mask es fun _ => none) rs
        (outputs (answer scancode_mask) m rs) f ∧
      ∀ sc, (after (answer scancode_mask) m rs).rc_g_keycode_from_table sc =
        (f sc).getD KEY_RESERVED := by
  obtain ⟨hwf, hk⟩ := ir_setkeytable_spec hne hlen h
  obtain ⟨hwf', hexplained⟩ := hwf.explained scancode_mask rs
  rw [hk] at hexplained
  exact ⟨_, hexplained, hwf'.toShape.rc_g_keycode_from_table_eq⟩

theorem keymap_one_request :
    ∃ f, Explained 0 (loaded 0 [⟨7, 30⟩] fun _ => none)
        [⟨⟨true, 4, 0, 31, [7, 0, 0, 0]⟩, true, true⟩]
        (outputs (answer 0) ⟨[⟨7, 30⟩], 1, 16⟩ [⟨⟨true, 4, 0, 31, [7, 0, 0, 0]⟩, true, true⟩]) f ∧
      ∀ sc, (after (answer 0) ⟨[⟨7, 30⟩], 1, 16⟩
          [⟨⟨true, 4, 0, 31, [7, 0, 0, 0]⟩, true, true⟩]).rc_g_keycode_from_table sc =
        (f sc).getD KEY_RESERVED :=
  @keymap_refines 0 true (fun _ => true) [⟨7, 30⟩] ⟨[⟨7, 30⟩], 1, 16⟩ (by simp) (by decide)
    (by decide) [⟨⟨true, 4, 0, 31, [7, 0, 0, 0]⟩, true, true⟩]

end Hcrtos.Native.Rc.RcMap
