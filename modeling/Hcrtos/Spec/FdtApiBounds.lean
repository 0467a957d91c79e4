import Mathlib.Tactic.ByContra
import Hcrtos.Native.FdtApi

/-!
# What the accessors read

The accessors of numbers do not ask for the length of the property: they stay inside it exactly
when the elements asked for are there. The walks over the strings stop at the end of the property,
but only between two strings, so they leave it when its last string is not terminated, unless they
have found the string before.

## Key results

- `readLoop_isSome_iff`, `fdt32_to_cpup_isSome_iff`: what an array needs
- `stringLoop_spec`, `countLoop_isSome_iff`: what the walks need
- `accessors_guarded_iff`: the requests that each accessor guards
- `accessors_guarded_fails`: one that is not guarded
-/

namespace Hcrtos.Native.FdtApi

open CString

/-! ### Arrays -/

/-- A word is read when all of it is there. -/
theorem fdt32_to_cpup_isSome_iff {data : List UInt8} {i : Nat} :
    (fdt32_to_cpup data i).isSome = true ↔ 4 * (i + 1) ≤ data.length := by
  unfold fdt32_to_cpup loadWord
  rw [Option.isSome_map]
  by_cases h : 4 * (i + 1) ≤ data.length
  · rw [List.getElem?_eq_getElem (by omega), List.getElem?_eq_getElem (by omega),
      List.getElem?_eq_getElem (by omega), List.getElem?_eq_getElem (by omega)]
    exact iff_of_true rfl h
  · rw [List.getElem?_eq_none (i := 4 * i + 3) (by omega)]
    -- the last byte of the word is not there, whichever of the others are
    refine iff_of_false ?_ h
    cases data[4 * i]? with
    | none => exact Bool.false_ne_true
    | some b₀ =>
      cases data[4 * i + 1]? with
      | none => exact Bool.false_ne_true
      | some b₁ => cases data[4 * i + 2]? <;> exact Bool.false_ne_true

/-- A loop stays inside when each of its rounds does. -/
theorem readLoop_isSome_iff {α : Type} {read : Nat → Option α} {length i : Nat} :
    (readLoop read length i).isSome = true ↔ ∀ j < length, (read (i + j)).isSome = true := by
  induction length generalizing i with
  | zero => simp [readLoop]
  | succ length ih =>
    have hrest := ih (i := i + 1)
    have hsplit : (∀ j < length + 1, (read (i + j)).isSome = true) ↔
        (read i).isSome = true ∧ ∀ j < length, (read (i + 1 + j)).isSome = true := by
      constructor
      · intro h
        exact ⟨h 0 (Nat.succ_pos _), fun j hj => by
          rw [Nat.add_assoc, Nat.add_comm 1 j]
          exact h (j + 1) (Nat.succ_lt_succ hj)⟩
      · rintro ⟨hzero, hsucc⟩ j hj
        cases j with
        | zero => exact hzero
        | succ j =>
          have hj' := hsucc j (Nat.lt_of_succ_lt_succ hj)
          rwa [Nat.add_assoc, Nat.add_comm 1 j] at hj'
    rw [hsplit, ← hrest]
    rw [readLoop]
    cases read i <;> cases readLoop read length (i + 1) <;> simp

/-- Elements of a width, read one after the other from the first. -/
theorem readLoop_isSome_iff_of_width {α : Type} {read : Nat → Option α} {width size : Nat}
    (hread : ∀ i, (read i).isSome = true ↔ width * (i + 1) ≤ size) {length : Nat} :
    (readLoop read length 0).isSome = true ↔ width * length ≤ size := by
  rw [readLoop_isSome_iff]
  constructor
  · intro h
    cases length with
    | zero => exact Nat.zero_le _
    | succ length =>
      have hlast := h length (Nat.lt_succ_self _)
      rwa [hread, Nat.zero_add] at hlast
  · intro h j hj
    rw [hread, Nat.zero_add]
    exact Nat.le_trans (Nat.mul_le_mul_left width hj) h

/-! ### Strings -/

/-- A string with its terminator and what follows. -/
theorem exists_of_strlen {bytes : List UInt8} {n : Nat} (h : strlen bytes = some n) :
    ∃ s rest, bytes = s ++ 0 :: rest ∧ 0 ∉ s ∧ s.length = n ∧ bytes.drop (n + 1) = rest := by
  rw [strlen_eq] at h
  obtain ⟨hmem, hn⟩ := Option.ite_none_right_eq_some.mp h
  cases hn
  have hlt := List.idxOf_lt_length_iff.mpr hmem
  refine ⟨bytes.take (bytes.idxOf 0), bytes.drop (bytes.idxOf 0 + 1), ?_, notMem_take_idxOf _,
    by rw [List.length_take]; omega, rfl⟩
  calc bytes = bytes.take (bytes.idxOf 0 + 1) ++ bytes.drop (bytes.idxOf 0 + 1) :=
        (List.take_append_drop _ _).symm
    _ = _ := by rw [take_terminator hmem, List.append_assoc]; rfl

theorem count_string {s : List UInt8} (rest : List UInt8) (h : 0 ∉ s) :
    (s ++ 0 :: rest).count 0 = rest.count 0 + 1 := by
  rw [List.count_append, List.count_eq_zero.mpr h, List.count_cons_self, Nat.zero_add]

theorem allTerminated_string {s rest : List UInt8} :
    AllTerminated (s ++ 0 :: rest) ↔ AllTerminated rest := by
  unfold AllTerminated
  cases rest with
  | nil => simp
  | cons b rest => simp [List.getLast?_append, List.getLast?_cons]

/-- Without a terminator, the bytes do not end in one. -/
theorem not_allTerminated {bytes : List UInt8} (hne : bytes ≠ []) (h : 0 ∉ bytes) :
    ¬ AllTerminated bytes := fun hall =>
  h (hall (bytes.getLast hne) (List.getLast?_eq_some_getLast hne) ▸ List.getLast_mem hne)

/-- The walk stays inside when all strings are terminated, or when it ends at the string of the
    index. It stores nothing unless that string is there. -/
theorem stringLoop_spec (index : Int) (rest : List UInt8) (total i : Nat) :
    ((stringLoop index rest total i).isSome = true ↔
      AllTerminated rest ∨ i ≤ index ∧ index < i + rest.count 0) ∧
    ∀ r ∈ stringLoop index rest total i, ¬ (i ≤ index ∧ index < i + rest.count 0) →
      r.1 ≠ 0 ∧ r.2 = none := by
  induction rest, total, i using stringLoop.induct index with
  | case1 total i =>
    rw [stringLoop, if_pos rfl]
    refine ⟨iff_of_true rfl (.inl (by simp [AllTerminated])), ?_⟩
    rintro _ ⟨⟩ -
    exact ⟨by decide, rfl⟩
  | case2 rest total i hne hlen =>
    -- the walk runs into a string without a terminator
    have hmem := strlen_eq_none_iff.mp hlen
    rw [stringLoop, if_neg hne, hlen]
    refine ⟨iff_of_false Bool.false_ne_true ?_, nofun⟩
    rw [List.count_eq_zero.mpr hmem]
    rintro (hall | hindex)
    · exact not_allTerminated hne hmem hall
    · omega
  | case3 rest total i hne n hlen hindex =>
    obtain ⟨s, rest', rfl, hs, -, -⟩ := exists_of_strlen hlen
    -- the walk ends at the string of the index, whatever follows it
    have hhere : (i : Int) ≤ index ∧ index < i + (s ++ 0 :: rest').count 0 := by
      rw [count_string _ hs]
      omega
    rw [stringLoop, if_neg hne, hlen]
    simp only [if_pos hindex]
    exact ⟨iff_of_true rfl (.inr hhere), fun _ _ hnot => absurd hhere hnot⟩
  | case4 rest total i hne n hlen hindex ih =>
    obtain ⟨s, rest', rfl, hs, -, hdrop⟩ := exists_of_strlen hlen
    rw [stringLoop, if_neg hne, hlen]
    simp only [if_neg hindex]
    rw [hdrop] at ih ⊢
    have hcount := count_string rest' hs
    -- the index is not this string's, so it is one of the rest or of none
    have hiff : ((i : Int) ≤ index ∧ index < i + (s ++ 0 :: rest').count 0) ↔
        (((i + 1 : Nat) : Int) ≤ index ∧ index < (i + 1 : Nat) + rest'.count 0) := by
      rw [hcount]
      omega
    rw [hiff, allTerminated_string]
    exact ih

theorem countLoop_isSome_iff (rest : List UInt8) (i : Nat) :
    (countLoop rest i).isSome = true ↔ AllTerminated rest := by
  induction rest, i using countLoop.induct with
  | case1 i =>
    rw [countLoop, if_pos rfl]
    exact iff_of_true rfl (by simp [AllTerminated])
  | case2 rest i hne hlen =>
    rw [countLoop, if_neg hne, hlen]
    exact iff_of_false Bool.false_ne_true (not_allTerminated hne (strlen_eq_none_iff.mp hlen))
  | case3 rest i hne n hlen ih =>
    obtain ⟨s, rest', rfl, -, -, hdrop⟩ := exists_of_strlen hlen
    rw [countLoop, if_neg hne, hlen]
    dsimp only
    rw [hdrop] at ih ⊢
    rw [allTerminated_string]
    exact ih

/-! ### The accessors -/

section Accessors

variable {α : Type}

/-- An accessor that stays inside exactly when the elements are there, and then succeeds. -/
theorem guarded_of_read {val : List UInt8} {has : List UInt8 → Prop} {outval : α}
    {read : Option α} (hread : has val → read.isSome = true) :
    Guarded outval has (some val) (read.map fun v => ((0 : Int), v)) ↔ has val := by
  constructor
  · rintro ⟨r, hr, herr⟩
    obtain ⟨v, -, rfl⟩ := Option.map_eq_some_iff.mp hr
    -- an accessor that is inside succeeds, so it may not be inside when the elements are missing
    by_contra hnot
    refine (herr fun v hv => ?_).1 rfl
    cases hv
    exact hnot
  · intro hhas
    obtain ⟨v, hv⟩ := Option.isSome_iff_exists.mp (hread hhas)
    refine ⟨(0, v), by rw [hv]; rfl, fun hnone => absurd hhas (hnone val rfl)⟩

theorem guarded_none {has : List UInt8 → Prop} (outval : α) :
    Guarded outval has none (some (1, outval)) :=
  ⟨_, rfl, fun _ => ⟨Int.one_ne_zero, rfl⟩⟩

theorem rounds_of_nonneg_le {length : Int} (h : 0 ≤ length) : rounds length ≤ length.toNat := by
  unfold rounds
  omega

theorem hasArray_isSome {read : Nat → Option α} {width : Nat} {val : List UInt8}
    (hread : ∀ i, (read i).isSome = true ↔ width * (i + 1) ≤ val.length) {length : Int}
    (h : HasArray width length val) : (readLoop read (rounds length) 0).isSome = true :=
  (readLoop_isSome_iff_of_width hread).mpr
    (Nat.le_trans (Nat.mul_le_mul_left width (rounds_of_nonneg_le h.1)) h.2)

/-- An accessor is judged by the property that it finds. -/
theorem guarded_access_iff {fdt_getprop : Int → CStr → Option (List UInt8)} {offset : Int}
    {name : CStr} {outval : α} {read : List UInt8 → Option (Int × α)}
    {has good : List UInt8 → Prop}
    (h : ∀ v, Guarded outval has (some v) (read v) ↔ good v) :
    Guarded outval has (property fdt_getprop offset name)
        (access fdt_getprop offset name outval read) ↔
      ∀ v ∈ property fdt_getprop offset name, good v := by
  unfold access
  cases property fdt_getprop offset name with
  | none => exact iff_of_true (guarded_none outval) nofun
  | some v =>
    rw [h v]
    exact ⟨fun hgood _ hv => Option.some.inj hv ▸ hgood, fun hall => hall v rfl⟩

end Accessors

theorem guarded_index_iff (index : Int) (val : List UInt8) :
    Guarded none (HasIndex 4 index) (some val)
        (if index < 0 then none
        else (fdt32_to_cpup val index.toNat).map fun outval => ((0 : Int), some outval)) ↔
      HasIndex 4 index val := by
  by_cases hneg : index < 0
  · rw [if_pos hneg]
    exact iff_of_false (fun ⟨_, h, _⟩ => Option.some_ne_none _ h.symm)
      fun h => absurd h.1 (Int.not_le.mpr hneg)
  · rw [if_neg hneg]
    have hmap : (fdt32_to_cpup val index.toNat).map (fun outval => ((0 : Int), some outval)) =
        ((fdt32_to_cpup val index.toNat).map some).map fun v => ((0 : Int), v) := by
      rw [Option.map_map]
      rfl
    rw [hmap]
    refine guarded_of_read fun h => ?_
    rw [Option.isSome_map]
    exact fdt32_to_cpup_isSome_iff.mpr h.2

theorem guarded_string_iff (index : Int) (val : List UInt8) :
    Guarded none (HasString index) (some val) (stringLoop index val 0 0) ↔
      AllTerminated val ∨ HasString index val := by
  have hhas : ((0 : Nat) : Int) ≤ index ∧ index < (0 : Nat) + val.count 0 ↔
      HasString index val := by
    unfold HasString
    omega
  obtain ⟨hsome, herr⟩ := stringLoop_spec index val 0 0
  rw [hhas] at hsome
  simp only [hhas] at herr
  rw [← hsome]
  constructor
  · rintro ⟨r, hr, -⟩
    rw [hr]
    rfl
  · intro h
    obtain ⟨r, hr⟩ := Option.isSome_iff_exists.mp h
    exact ⟨r, hr, fun hnone => herr r hr (hnone val rfl)⟩

theorem isSome_getElem?_iff {val : List UInt8} (i : Nat) :
    val[i]?.isSome = true ↔ 1 * (i + 1) ≤ val.length := by
  by_cases h : i < val.length
  · rw [List.getElem?_eq_getElem h]
    exact iff_of_true rfl (by omega)
  · rw [List.getElem?_eq_none (Nat.le_of_not_lt h)]
    exact iff_of_false Bool.false_ne_true (by omega)

/-- The accessors guard these requests: of numbers, those whose elements are in the property; of a
    string, also every one when all strings are terminated. The strings are counted inside the
    property exactly when they are all terminated. Without the property all is guarded. -/
theorem accessors_guarded_iff (fdt_getprop : Int → CStr → Option (List UInt8)) (offset : Int)
    (name : CStr) :
    let val := property fdt_getprop offset name
    (∀ length, Guarded [] (HasArray 4 length) val
        (fdt_get_property_u_32_array fdt_getprop offset name length) ↔
      ∀ v ∈ val, HasArray 4 length v) ∧
    (∀ length, Guarded [] (HasArray 1 length) val
        (fdt_get_property_u_8_array fdt_getprop offset name length) ↔
      ∀ v ∈ val, HasArray 1 length v) ∧
    (∀ index, Guarded none (HasIndex 4 index) val
        (fdt_get_property_u_32_index fdt_getprop offset name index) ↔
      ∀ v ∈ val, HasIndex 4 index v) ∧
    (∀ index, Guarded none (HasString index) val
        (fdt_get_property_string_index fdt_getprop offset name index) ↔
      ∀ v ∈ val, AllTerminated v ∨ HasString index v) ∧
    ((fdt_property_count_strings fdt_getprop offset name).isSome = true ↔
      ∀ v ∈ val, AllTerminated v) := by
  refine ⟨fun length => ?_, fun length => ?_, fun index => ?_, fun index => ?_, ?_⟩
  · exact guarded_access_iff fun v =>
      guarded_of_read (hasArray_isSome fun _ => fdt32_to_cpup_isSome_iff)
  · exact guarded_access_iff fun v => guarded_of_read (hasArray_isSome isSome_getElem?_iff)
  · exact guarded_access_iff (guarded_index_iff index)
  · exact guarded_access_iff (guarded_string_iff index)
  · unfold fdt_property_count_strings
    cases property fdt_getprop offset name with
    | none => exact iff_of_true rfl nofun
    | some v =>
      dsimp only
      rw [countLoop_isSome_iff]
      exact ⟨fun hall _ hv => Option.some.inj hv ▸ hall, fun hall => hall v rfl⟩

/-- A property of a single word, and a request for its second one. -/
theorem accessors_guarded_fails :
    ¬ Guarded none (HasIndex 4 1) (property (fun _ _ => some [0, 0, 0, 5]) 0 [114, 101, 103])
      (fdt_get_property_u_32_index (fun _ _ => some [0, 0, 0, 5]) 0 [114, 101, 103] 1) :=
  fun ⟨_, h, _⟩ => Option.some_ne_none _ h.symm

end Hcrtos.Native.FdtApi
