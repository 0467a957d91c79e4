import Mathlib.Data.List.Sort
import Mathlib.Data.Set.Card

/-!
# Tables that are sorted by a key

A table is a list of entries with strictly increasing keys. It stands for the partial function
from a key to its entry.

## Key results

- `bsearch_eq`: a binary search finds the entry of a key
- `lookup_insert`, `lookup_erase`, `lookup_set`: the function after an entry is inserted in its
  place, deleted or replaced
- `Sorted.insert`, `Sorted.erase`, `Sorted.set`: the table stays sorted
-/

namespace Hcrtos.SortedTable

variable {α κ : Type*} [LinearOrder κ] (key : α → κ)

/-- The keys increase. -/
def Sorted (xs : List α) : Prop := xs.Pairwise fun a b => key a < key b

/-- The entry of a key. -/
def lookup (xs : List α) (k : κ) : Option α := xs.find? fun e => decide (key e = k)

/-- The number of entries in front of the place of a key. -/
def place : List α → κ → Nat
  | [], _ => 0
  | x :: xs, k => if key x < k then place xs k + 1 else 0

/-- The table with an entry in its place. -/
def insert (xs : List α) (e : α) : List α :=
  xs.take (place key xs (key e)) ++ e :: xs.drop (place key xs (key e))

variable {key} {xs : List α} {k : κ} {e : α} {i : Nat}

theorem Sorted.eq_of_key_eq (h : Sorted key xs) {a b : α} (ha : a ∈ xs) (hb : b ∈ xs)
    (hk : key a = key b) : a = b := by
  induction xs with
  | nil => cases ha
  | cons x xs ih =>
    obtain ⟨hlt, hrest⟩ := List.pairwise_cons.mp h
    rcases List.mem_cons.mp ha with hax | ha' <;> rcases List.mem_cons.mp hb with hbx | hb'
    · rw [hax, hbx]
    · exact absurd (hax ▸ hk) (hlt b hb').ne
    · exact absurd (hbx ▸ hk) (hlt a ha').ne'
    · exact ih hrest ha' hb'

theorem lookup_cons {x : α} :
    lookup key (x :: xs) k = if key x = k then some x else lookup key xs k := by
  simp only [lookup, List.find?_cons]
  split <;> simp_all

theorem mem_of_lookup (h : lookup key xs k = some e) : e ∈ xs ∧ key e = k := by
  induction xs with
  | nil => cases h
  | cons x xs ih =>
    rw [lookup_cons] at h
    split at h
    · next hx =>
      cases h
      exact ⟨List.mem_cons_self, hx⟩
    · exact ⟨List.mem_cons_of_mem x (ih h).1, (ih h).2⟩

theorem lookup_eq_none_iff : lookup key xs k = none ↔ ∀ e ∈ xs, key e ≠ k := by
  simp [lookup]

/-- A key has at most one entry. -/
theorem Sorted.lookup_eq_some_iff (h : Sorted key xs) :
    lookup key xs k = some e ↔ e ∈ xs ∧ key e = k := by
  constructor
  · exact mem_of_lookup
  · intro he
    cases hl : lookup key xs k with
    | none => exact absurd he.2 (lookup_eq_none_iff.mp hl e he.1)
    | some e' =>
      obtain ⟨hmem, hkey⟩ := mem_of_lookup hl
      rw [h.eq_of_key_eq hmem he.1 (hkey.trans he.2.symm)]

/-- Two tables with the same entries for a key. -/
theorem lookup_congr {ys : List α} (hxs : Sorted key xs) (hys : Sorted key ys)
    (h : ∀ e, key e = k → (e ∈ xs ↔ e ∈ ys)) : lookup key xs k = lookup key ys k := by
  apply Option.ext
  intro e
  rw [hxs.lookup_eq_some_iff, hys.lookup_eq_some_iff]
  constructor
  · intro he
    exact ⟨(h e he.2).mp he.1, he.2⟩
  · intro he
    exact ⟨(h e he.2).mpr he.1, he.2⟩

/-! ### Changes -/

theorem place_le_length : place key xs k ≤ xs.length := by
  induction xs with
  | nil => exact le_refl 0
  | cons x xs ih =>
    rw [place]
    split
    · exact Nat.succ_le_succ ih
    · exact Nat.zero_le _

/-- A key that the table has stands in its place. -/
theorem Sorted.getElem_place (h : Sorted key xs) (hmem : ∃ e ∈ xs, key e = k) :
    ∃ hi : place key xs k < xs.length, key xs[place key xs k] = k := by
  induction xs with
  | nil => simp at hmem
  | cons x xs ih =>
    obtain ⟨hlt, hrest⟩ := List.pairwise_cons.mp h
    obtain ⟨a, ha, hak⟩ := hmem
    by_cases hx : key x < k
    · have hmem' : ∃ e ∈ xs, key e = k := by
        rcases List.mem_cons.mp ha with rfl | ha
        · exact absurd hak hx.ne
        · exact ⟨a, ha, hak⟩
      obtain ⟨hi, hget⟩ := ih hrest hmem'
      simp only [place, hx, if_true, List.length_cons, List.getElem_cons_succ]
      exact ⟨by omega, hget⟩
    · simp only [place, hx, if_false, List.getElem_cons_zero]
      rcases List.mem_cons.mp ha with rfl | ha
      · exact ⟨Nat.succ_pos _, hak⟩
      · exact absurd (hak ▸ hlt a ha) hx

theorem insert_cons_of_lt {x : α} (h : key x < key e) :
    insert key (x :: xs) e = x :: insert key xs e := by
  simp [insert, place, h]

theorem insert_cons_of_le {x : α} (h : ¬ key x < key e) :
    insert key (x :: xs) e = e :: x :: xs := by
  simp [insert, place, h]

theorem mem_insert {a : α} : a ∈ insert key xs e ↔ a = e ∨ a ∈ xs := by
  have hsplit : a ∈ xs ↔
      a ∈ xs.take (place key xs (key e)) ∨ a ∈ xs.drop (place key xs (key e)) := by
    rw [← List.mem_append, List.take_append_drop]
  rw [insert, List.mem_append, List.mem_cons, hsplit]
  tauto

theorem Sorted.insert (h : Sorted key xs) (hnew : ∀ a ∈ xs, key a ≠ key e) :
    Sorted key (insert key xs e) := by
  induction xs with
  | nil => exact List.pairwise_singleton _ e
  | cons x xs ih =>
    obtain ⟨hlt, hrest⟩ := List.pairwise_cons.mp h
    have hnew' : ∀ a ∈ xs, key a ≠ key e := fun a ha => hnew a (List.mem_cons_of_mem x ha)
    by_cases hx : key x < key e
    · rw [insert_cons_of_lt hx]
      refine List.pairwise_cons.mpr ⟨fun a ha => ?_, ih hrest hnew'⟩
      rcases mem_insert.mp ha with rfl | ha
      · exact hx
      · exact hlt a ha
    · -- the entry stands in front of a greater one
      rw [insert_cons_of_le hx]
      have hxe : key e < key x :=
        lt_of_le_of_ne (not_lt.mp hx) (hnew x List.mem_cons_self).symm
      refine List.pairwise_cons.mpr ⟨fun a ha => ?_, h⟩
      rcases List.mem_cons.mp ha with rfl | ha
      · exact hxe
      · exact hxe.trans (hlt a ha)

theorem lookup_insert (h : Sorted key xs) (hnew : ∀ a ∈ xs, key a ≠ key e) :
    lookup key (insert key xs e) k = if k = key e then some e else lookup key xs k := by
  split
  · next hk =>
    rw [(h.insert hnew).lookup_eq_some_iff]
    exact ⟨mem_insert.mpr (.inl rfl), hk.symm⟩
  · next hk =>
    apply lookup_congr (h.insert hnew) h
    intro a ha
    rw [mem_insert]
    constructor
    · rintro (rfl | hmem)
      · exact absurd ha.symm hk
      · exact hmem
    · exact .inr

theorem Sorted.erase (h : Sorted key xs) (i : Nat) : Sorted key (xs.eraseIdx i) :=
  h.sublist (List.eraseIdx_sublist xs i)

/-- The keys increase with the index. -/
theorem Sorted.key_getElem_inj (h : Sorted key xs) {i j : Nat} (hi : i < xs.length)
    (hj : j < xs.length) : key xs[i] = key xs[j] ↔ i = j := by
  constructor
  · intro hk
    rcases Nat.lt_trichotomy i j with hij | hij | hij
    · exact absurd hk (List.pairwise_iff_getElem.mp h i j hi hj hij).ne
    · exact hij
    · exact absurd hk (List.pairwise_iff_getElem.mp h j i hj hi hij).ne'
  · rintro rfl
    rfl

theorem lookup_erase (h : Sorted key xs) (hi : i < xs.length) :
    lookup key (xs.eraseIdx i) k = if k = key xs[i] then none else lookup key xs k := by
  split
  · next hk =>
    rw [lookup_eq_none_iff]
    intro a ha hak
    obtain ⟨j, hj, hji, rfl⟩ := List.mem_eraseIdx_iff_getElem.mp ha
    exact hji ((h.key_getElem_inj hj hi).mp (hak.trans hk))
  · next hk =>
    apply lookup_congr (h.erase i) h
    intro a ha
    rw [List.mem_eraseIdx_iff_getElem]
    constructor
    · rintro ⟨j, hj, -, rfl⟩
      exact List.getElem_mem hj
    · intro hmem
      obtain ⟨j, hj, rfl⟩ := List.getElem_of_mem hmem
      refine ⟨j, hj, ?_, rfl⟩
      rintro rfl
      exact hk ha.symm

theorem Sorted.set (h : Sorted key xs) (hi : i < xs.length) (hk : key e = key xs[i]) :
    Sorted key (xs.set i e) := by
  apply List.pairwise_iff_getElem.mpr
  intro a b ha hb hab
  rw [List.length_set] at ha hb
  have hlt := List.pairwise_iff_getElem.mp h a b ha hb hab
  rw [List.getElem_set, List.getElem_set]
  split_ifs with h1 h2 h2
  · omega
  · subst h1
    rwa [hk]
  · subst h2
    rwa [hk]
  · exact hlt

theorem lookup_set (h : Sorted key xs) (hi : i < xs.length) (hk : key e = key xs[i]) :
    lookup key (xs.set i e) k = if k = key e then some e else lookup key xs k := by
  split
  · next hke =>
    rw [(h.set hi hk).lookup_eq_some_iff]
    exact ⟨List.mem_set hi e, hke.symm⟩
  · next hke =>
    apply lookup_congr (h.set hi hk) h
    intro a ha
    constructor
    · intro hmem
      obtain ⟨j, hj, rfl⟩ := List.getElem_of_mem hmem
      rw [List.getElem_set] at ha ⊢
      split at ha
      · exact absurd ha.symm hke
      · next hij =>
        rw [if_neg hij]
        exact List.getElem_mem _
    · intro hmem
      obtain ⟨j, hj, rfl⟩ := List.getElem_of_mem hmem
      have hij : i ≠ j := by
        intro hij
        subst hij
        exact hke (ha.symm.trans hk.symm)
      rw [List.mem_iff_getElem]
      exact ⟨j, by rwa [List.length_set], List.getElem_set_ne hij _⟩

/-! ### Ranks -/

theorem isSome_lookup_iff : (lookup key xs k).isSome = true ↔ ∃ e ∈ xs, key e = k := by
  rw [Option.isSome_iff_ne_none, ne_eq, lookup_eq_none_iff]
  push Not
  rfl

/-- The keys of a table, as a set. -/
theorem keys_eq : {k | (lookup key xs k).isSome = true} = {k | k ∈ xs.map key} := by
  ext k
  simp only [Set.mem_ofPred_eq, isSome_lookup_iff, List.mem_map]

theorem Sorted.nodup_keys (h : Sorted key xs) : (xs.map key).Nodup := by
  rw [List.Nodup, List.pairwise_map]
  exact h.imp fun hab => hab.ne

theorem ncard_of_nodup {ks : List κ} (h : ks.Nodup) : {k | k ∈ ks}.ncard = ks.length := by
  have hcoe : {k | k ∈ ks} = (ks.toFinset : Set κ) := by
    ext k
    simp
  rw [hcoe, Set.ncard_coe_finset, List.toFinset_card_of_nodup h]

/-- There are as many keys as entries. -/
theorem Sorted.ncard_keys (h : Sorted key xs) :
    {k | (lookup key xs k).isSome = true}.ncard = xs.length := by
  rw [keys_eq, ncard_of_nodup h.nodup_keys, List.length_map]

/-- The index of an entry is the number of smaller keys. -/
theorem Sorted.ncard_lt (h : Sorted key xs) (hi : i < xs.length) :
    {k | k < key xs[i] ∧ (lookup key xs k).isSome = true}.ncard = i := by
  have hset : {k | k < key xs[i] ∧ (lookup key xs k).isSome = true} =
      {k | k ∈ (xs.take i).map key} := by
    ext k
    simp only [Set.mem_ofPred_eq, isSome_lookup_iff, List.mem_map]
    constructor
    · rintro ⟨hlt, e, he, rfl⟩
      obtain ⟨j, hj, rfl⟩ := List.getElem_of_mem he
      refine ⟨xs[j], ?_, rfl⟩
      -- an entry behind this one has a greater key
      have hji : j < i := by
        by_contra hge
        rcases Nat.eq_or_lt_of_le (Nat.not_lt.mp hge) with heq | hlt'
        · subst heq
          exact lt_irrefl _ hlt
        · exact lt_asymm hlt (List.pairwise_iff_getElem.mp h i j hi hj hlt')
      exact List.mem_take_iff_getElem.mpr ⟨j, by omega, rfl⟩
    · rintro ⟨e, he, rfl⟩
      obtain ⟨j, hj, rfl⟩ := List.mem_take_iff_getElem.mp he
      exact ⟨List.pairwise_iff_getElem.mp h j i (by omega) hi (by omega), _,
        List.getElem_mem _, rfl⟩
  have hnodup : ((xs.take i).map key).Nodup :=
    Sorted.nodup_keys (List.Pairwise.sublist (List.take_sublist i xs) h)
  rw [hset, ncard_of_nodup hnodup, List.length_map, List.length_take, Nat.min_eq_left hi.le]

/-! ### Binary search -/

/-- `bsearch`: the index of an entry with the key, among `n` entries from `base` on. -/
def bsearchFrom (key : α → κ) (xs : List α) (k : κ) : Nat → Nat → Nat → Option Nat
  | 0, _, _ => none
  | fuel + 1, base, n =>
    if n = 0 then none
    else
      match xs[base + n / 2]? with
      | none => none
      | some p =>
        if k < key p then bsearchFrom key xs k fuel base (n / 2)
        else if key p < k then bsearchFrom key xs k fuel (base + n / 2 + 1) (n - n / 2 - 1)
        else some (base + n / 2)

def bsearch (key : α → κ) (xs : List α) (k : κ) : Option Nat :=
  bsearchFrom key xs k (xs.length + 1) 0 xs.length

theorem bsearchFrom_spec (h : Sorted key xs) {fuel base n : Nat} (hfuel : n < fuel)
    (hlen : base + n ≤ xs.length) (hbelow : ∀ j, ∀ hj : j < xs.length, j < base → key xs[j] < k)
    (habove : ∀ j, ∀ hj : j < xs.length, base + n ≤ j → k < key xs[j]) :
    (bsearchFrom key xs k fuel base n).bind (xs[·]?) = lookup key xs k := by
  induction fuel generalizing base n with
  | zero => omega
  | succ fuel ih =>
    rw [bsearchFrom]
    split
    · next hn =>
      -- nothing is left between the entries below and above the key
      symm
      rw [Option.bind_none, lookup_eq_none_iff]
      intro a ha
      obtain ⟨j, hj, rfl⟩ := List.getElem_of_mem ha
      rcases Nat.lt_or_ge j base with hlt | hge
      · exact (hbelow j hj hlt).ne
      · exact (habove j hj (by omega)).ne'
    · next hn =>
      have hmid : base + n / 2 < xs.length := by omega
      rw [List.getElem?_eq_getElem hmid]
      simp only
      split
      · next hlt =>
        refine ih (by omega) (by omega) hbelow fun j hj hle => ?_
        rcases Nat.eq_or_lt_of_le hle with heq | hlt'
        · subst heq
          exact hlt
        · exact hlt.trans (List.pairwise_iff_getElem.mp h _ j hmid hj hlt')
      · next hnlt =>
        split
        · next hgt =>
          refine ih (by omega) (by omega) (fun j hj hle => ?_)
            fun j hj hle => habove j hj (by omega)
          rcases Nat.eq_or_lt_of_le (Nat.lt_succ_iff.mp hle) with heq | hlt'
          · subst heq
            exact hgt
          · exact (List.pairwise_iff_getElem.mp h j _ hj hmid hlt').trans hgt
        · next hngt =>
          have hkey : key xs[base + n / 2] = k := le_antisymm (not_lt.mp hnlt) (not_lt.mp hngt)
          rw [Option.bind_some, List.getElem?_eq_getElem hmid]
          exact (h.lookup_eq_some_iff.mpr ⟨List.getElem_mem hmid, hkey⟩).symm

/-- A binary search finds the entry of a key. -/
theorem bsearch_eq (h : Sorted key xs) : (bsearch key xs k).bind (xs[·]?) = lookup key xs k :=
  bsearchFrom_spec h (Nat.lt_succ_self _) (by omega) (by omega) (by omega)

theorem bsearchFrom_lt {fuel base n : Nat} (h : bsearchFrom key xs k fuel base n = some i) :
    i < xs.length := by
  induction fuel generalizing base n with
  | zero => cases h
  | succ fuel ih =>
    rw [bsearchFrom] at h
    split at h
    · cases h
    · split at h
      · cases h
      · next hp =>
        split at h
        · exact ih h
        · split at h
          · exact ih h
          · cases h
            exact (List.getElem?_eq_some_iff.mp hp).1

theorem bsearch_lt (h : bsearch key xs k = some i) : i < xs.length := bsearchFrom_lt h

end Hcrtos.SortedTable
