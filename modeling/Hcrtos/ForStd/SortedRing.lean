import Mathlib.Data.Finset.Sort
import Mathlib.Tactic.ByContra

/-!
# Sorted circular lists

A circular doubly linked list through a sentinel `z` that is below all of its members, the
links given by two functions. The members stand in increasing order.

## Key results

- `SortedRing.insert`, `SortedRing.erase`, `SortedRing.replace`: the edits
- `SortedRing.isChain`: following the links from the sentinel visits the members in order
- `SortedRing.passed_all`, `SortedRing.remaining_next`: going around the ring from any node
-/

namespace Hcrtos

variable {α : Type*} [LinearOrder α] {next prev next' prev' : α → α} {z : α} {S : Finset α}

/-- The members `S` form a ring through `z`, in increasing order. -/
structure SortedRing (next prev : α → α) (z : α) (S : Finset α) : Prop where
  lt : ∀ c ∈ S, z < c
  next_mem : ∀ x ∈ insert z S, next x ∈ insert z S
  prev_mem : ∀ x ∈ insert z S, prev x ∈ insert z S
  next_prev : ∀ x ∈ insert z S, next (prev x) = x
  prev_next : ∀ x ∈ insert z S, prev (next x) = x
  lt_next : ∀ x ∈ insert z S, next x ≠ z → x < next x
  /-- No member stands between a node and its successor. -/
  gap : ∀ x ∈ insert z S, ∀ y ∈ S, x < y → next x ≠ z ∧ next x ≤ y

namespace SortedRing

variable (h : SortedRing next prev z S)
include h

theorem notMem : z ∉ S := fun hz => lt_irrefl _ (h.lt z hz)

theorem prev_lt {x : α} (hx : x ∈ S) : prev x < x := by
  have hmem : x ∈ insert z S := Finset.mem_insert_of_mem hx
  have hlt := h.lt_next (prev x) (h.prev_mem x hmem)
  rw [h.next_prev x hmem] at hlt
  exact hlt (ne_of_gt (h.lt x hx))

/-- The ring is read off the links of its nodes. -/
theorem congr (hnext : ∀ x ∈ insert z S, next' x = next x)
    (hprev : ∀ x ∈ insert z S, prev' x = prev x) : SortedRing next' prev' z S where
  lt := h.lt
  next_mem x hx := by rw [hnext x hx]; exact h.next_mem x hx
  prev_mem x hx := by rw [hprev x hx]; exact h.prev_mem x hx
  next_prev x hx := by rw [hprev x hx, hnext _ (h.prev_mem x hx)]; exact h.next_prev x hx
  prev_next x hx := by rw [hnext x hx, hprev _ (h.next_mem x hx)]; exact h.prev_next x hx
  lt_next x hx := by rw [hnext x hx]; exact h.lt_next x hx
  gap x hx := by rw [hnext x hx]; exact h.gap x hx

/-- The successor of a member is another node. -/
theorem next_ne_self {c : α} (hc : c ∈ S) : next c ≠ c := by
  intro hcc
  have hlt := h.lt_next c (Finset.mem_insert_of_mem hc)
  rw [hcc] at hlt
  exact lt_irrefl _ (hlt (ne_of_gt (h.lt c hc)))

/-- A new member `c` behind the node `a`. -/
theorem insert {a c : α} (ha : a ∈ Insert.insert z S) (hac : a < c)
    (hc : next a = z ∨ c < next a)
    (hnext : ∀ x ∈ Insert.insert z (Insert.insert c S),
      next' x = if x = c then next a else if x = a then c else next x)
    (hprev : ∀ x ∈ Insert.insert z (Insert.insert c S),
      prev' x = if x = c then a else if x = next a then c else prev x) :
    SortedRing next' prev' z (Insert.insert c S) := by
  have hza : z ≤ a := by
    obtain rfl | ha := Finset.mem_insert.mp ha
    · exact le_refl _
    · exact le_of_lt (h.lt a ha)
  have hcz : c ≠ z := ne_of_gt (lt_of_le_of_lt hza hac)
  have hcS : c ∉ S := by
    intro hcS
    obtain ⟨hne, hle⟩ := h.gap a ha c hcS hac
    exact absurd (hc.resolve_left hne) (not_lt_of_ge hle)
  have hbc : next a ≠ c := by
    rintro hbc
    obtain hb | hb := hc
    · exact hcz (hbc.symm.trans hb)
    · exact lt_irrefl _ (hbc ▸ hb)
  have hb := h.next_mem a ha
  have hpb := h.prev_next a ha
  -- A node of the new ring is `c` or an old one.
  have hnode : ∀ x, x ∈ Insert.insert z (Insert.insert c S) ↔ x = c ∨ x ∈ Insert.insert z S := by
    intro x
    simp only [Finset.mem_insert]
    tauto
  have hold : ∀ x ∈ Insert.insert z S, x ≠ c := by
    rintro x hx rfl
    exact (Finset.mem_insert.mp hx).elim hcz hcS
  constructor
  · intro x hx
    obtain rfl | hx := Finset.mem_insert.mp hx
    · exact lt_of_le_of_lt hza hac
    · exact h.lt x hx
  · intro x hx
    rw [hnext x hx, hnode]
    have := h.next_mem x
    grind
  · intro x hx
    rw [hprev x hx, hnode]
    have := h.prev_mem x
    grind
  · intro x hx
    have h₁ := hnext c ((hnode c).mpr (.inl rfl))
    have h₂ := hnext a ((hnode a).mpr (.inr ha))
    have h₃ := hnext (prev x)
    have h₄ := h.next_prev x
    have h₅ := h.prev_mem x
    have h₆ := hold a ha
    rw [hprev x hx]
    rw [hnode] at hx h₃
    clear hnext hprev
    grind
  · intro x hx
    have h₁ := hprev c ((hnode c).mpr (.inl rfl))
    have h₂ := hprev (next a) ((hnode _).mpr (.inr hb))
    have h₃ := hprev (next x)
    have h₄ := h.prev_next x
    have h₅ := h.next_mem x
    rw [hnext x hx]
    rw [hnode] at hx h₃
    clear hnext hprev
    grind
  · intro x hx
    have h₁ := h.lt_next x
    have h₂ := h.lt_next a ha
    rw [hnext x hx]
    rw [hnode] at hx
    clear hnext hprev
    grind
  · intro x hx y hy hxy
    have h₁ := h.gap x
    have h₂ := h.gap a ha
    have h₃ := h.lt_next x
    have h₄ := h.lt x
    have h₅ := h.lt a
    rw [hnext x hx]
    rw [hnode] at hx
    clear hnext hprev
    grind

/-- The ring without its member `c`. -/
theorem erase {c : α} (hc : c ∈ S)
    (hnext : ∀ x ∈ Insert.insert z (S.erase c),
      next' x = if x = prev c then next c else next x)
    (hprev : ∀ x ∈ Insert.insert z (S.erase c),
      prev' x = if x = next c then prev c else prev x) :
    SortedRing next' prev' z (S.erase c) := by
  have hcn : c ∈ Insert.insert z S := Finset.mem_insert_of_mem hc
  have hcz : c ≠ z := ne_of_gt (h.lt c hc)
  have ha := h.prev_mem c hcn
  have hna := h.next_prev c hcn
  have hb := h.next_mem c hcn
  have hpb := h.prev_next c hcn
  have hac : prev c < c := h.prev_lt hc
  have hbc : next c ≠ c := h.next_ne_self hc
  have hnode : ∀ x, x ∈ Insert.insert z (S.erase c) ↔ x ≠ c ∧ x ∈ Insert.insert z S := by
    intro x
    simp only [Finset.mem_insert, Finset.mem_erase]
    constructor
    · rintro (rfl | hx)
      · exact ⟨hcz.symm, .inl rfl⟩
      · exact ⟨hx.1, .inr hx.2⟩
    · tauto
  constructor
  · intro x hx
    exact h.lt x (Finset.mem_of_mem_erase hx)
  · intro x hx
    rw [hnext x hx, hnode]
    rw [hnode] at hx
    have h₁ := h.next_mem x hx.2
    have h₂ := h.prev_next x hx.2
    grind
  · intro x hx
    rw [hprev x hx, hnode]
    rw [hnode] at hx
    have h₁ := h.prev_mem x hx.2
    have h₂ := h.next_prev x hx.2
    grind
  · intro x hx
    have h₁ := hnext (prev c)
    have h₂ := hnext (prev x)
    have h₃ := h.next_prev x
    have h₄ := h.prev_mem x
    rw [hprev x hx]
    rw [hnode] at hx h₁ h₂
    clear hnext hprev
    grind
  · intro x hx
    have h₁ := hprev (next c)
    have h₂ := hprev (next x)
    have h₃ := h.prev_next x
    have h₄ := h.next_mem x
    rw [hnext x hx]
    rw [hnode] at hx h₁ h₂
    clear hnext hprev
    grind
  · intro x hx
    have h₁ := h.lt_next x
    have h₂ := h.lt_next c hcn
    rw [hnext x hx]
    rw [hnode] at hx
    clear hnext hprev
    grind
  · intro x hx y hy hxy
    have h₁ := h.gap x
    have h₂ := h.gap c hcn y
    rw [hnext x hx]
    rw [hnode] at hx
    rw [Finset.mem_erase] at hy
    clear hnext hprev
    grind

/-- A member `d` in the place of the member `c` before it. -/
theorem replace {c d : α} (hc : c ∈ S) (hcd : c < d) (hd : next c = z ∨ d < next c)
    (hnext : ∀ x ∈ Insert.insert z (Insert.insert d (S.erase c)),
      next' x = if x = d then next c else if x = prev c then d else next x)
    (hprev : ∀ x ∈ Insert.insert z (Insert.insert d (S.erase c)),
      prev' x = if x = d then prev c else if x = next c then d else prev x) :
    SortedRing next' prev' z (Insert.insert d (S.erase c)) := by
  have hcn : c ∈ Insert.insert z S := Finset.mem_insert_of_mem hc
  have herase : SortedRing (fun x => if x = prev c then next c else next x)
      (fun x => if x = next c then prev c else prev x) z (S.erase c) :=
    h.erase hc (fun _ _ => rfl) (fun _ _ => rfl)
  have ha : prev c ∈ Insert.insert z (S.erase c) := by
    have := h.prev_mem c hcn
    simp only [Finset.mem_insert, Finset.mem_erase] at this ⊢
    exact this.imp_right fun hm => ⟨ne_of_lt (h.prev_lt hc), hm⟩
  -- Behind the predecessor of `c` comes now what came behind `c`.
  apply herase.insert ha (lt_trans (h.prev_lt hc) hcd)
  · simpa using hd
  · intro x hx
    rw [hnext x hx]
    simp only [if_true]
    grind
  · intro x hx
    rw [hprev x hx]
    simp only [if_true]
    grind

/-! ### The ring as a list -/

/-- From the node `x`, the links go through the members above it. -/
theorem isChain_aux {l : List α} {x : α} (hx : x ∈ Insert.insert z S) (hsorted : l.Pairwise (· < ·))
    (hmem : ∀ y, y ∈ l ↔ y ∈ S ∧ x < y) :
    (x :: l ++ [z]).IsChain fun a b => next a = b ∧ prev b = a := by
  induction l generalizing x with
  | nil =>
    have hz : next x = z := by
      by_contra hne
      have := (Finset.mem_insert.mp (h.next_mem x hx)).resolve_left hne
      exact (List.not_mem_nil) ((hmem _).mpr ⟨this, h.lt_next x hx hne⟩)
    have := h.prev_next x hx
    simp [hz, hz ▸ this]
  | cons a l ih =>
    obtain ⟨haS, hxa⟩ := (hmem a).mp (by simp)
    obtain ⟨hne, hle⟩ := h.gap x hx a haS hxa
    -- The successor is a member above `x`, so the first of the list.
    have hmem' := (Finset.mem_insert.mp (h.next_mem x hx)).resolve_left hne
    have hnext : next x = a := by
      apply le_antisymm hle
      obtain hn | hn := List.mem_cons.mp ((hmem _).mpr ⟨hmem', h.lt_next x hx hne⟩)
      · exact le_of_eq hn.symm
      · exact le_of_lt ((List.pairwise_cons.mp hsorted).1 _ hn)
    have hprev : prev a = x := hnext ▸ h.prev_next x hx
    have htail := ih (x := a) (Finset.mem_insert_of_mem haS) hsorted.of_cons (by
      intro y
      constructor
      · intro hy
        exact ⟨((hmem y).mp (List.mem_cons_of_mem _ hy)).1, (List.pairwise_cons.mp hsorted).1 y hy⟩
      · rintro ⟨hyS, hay⟩
        have := (hmem y).mpr ⟨hyS, lt_trans hxa hay⟩
        exact (List.mem_cons.mp this).resolve_left (ne_of_gt hay))
    exact List.isChain_cons_cons.mpr ⟨⟨hnext, hprev⟩, htail⟩

/-- From the sentinel, the links go through all members in increasing order. -/
theorem isChain :
    (z :: S.sort (· ≤ ·) ++ [z]).IsChain fun a b => next a = b ∧ prev b = a := by
  apply h.isChain_aux (Finset.mem_insert_self _ _)
  · exact S.sortedLT_sort.pairwise
  · intro y
    simp only [Finset.mem_sort]
    exact ⟨fun hy => ⟨hy, h.lt y hy⟩, fun hy => hy.1⟩

/-! ### Going around -/

theorem le_of_mem {x : α} (hx : x ∈ Insert.insert z S) : z ≤ x := by
  obtain rfl | hx := Finset.mem_insert.mp hx
  · exact le_refl _
  · exact le_of_lt (h.lt x hx)

theorem le_or_next_le {x y : α} (hy : y ∈ Insert.insert z S) (hx : x ∈ Insert.insert z S) :
    x ≤ y ∨ next y ≠ z ∧ next y ≤ x := by
  rcases le_or_gt x y with hle | hlt
  · exact .inl hle
  · obtain rfl | hx := Finset.mem_insert.mp hx
    · exact absurd hlt (not_lt_of_ge (h.le_of_mem hy))
    · exact .inr (h.gap y hy x hx hlt)

/-- On the way around from the node `s` to the node `y`, the node `x` comes before `y`. -/
def Passed (s y x : α) : Prop := if s ≤ y then s ≤ x ∧ x < y else s ≤ x ∨ x < y

instance (s y x : α) : Decidable (Passed s y x) := by
  unfold Passed
  infer_instance

omit h in
theorem not_passed_self (s y : α) : ¬ Passed s y y := by
  unfold Passed
  grind

omit h in
theorem not_passed_start (s x : α) : ¬ Passed s s x := by
  unfold Passed
  grind

/-- Back at the start, all nodes were passed. -/
theorem passed_all {s x y : α} (hs : s ∈ Insert.insert z S) (hy : y ∈ Insert.insert z S)
    (hx : x ∈ Insert.insert z S) (heq : next y = s) : Passed s y x ∨ x = y := by
  have := h.le_of_mem hs
  have := h.le_of_mem hy
  have := h.le_of_mem hx
  have := h.le_or_next_le hy hx
  have := h.le_or_next_le hy hs
  have := h.lt_next y hy
  unfold Passed
  grind

/-- One step passes one node. -/
theorem passed_next {s x y : α} (hs : s ∈ Insert.insert z S) (hy : y ∈ Insert.insert z S)
    (hx : x ∈ Insert.insert z S) (hne : next y ≠ s) :
    Passed s (next y) x ↔ Passed s y x ∨ x = y := by
  have := h.le_of_mem hs
  have := h.le_of_mem hy
  have := h.le_of_mem hx
  have := h.le_or_next_le hy hx
  have := h.le_or_next_le hy hs
  have := h.lt_next y hy
  unfold Passed
  grind

/-- How many nodes there are from `y` on until the way is back at `s`. -/
def remaining (z : α) (S : Finset α) (s y : α) : Nat :=
  ((Insert.insert z S).filter fun x => ¬ Passed s y x).card

omit h in
theorem remaining_le (s y : α) : remaining z S s y ≤ S.card + 1 :=
  le_trans (Finset.card_filter_le _ _) (Finset.card_insert_le z S)

omit h in
theorem remaining_pos {s y : α} (hy : y ∈ Insert.insert z S) : 0 < remaining z S s y :=
  Finset.card_pos.mpr ⟨y, Finset.mem_filter.mpr ⟨hy, not_passed_self s y⟩⟩

/-- Every step leaves one node less. -/
theorem remaining_next {s y : α} (hs : s ∈ Insert.insert z S) (hy : y ∈ Insert.insert z S)
    (hne : next y ≠ s) : remaining z S s (next y) < remaining z S s y := by
  unfold remaining
  apply Finset.card_lt_card
  rw [Finset.ssubset_iff_of_subset]
  · refine ⟨y, ?_, ?_⟩
    · exact Finset.mem_filter.mpr ⟨hy, not_passed_self s y⟩
    · intro hmem
      exact (Finset.mem_filter.mp hmem).2 ((h.passed_next hs hy hy hne).mpr (.inr rfl))
  · intro x hx
    obtain ⟨hxS, hnot⟩ := Finset.mem_filter.mp hx
    refine Finset.mem_filter.mpr ⟨hxS, fun hp => hnot ?_⟩
    exact (h.passed_next hs hy hxS hne).mpr (.inl hp)

end SortedRing

end Hcrtos
