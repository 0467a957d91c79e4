import Mathlib.Data.List.Basic

/-!
# Circular doubly linked lists

The links of a memory are partial functions `next` and `prev`. A list hangs off a head `h`, which
is a node like the others: behind the last node the links lead back to the head, and `prev` of the
head is the last node. An empty list is a head that is linked with itself.

## Key results

- `linked_append`: a path falls apart anywhere
- `Looped.next_eq`, `Looped.prev_eq`, `Looped.next_head`, `Looped.prev_head`: the links of a node
- `Looped.links`: the links in both directions belong together
- `Looped.concat`: a node is linked in front of the head
- `Looped.unlink`: a node is cut out
-/

namespace Hcrtos.Circular

variable {α : Type*} {next prev next' prev' : α → Option α}

/-- The links from `h` through `xs`, in both directions. -/
def Linked (next prev : α → Option α) : α → List α → Prop
  | _, [] => True
  | h, x :: xs => next h = some x ∧ prev x = some h ∧ Linked next prev x xs

/-- The list at the head `h` has the nodes `xs`. -/
def Looped (next prev : α → Option α) (h : α) (xs : List α) : Prop := Linked next prev h (xs ++ [h])

theorem linked_append {h : α} {xs ys : List α} : Linked next prev h (xs ++ ys) ↔
    Linked next prev h xs ∧ Linked next prev (xs.getLast?.getD h) ys := by
  induction xs generalizing h with
  | nil => simp [Linked]
  | cons x xs ih => simp [Linked, ih, List.getLast?_cons, and_assoc]

/-- A path has no use for the `next` of its last node, nor for the `prev` of its first one. -/
theorem Linked.congr {h : α} {xs : List α} (hp : Linked next prev h xs)
    (hnext : ∀ u ∈ (h :: xs).dropLast, next' u = next u) (hprev : ∀ u ∈ xs, prev' u = prev u) :
    Linked next' prev' h xs := by
  induction xs generalizing h with
  | nil => trivial
  | cons x xs ih =>
    obtain ⟨hx, hxp, htail⟩ := hp
    refine ⟨(hnext h (by simp)).trans hx, (hprev x (by simp)).trans hxp, ih htail ?_ ?_⟩
    · intro u hu
      exact hnext u (List.mem_cons_of_mem _ hu)
    · intro u hu
      exact hprev u (List.mem_cons_of_mem _ hu)

/-- The last node of a list without duplicates is none of the others. -/
theorem ne_last_of_mem_dropLast {h : α} {xs : List α} (hnodup : (h :: xs).Nodup) {u : α}
    (hu : u ∈ (h :: xs).dropLast) : u ≠ xs.getLast?.getD h := by
  have hsplit : (h :: xs).dropLast ++ [xs.getLast?.getD h] = h :: xs := by
    have hlast : (h :: xs).getLast (by simp) = xs.getLast?.getD h := by
      apply Option.some.inj
      rw [← List.getLast?_eq_some_getLast, List.getLast?_cons]
    rw [← hlast]
    exact List.dropLast_append_getLast _
  rw [← hsplit, List.nodup_append] at hnodup
  exact hnodup.2.2 u hu _ (List.mem_singleton_self _)

/-! ### The links of a node -/

section

variable {h a : α} {xs ys : List α}

theorem Looped.next_head (hr : Looped next prev h xs) : next h = some (xs.head?.getD h) := by
  cases xs with
  | nil => exact hr.1
  | cons x xs => exact hr.1

theorem Looped.prev_head (hr : Looped next prev h xs) : prev h = some (xs.getLast?.getD h) :=
  (linked_append.mp hr).2.2.1

theorem Looped.next_eq (hr : Looped next prev h (xs ++ a :: ys)) :
    next a = some (ys.head?.getD h) := by
  rw [Looped, List.append_assoc, List.cons_append] at hr
  have hback := (linked_append.mp hr).2.2.2
  cases ys with
  | nil => exact hback.1
  | cons y ys => exact hback.1

theorem Looped.prev_eq (hr : Looped next prev h (xs ++ a :: ys)) :
    prev a = some (xs.getLast?.getD h) := by
  rw [Looped, List.append_assoc, List.cons_append] at hr
  exact (linked_append.mp hr).2.2.1

/-- The links of a node lead to nodes that are linked with it. -/
theorem Linked.links {u : α} : ∀ {h : α} {xs : List α}, Linked next prev h xs →
    (u ∈ (h :: xs).dropLast → ∃ v, next u = some v ∧ prev v = some u) ∧
      (u ∈ xs → ∃ v, prev u = some v ∧ next v = some u) := by
  intro h xs
  induction xs generalizing h with
  | nil => simp
  | cons x xs ih =>
    rintro ⟨hx, hxp, htail⟩
    obtain ⟨hnexts, hprevs⟩ := ih htail
    constructor
    · intro hu
      rcases List.mem_cons.mp hu with rfl | hu
      · exact ⟨x, hx, hxp⟩
      · exact hnexts hu
    · intro hu
      rcases List.mem_cons.mp hu with rfl | hu
      · exact ⟨h, hxp, hx⟩
      · exact hprevs hu

theorem Looped.links (hr : Looped next prev h xs) (ha : a ∈ h :: xs) :
    (∃ b, next a = some b ∧ prev b = some a) ∧ ∃ b, prev a = some b ∧ next b = some a := by
  obtain ⟨hnexts, hprevs⟩ := Linked.links (u := a) hr
  have hdrop : (h :: (xs ++ [h])).dropLast = h :: xs := by
    rw [← List.cons_append, List.dropLast_concat]
  exact ⟨hnexts (hdrop.symm ▸ ha), hprevs (by simpa [or_comm] using ha)⟩

/-! ### Linking and cutting out -/

/-- A node is linked in front of the head. -/
theorem Looped.concat (hr : Looped next prev h xs) (hnodup : (h :: xs).Nodup)
    (hlast : next' (xs.getLast?.getD h) = some a) (hnext : next' a = some h)
    (hhead : prev' h = some a) (hprev : prev' a = some (xs.getLast?.getD h))
    (hnexts : ∀ u ∈ h :: xs, u ≠ xs.getLast?.getD h → next' u = next u)
    (hprevs : ∀ u ∈ xs, prev' u = prev u) : Looped next' prev' h (xs ++ [a]) := by
  rw [Looped, List.append_assoc, linked_append]
  refine ⟨(linked_append.mp hr).1.congr ?_ hprevs, hlast, hprev, hnext, hhead, trivial⟩
  intro u hu
  exact hnexts u (List.dropLast_subset _ hu) (ne_last_of_mem_dropLast hnodup hu)

/-- A node is cut out. -/
theorem Looped.unlink (hr : Looped next prev h (xs ++ a :: ys)) (hnodup : (h :: (xs ++ ys)).Nodup)
    (hnext : next' (xs.getLast?.getD h) = some (ys.head?.getD h))
    (hprev : prev' (ys.head?.getD h) = some (xs.getLast?.getD h))
    (hnexts : ∀ u ∈ h :: (xs ++ ys), u ≠ xs.getLast?.getD h → next' u = next u)
    (hprevs : ∀ u ∈ h :: (xs ++ ys), u ≠ ys.head?.getD h → prev' u = prev u) :
    Looped next' prev' h (xs ++ ys) := by
  rw [Looped, List.append_assoc, List.cons_append] at hr
  obtain ⟨hfront, -, -, hback⟩ := linked_append.mp hr
  have hapart : (h :: xs).Nodup ∧ ys.Nodup ∧ ∀ u ∈ h :: xs, ∀ v ∈ ys, u ≠ v := by
    rw [← List.cons_append, List.nodup_append] at hnodup
    exact hnodup
  obtain ⟨hxs, hys, hne⟩ := hapart
  have hp : xs.getLast?.getD h ∈ h :: xs := by
    rcases List.eq_nil_or_concat xs with rfl | ⟨zs, z, rfl⟩ <;> simp
  rw [Looped, List.append_assoc, linked_append]
  constructor
  · apply hfront.congr
    · intro u hu
      have hmem : u ∈ h :: xs := List.dropLast_subset _ hu
      exact hnexts u (List.mem_append_left ys hmem) (ne_last_of_mem_dropLast hxs hu)
    · intro u hu
      apply hprevs u (List.mem_cons_of_mem _ (List.mem_append_left ys hu))
      -- the node behind the one that is cut out is the head or stands behind it
      cases ys with
      | nil =>
        rintro rfl
        exact (List.nodup_cons.mp hxs).1 hu
      | cons y ys => exact hne u (List.mem_cons_of_mem _ hu) y List.mem_cons_self
  · cases ys with
    | nil => exact ⟨hnext, hprev, trivial⟩
    | cons y ys =>
      rw [List.nodup_cons] at hys
      refine ⟨hnext, hprev, hback.2.2.congr ?_ ?_⟩
      · intro u hu
        have hdrop : (y :: (ys ++ [h])).dropLast = y :: ys := by
          rw [← List.cons_append, List.dropLast_concat]
        have hmem : u ∈ y :: ys := hdrop ▸ hu
        exact hnexts u (by simp at hmem ⊢; tauto) (hne _ hp u hmem).symm
      · intro u hu
        apply hprevs u (by simp at hu ⊢; tauto)
        rcases List.mem_append.mp hu with hu | hu
        · rintro rfl
          exact hys.1 hu
        · obtain rfl := List.mem_singleton.mp hu
          exact hne u List.mem_cons_self y List.mem_cons_self

end

end Hcrtos.Circular
