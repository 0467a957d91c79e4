import Mathlib.Data.List.Basic
import Hcrtos.ForStd.Loop

/-!
# Singly linked lists

The links of a memory are a partial function: `next a` is `none` where there is no node, and the
link of the node elsewhere. `Seg next l t` says that the nodes of `l` are linked one behind the
other, and the last one to `t`. A list in memory is a segment that ends with a null link, and the
pointer to it is `l.head?`.

## Key results

- `seg_append`: a segment falls apart anywhere
- `Seg.congr`: a segment depends on the links of its own nodes
- `Seg.unlink`, `Seg.concat`: a node is cut out, a node is put behind the last one
- `last_loop`: the walk to the last node
-/

namespace Hcrtos.Chain

open Loop

variable {α : Type*} {next next' : α → Option (Option α)}

/-- The nodes of `l` are linked in this order, and the last one to `t`. -/
def Seg (next : α → Option (Option α)) : List α → Option α → Prop
  | [], _ => True
  | a :: l, t => next a = some (l.head?.or t) ∧ Seg next l t

theorem seg_append {l₁ l₂ : List α} {t : Option α} :
    Seg next (l₁ ++ l₂) t ↔ Seg next l₁ (l₂.head?.or t) ∧ Seg next l₂ t := by
  induction l₁ with
  | nil => simp [Seg]
  | cons a l₁ ih =>
    have hhead : (l₁ ++ l₂).head?.or t = l₁.head?.or (l₂.head?.or t) := by
      cases l₁ <;> simp
    rw [List.cons_append, Seg, Seg, ih, hhead, and_assoc]

theorem Seg.congr {l : List α} {t : Option α} (h : Seg next l t)
    (hsame : ∀ a ∈ l, next' a = next a) : Seg next' l t := by
  induction l with
  | nil => trivial
  | cons a l ih =>
    exact ⟨(hsame a List.mem_cons_self).trans h.1,
      ih h.2 fun b hb => hsame b (List.mem_cons_of_mem a hb)⟩

theorem Seg.isSome {l : List α} {t : Option α} (h : Seg next l t) {a : α} (ha : a ∈ l) :
    (next a).isSome := by
  induction l with
  | nil => cases ha
  | cons b l ih =>
    rcases List.mem_cons.mp ha with rfl | ha
    · rw [h.1]
      rfl
    · exact ih h.2 ha

/-- The link of a node in a list. -/
theorem Seg.next_eq {l₁ l₂ : List α} {a : α} {t : Option α} (h : Seg next (l₁ ++ a :: l₂) t) :
    next a = some (l₂.head?.or t) :=
  (seg_append.mp h).2.1

/-- The node in front of `c` is linked past it. -/
theorem Seg.unlink {l₁ l₂ : List α} {b c : α} {t : Option α}
    (h : Seg next (l₁ ++ b :: c :: l₂) t) (hb : next' b = next c)
    (hsame : ∀ a ∈ l₁ ++ l₂, next' a = next a) : Seg next' (l₁ ++ b :: l₂) t := by
  obtain ⟨hfront, -, hc, hback⟩ := seg_append.mp h
  rw [seg_append]
  refine ⟨hfront.congr fun a ha => hsame a (List.mem_append_left l₂ ha), ?_, ?_⟩
  · rw [hb, hc]
  · exact hback.congr fun a ha => hsame a (List.mem_append_right l₁ ha)

/-- A node behind the last one. -/
theorem Seg.concat {l : List α} {b a : α} {t t' : Option α} (h : Seg next (l ++ [b]) t)
    (hb : next' b = some (some a)) (ha : next' a = some t')
    (hsame : ∀ d ∈ l, next' d = next d) : Seg next' (l ++ [b] ++ [a]) t' := by
  obtain ⟨hfront, -⟩ := seg_append.mp h
  rw [List.append_assoc, seg_append]
  exact ⟨hfront.congr hsame, hb, ha, trivial⟩

/-- The body of the walk to the last node: `none` where there is no node. -/
def lastBody (next : α → Option (Option α)) (p : α) : Option α ⊕ α :=
  match next p with
  | none => .inl none
  | some none => .inl (some p)
  | some (some q) => .inr q

theorem last_loop {fuel : Nat} : ∀ {l : List α} {b p : α}, Seg next (l ++ [b]) none →
    (l ++ [b]).head? = some p → l.length < fuel →
    loop (lastBody next) fuel p = some (some b) := by
  induction fuel with
  | zero =>
    intro l b p _ _ hfuel
    omega
  | succ fuel ih =>
    intro l b p h hp hfuel
    cases l with
    | nil =>
      obtain rfl : b = p := by simpa using hp
      have hb : next b = some none := h.1
      simp [loop, lastBody, hb]
    | cons a l =>
      obtain rfl : a = p := by simpa using hp
      obtain ⟨q, hq⟩ : ∃ q, (l ++ [b]).head? = some q := by
        cases l <;> simp
      have ha : next a = some (some q) := by
        have hnext : next a = some ((l ++ [b]).head?.or none) := h.1
        rwa [Option.or_none, hq] at hnext
      simp only [loop, lastBody, ha]
      exact ih h.2 hq (by simpa using hfuel)

end Hcrtos.Chain
