import Mathlib.Data.List.Basic

/-!
# Bounded queues that drop their oldest element

The abstract view of a queue of capacity `cap` that never refuses an element: everything that
was ever accepted, in order, and the fate of each element that left the queue. Elements leave
from the front only, so the fates are a list in stream order and the live elements are the
rest of the stream.

## Key results

- `live_push_of_lt`, `live_push_of_full`: accepting an element
- `live_pop`, `kept_pop`: handing out elements
- `kept_sublist`: what was handed out is a subsequence of what was accepted
-/

namespace Hcrtos

/-- How an element left the queue. -/
inductive Fate where
  | kept
  | dropped
  deriving DecidableEq

/-- The history of a queue: a fate is recorded for each element that left it, at most `cap`
    elements are left, and a dropped element made room for the one `cap` places behind it. -/
structure LossyFifo (α : Type*) (cap : Nat) where
  stream : List α
  fates : List Fate
  le : fates.length ≤ stream.length
  bound : stream.length ≤ fates.length + cap
  overwritten : ∀ i, fates[i]? = some .dropped → i + cap < stream.length

namespace LossyFifo

variable {α : Type*} {cap : Nat}

/-- The elements in the queue, oldest first. -/
def live (h : LossyFifo α cap) : List α := h.stream.drop h.fates.length

/-- The elements of a stream whose fate is `kept`. -/
def keptOf : List α → List Fate → List α
  | x :: xs, .kept :: fs => x :: keptOf xs fs
  | _ :: xs, .dropped :: fs => keptOf xs fs
  | _, _ => []

/-- The elements that were handed out, in order. -/
def kept (h : LossyFifo α cap) : List α := keptOf h.stream h.fates

/-- The empty queue. -/
def empty : LossyFifo α cap := ⟨[], [], Nat.le_refl _, Nat.zero_le _, by simp⟩

/-- The elements of the queue and those that left it are all that were accepted. -/
theorem length_add_live (h : LossyFifo α cap) :
    h.fates.length + h.live.length = h.stream.length := by
  have := h.le
  rw [live, List.length_drop]
  omega

theorem live_length_le (h : LossyFifo α cap) : h.live.length ≤ cap := by
  have := h.length_add_live
  have := h.bound
  omega

theorem le_append (h : LossyFifo α cap) (x : α) :
    h.fates.length ≤ (h.stream ++ [x]).length := by
  have := h.le
  rw [List.length_append]
  omega

theorem bound_append (h : LossyFifo α cap) (x : α) (hlt : h.live.length < cap) :
    (h.stream ++ [x]).length ≤ h.fates.length + cap := by
  have := h.length_add_live
  rw [List.length_append, List.length_singleton]
  omega

theorem overwritten_append (h : LossyFifo α cap) (x : α) (i : Nat)
    (hi : h.fates[i]? = some .dropped) : i + cap < (h.stream ++ [x]).length := by
  have := h.overwritten i hi
  rw [List.length_append]
  omega

theorem le_append_dropped (h : LossyFifo α cap) (x : α) :
    (h.fates ++ [Fate.dropped]).length ≤ (h.stream ++ [x]).length := by
  have := h.le
  simp only [List.length_append, List.length_singleton]
  omega

theorem bound_append_dropped (h : LossyFifo α cap) (x : α) :
    (h.stream ++ [x]).length ≤ (h.fates ++ [Fate.dropped]).length + cap := by
  have := h.bound
  simp only [List.length_append, List.length_singleton]
  omega

theorem overwritten_append_dropped (h : LossyFifo α cap) (x : α) (hfull : ¬ h.live.length < cap)
    (i : Nat) (hi : (h.fates ++ [Fate.dropped])[i]? = some .dropped) :
    i + cap < (h.stream ++ [x]).length := by
  have hlen := h.length_add_live
  rw [List.length_append, List.length_singleton]
  rcases Nat.lt_trichotomy i h.fates.length with hlt | heq | hgt
  · rw [List.getElem?_append_left hlt] at hi
    have := h.overwritten i hi
    omega
  · omega
  · rw [List.getElem?_eq_none (by simp; omega)] at hi
    cases hi

/-- Accept an element; a full queue drops its oldest one. -/
def push (h : LossyFifo α cap) (x : α) : LossyFifo α cap :=
  if hlt : h.live.length < cap then
    { stream := h.stream ++ [x]
      fates := h.fates
      le := h.le_append x
      bound := h.bound_append x hlt
      overwritten := h.overwritten_append x }
  else
    { stream := h.stream ++ [x]
      fates := h.fates ++ [.dropped]
      le := h.le_append_dropped x
      bound := h.bound_append_dropped x
      overwritten := h.overwritten_append_dropped x hlt }

/-- Hand out the oldest `k` elements. -/
def pop (h : LossyFifo α cap) (k : Nat) : LossyFifo α cap where
  stream := h.stream
  fates := h.fates ++ List.replicate (min k h.live.length) .kept
  le := by
    have := h.length_add_live
    simp only [List.length_append, List.length_replicate]
    omega
  bound := by
    have := h.bound
    simp only [List.length_append, List.length_replicate]
    omega
  overwritten := fun i hi => by
    rcases Nat.lt_or_ge i h.fates.length with hlt | hge
    · rw [List.getElem?_append_left hlt] at hi
      exact h.overwritten i hi
    · rw [List.getElem?_append_right hge, List.getElem?_replicate] at hi
      split at hi <;> cases hi

/-- Accept a list of elements in order. -/
def pushAll (h : LossyFifo α cap) (xs : List α) : LossyFifo α cap := xs.foldl push h

/-- The histories of a queue that starts empty: an element is dropped by nothing but the
    `push` of another one onto a full queue. -/
inductive Reachable : LossyFifo α cap → Prop where
  | empty : Reachable empty
  | push {h : LossyFifo α cap} (x : α) : Reachable h → Reachable (h.push x)
  | pop {h : LossyFifo α cap} (k : Nat) : Reachable h → Reachable (h.pop k)

@[simp] theorem push_stream (h : LossyFifo α cap) (x : α) :
    (h.push x).stream = h.stream ++ [x] := by
  unfold push; split <;> rfl

@[simp] theorem pop_stream (h : LossyFifo α cap) (k : Nat) : (h.pop k).stream = h.stream := rfl

@[simp] theorem pushAll_nil (h : LossyFifo α cap) : h.pushAll [] = h := rfl

@[simp] theorem pushAll_cons (h : LossyFifo α cap) (x : α) (xs : List α) :
    h.pushAll (x :: xs) = (h.push x).pushAll xs := rfl

theorem pushAll_append (h : LossyFifo α cap) (xs ys : List α) :
    h.pushAll (xs ++ ys) = (h.pushAll xs).pushAll ys := List.foldl_append

@[simp] theorem pushAll_stream (h : LossyFifo α cap) (xs : List α) :
    (h.pushAll xs).stream = h.stream ++ xs := by
  induction xs generalizing h with
  | nil => simp
  | cons x xs ih => rw [pushAll_cons, ih, push_stream, List.append_assoc, List.singleton_append]

theorem live_push_of_lt {h : LossyFifo α cap} (hlt : h.live.length < cap) (x : α) :
    (h.push x).live = h.live ++ [x] := by
  unfold push
  rw [dif_pos hlt]
  exact List.drop_append_of_le_length h.le

theorem live_push_of_full {h : LossyFifo α cap} (hcap : 0 < cap) (hfull : h.live.length = cap)
    (x : α) : (h.push x).live = h.live.drop 1 ++ [x] := by
  have hlen := h.length_add_live
  unfold push
  rw [dif_neg (by omega)]
  simp only [live, List.length_append, List.length_singleton, List.drop_drop]
  exact List.drop_append_of_le_length (by omega)

theorem live_pop (h : LossyFifo α cap) (k : Nat) : (h.pop k).live = h.live.drop k := by
  simp only [live, pop, List.length_append, List.length_replicate, List.drop_drop]
  rcases Nat.le_total k h.live.length with hk | hk
  · rw [live] at hk
    rw [Nat.min_eq_left hk]
  · have hlen := h.length_add_live
    rw [live] at hk hlen
    rw [Nat.min_eq_right hk, List.drop_eq_nil_of_le (by omega), List.drop_eq_nil_of_le (by omega)]

/-- Fates of elements that are in the stream do not look at what is appended to it. -/
theorem keptOf_append_left {xs : List α} {fs : List Fate} (h : fs.length ≤ xs.length)
    (ys : List α) : keptOf (xs ++ ys) fs = keptOf xs fs := by
  induction xs generalizing fs with
  | nil =>
    rw [List.eq_nil_of_length_eq_zero (Nat.le_zero.mp h)]
    cases ys <;> rfl
  | cons x xs ih =>
    cases fs with
    | nil => rfl
    | cons f fs =>
      have h' : fs.length ≤ xs.length := Nat.le_of_succ_le_succ h
      cases f with
      | kept => simp [keptOf, ih h']
      | dropped => simp [keptOf, ih h']

theorem keptOf_append_right {xs : List α} {fs : List Fate} (h : fs.length ≤ xs.length)
    (gs : List Fate) :
    keptOf xs (fs ++ gs) = keptOf xs fs ++ keptOf (xs.drop fs.length) gs := by
  induction xs generalizing fs with
  | nil =>
    rw [List.eq_nil_of_length_eq_zero (Nat.le_zero.mp h)]
    simp [keptOf]
  | cons x xs ih =>
    cases fs with
    | nil => simp [keptOf]
    | cons f fs =>
      have h' : fs.length ≤ xs.length := Nat.le_of_succ_le_succ h
      cases f with
      | kept => simp [keptOf, ih h']
      | dropped => simp [keptOf, ih h']

theorem keptOf_replicate (xs : List α) (k : Nat) :
    keptOf xs (List.replicate k .kept) = xs.take k := by
  induction xs generalizing k with
  | nil => cases k <;> rfl
  | cons x xs ih =>
    cases k with
    | zero => rfl
    | succ k => simp [List.replicate_succ, keptOf, ih]

theorem keptOf_dropped (xs : List α) : keptOf xs [.dropped] = [] := by
  cases xs with
  | nil => rfl
  | cons x xs => cases xs <;> rfl

theorem keptOf_sublist (xs : List α) (fs : List Fate) : (keptOf xs fs).Sublist xs := by
  induction xs generalizing fs with
  | nil => cases fs <;> simp [keptOf]
  | cons x xs ih =>
    cases fs with
    | nil => simp [keptOf]
    | cons f fs =>
      cases f with
      | kept => exact (ih fs).cons_cons x
      | dropped => exact (ih fs).cons x

/-- An element whose fate is `kept` was handed out. -/
theorem mem_keptOf {x : α} {xs : List α} {fs : List Fate} {i : Nat} (hx : xs[i]? = some x)
    (hf : fs[i]? = some .kept) : x ∈ keptOf xs fs := by
  induction xs generalizing fs i with
  | nil => simp at hx
  | cons y xs ih =>
    cases fs with
    | nil => simp at hf
    | cons f fs =>
      cases i with
      | zero =>
        simp only [List.getElem?_cons_zero, Option.some.injEq] at hx hf
        subst hx hf
        exact List.mem_cons_self
      | succ i =>
        have := ih hx hf
        cases f with
        | kept => exact List.mem_cons_of_mem y this
        | dropped => exact this

theorem kept_push (h : LossyFifo α cap) (x : α) : (h.push x).kept = h.kept := by
  unfold push
  split
  · exact keptOf_append_left h.le [x]
  · have hle : h.fates.length ≤ (h.stream ++ [x]).length := by
      have := h.le
      simp only [List.length_append]
      omega
    simp only [kept]
    rw [keptOf_append_right hle, keptOf_dropped, List.append_nil]
    exact keptOf_append_left h.le [x]

@[simp] theorem kept_pushAll (h : LossyFifo α cap) (xs : List α) :
    (h.pushAll xs).kept = h.kept := by
  induction xs generalizing h with
  | nil => rfl
  | cons x xs ih => rw [pushAll_cons, ih, kept_push]

theorem kept_pop (h : LossyFifo α cap) (k : Nat) :
    (h.pop k).kept = h.kept ++ h.live.take k := by
  simp only [kept, pop]
  rw [keptOf_append_right h.le, keptOf_replicate, ← live]
  rcases Nat.le_total k h.live.length with hk | hk
  · rw [Nat.min_eq_left hk]
  · rw [Nat.min_eq_right hk, List.take_length, List.take_of_length_le hk]

/-- What was handed out is a subsequence of what was accepted. -/
theorem kept_sublist (h : LossyFifo α cap) : h.kept.Sublist h.stream :=
  keptOf_sublist h.stream h.fates

end LossyFifo

end Hcrtos
