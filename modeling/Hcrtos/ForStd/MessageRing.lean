import Mathlib.Algebra.BigOperators.Group.List.Basic
import Mathlib.Algebra.Ring.Nat
import Mathlib.Data.List.Basic

/-!
# Rings of unsplit messages

A ring of `cap` cells whose elements are messages of several cells. A message is never split:
one that does not fit in front of the end of the ring stands at its start, and the cells
between are skipped. A reader that knows the size of the next message finds it again from the
read index alone.

## Key results

- `Layout.pop`: what is left without the oldest message
- `Layout.push`: a message put into a free place
- `Free.pop`: a free place stays free while messages are read
- `Layout.live_of_mem`, `Free.not_live`: messages and free places do not overlap
-/

namespace Hcrtos.MessageRing

/-- Where a message of `s` cells stands that is read from index `p` on. -/
def place (cap p s : Nat) : Nat := if cap < p + s then 0 else p

/-- The index behind that message. -/
def next (cap p s : Nat) : Nat :=
  if cap < p + s then s else if p + s = cap then 0 else p + s

/-- Where messages of the given sizes stand. -/
def places (cap : Nat) : Nat → List Nat → List Nat
  | _, [] => []
  | p, s :: ss => place cap p s :: places cap (next cap p s) ss

/-- The index behind messages of the given sizes. -/
def walk (cap : Nat) : Nat → List Nat → Nat
  | p, [] => p
  | p, s :: ss => walk cap (next cap p s) ss

theorem next_of_lt {cap p s : Nat} (h : p + s < cap) : next cap p s = p + s := by
  unfold next
  rw [if_neg (by omega), if_neg (by omega)]

theorem next_of_eq {cap p s : Nat} (h : p + s = cap) : next cap p s = 0 := by
  unfold next
  rw [if_neg (by omega), if_pos h]

theorem next_of_gt {cap p s : Nat} (h : cap < p + s) : next cap p s = s := if_pos h

theorem place_of_le {cap p s : Nat} (h : p + s ≤ cap) : place cap p s = p := if_neg (by omega)

theorem place_of_gt {cap p s : Nat} (h : cap < p + s) : place cap p s = 0 := if_pos h

@[simp] theorem places_length (cap p : Nat) (ss : List Nat) :
    (places cap p ss).length = ss.length := by
  induction ss generalizing p with
  | nil => rfl
  | cons s ss ih => simp [places, ih]

theorem places_append (cap p : Nat) (ss ts : List Nat) :
    places cap p (ss ++ ts) = places cap p ss ++ places cap (walk cap p ss) ts := by
  induction ss generalizing p with
  | nil => rfl
  | cons s ss ih => simp [places, walk, ih]

/-- The messages between the indices `rd` and `wt`, oldest first: either they all stand in one
    stretch, or those in `front` reach so far to the end of the ring that the ones in `back`
    start at its beginning. -/
inductive Layout (cap rd wt : Nat) : List Nat → Prop where
  | straight {ss : List Nat} (hsum : rd + ss.sum = wt) (hwt : wt < cap) : Layout cap rd wt ss
  | wrapped {front back : List Nat} (hfront : rd + front.sum ≤ cap)
      (hgap : rd + front.sum = cap ∨ ∃ s ss, back = s :: ss ∧ cap < rd + front.sum + s)
      (hback : back.sum = wt) (hlt : wt < rd) (hrd : rd < cap) :
      Layout cap rd wt (front ++ back)

namespace Layout

variable {cap rd wt : Nat} {s : Nat} {ss : List Nat}

theorem empty {cap rd : Nat} (h : rd < cap) : Layout cap rd rd [] := .straight rfl h

theorem rd_lt (h : Layout cap rd wt ss) : rd < cap := by
  cases h with
  | straight hsum hwt => omega
  | wrapped _ _ _ _ hrd => exact hrd

theorem wt_lt (h : Layout cap rd wt ss) : wt < cap := by
  cases h with
  | straight _ hwt => exact hwt
  | wrapped _ _ _ hlt hrd => omega

/-- Equal indices mean that there is no message. -/
theorem eq_nil (h : Layout cap rd wt ss) (hpos : ∀ s ∈ ss, 0 < s) (heq : rd = wt) :
    ss = [] := by
  cases h with
  | straight hsum hwt =>
    cases ss with
    | nil => rfl
    | cons s ss =>
      have := hpos s List.mem_cons_self
      rw [List.sum_cons] at hsum
      omega
  | wrapped _ _ _ hlt _ => omega

/-- Where the oldest message is: in the only stretch, in front of the end of the ring, or at
    its start. -/
theorem head_cases (h : Layout cap rd wt (s :: ss)) :
    (rd + s ≤ wt ∧ wt < cap) ∨ (wt < rd ∧ rd < cap ∧ rd + s ≤ cap) ∨
      (wt < rd ∧ rd < cap ∧ cap < rd + s ∧ s ≤ wt) := by
  generalize hsizes : s :: ss = sizes at h
  cases h with
  | straight hsum hwt =>
    subst hsizes
    rw [List.sum_cons] at hsum
    exact .inl ⟨by omega, hwt⟩
  | @wrapped front back hfront hgap hback hlt hrd =>
    cases front with
    | nil =>
      rw [List.nil_append] at hsizes
      subst hsizes
      rw [List.sum_nil] at hgap
      rw [List.sum_cons] at hback
      obtain hend | ⟨s', ss', hcons, hover⟩ := hgap
      · omega
      · cases hcons
        exact .inr (.inr ⟨hlt, hrd, hover, by omega⟩)
    | cons t front =>
      cases hsizes
      rw [List.sum_cons] at hfront
      exact .inr (.inl ⟨hlt, hrd, by omega⟩)

/-- Reading the oldest message leaves the others. -/
theorem pop (h : Layout cap rd wt (s :: ss)) : Layout cap (next cap rd s) wt ss := by
  generalize hsizes : s :: ss = sizes at h
  cases h with
  | straight hsum hwt =>
    subst hsizes
    rw [List.sum_cons] at hsum
    rw [next_of_lt (by omega)]
    exact .straight (by omega) hwt
  | @wrapped front back hfront hgap hback hlt hrd =>
    cases front with
    | nil =>
      rw [List.nil_append] at hsizes
      subst hsizes
      rw [List.sum_nil] at hgap
      rw [List.sum_cons] at hback
      obtain hend | ⟨s', ss', hcons, hover⟩ := hgap
      · omega
      · cases hcons
        rw [next_of_gt (by omega)]
        exact .straight hback (by omega)
    | cons t front =>
      cases hsizes
      rw [List.sum_cons] at hfront hgap
      by_cases hend : rd + s = cap
      · -- the last message in front of the end: the rest starts at the beginning
        have hsum : front.sum = 0 := by omega
        rw [next_of_eq hend]
        have hrest : 0 + (front ++ back).sum = wt := by
          rw [List.sum_append, hsum, hback]
          omega
        exact .straight hrest (by omega)
      · rw [next_of_lt (by omega)]
        have hgap' : rd + s + front.sum = cap ∨
            ∃ s' ss', back = s' :: ss' ∧ cap < rd + s + front.sum + s' := by
          obtain hfull | ⟨s', ss', hcons, hover⟩ := hgap
          · exact .inl (by omega)
          · exact .inr ⟨s', ss', hcons, by omega⟩
        exact .wrapped (by omega) hgap' hback (by omega) (by omega)

/-- Walking over the messages leads from the read index to the write index. -/
theorem walk_eq (h : Layout cap rd wt ss) : walk cap rd ss = wt := by
  induction ss generalizing rd with
  | nil =>
    generalize hsizes : ([] : List Nat) = sizes at h
    cases h with
    | straight hsum hwt =>
      subst hsizes
      exact hsum
    | wrapped hfront hgap hback hlt hrd =>
      obtain ⟨rfl, rfl⟩ := List.append_eq_nil_iff.mp hsizes.symm
      rw [List.sum_nil] at hgap
      obtain hend | ⟨s', ss', hcons, -⟩ := hgap
      · omega
      · cases hcons
  | cons s ss ih => exact ih h.pop

end Layout

/-- A place at `off` for a message of `s` cells that overlaps no message: behind the last one,
    or at the start of the ring when the cells up to its end are too few. The indices may not
    meet, since then the ring would seem empty. -/
inductive Free (cap rd wt s : Nat) : Nat → Prop where
  | behind (hle : rd ≤ wt) (hroom : wt + s < cap ∨ (wt + s = cap ∧ 0 < rd)) :
      Free cap rd wt s wt
  | between (hlt : wt < rd) (hroom : wt + s < rd) : Free cap rd wt s wt
  | start (hle : rd ≤ wt) (hover : cap < wt + s) (hroom : s < rd) : Free cap rd wt s 0

namespace Free

variable {cap rd wt s off : Nat} {ss : List Nat}

/-- A free place is where a reader looks for the message. -/
theorem place_eq (h : Free cap rd wt s off) (hrd : rd < cap) : place cap wt s = off := by
  cases h with
  | behind hle hroom => exact place_of_le (by omega)
  | between hlt hroom => exact place_of_le (by omega)
  | start hle hover hroom => exact place_of_gt hover

/-- A free place is inside the ring. -/
theorem le_cap (h : Free cap rd wt s off) (hrd : rd < cap) : off + s ≤ cap := by
  cases h with
  | behind hle hroom => omega
  | between hlt hroom => omega
  | start hle hover hroom => omega

/-- The index behind a free place is inside the ring. -/
theorem next_lt (h : Free cap rd wt s off) (hrd : rd < cap) : next cap wt s < cap := by
  unfold next
  cases h with
  | behind hle hroom =>
    rw [if_neg (by omega)]
    split <;> omega
  | between hlt hroom => rw [if_neg (by omega), if_neg (by omega)]; omega
  | start hle hover hroom => rw [if_pos hover]; omega

/-- Reading a message keeps a free place free. -/
theorem pop {t : Nat} (h : Free cap rd wt s off) (hl : Layout cap rd wt (t :: ss)) :
    Free cap (next cap rd t) wt s off := by
  have hhead := hl.head_cases
  cases h with
  | behind hle hroom =>
    rw [next_of_lt (by omega)]
    exact .behind (by omega) (by omega)
  | start hle hover hroom =>
    rw [next_of_lt (by omega)]
    exact .start (by omega) hover (by omega)
  | between hlt hroom =>
    -- the read index may wrap around, and then all messages stand in one stretch
    obtain ⟨hle, hwt⟩ | ⟨-, hrd, hle⟩ | ⟨-, hrd, hover, hle⟩ := hhead
    · omega
    · by_cases hend : rd + t = cap
      · rw [next_of_eq hend]
        exact .behind (Nat.zero_le _) (.inl (by omega))
      · rw [next_of_lt (by omega)]
        exact .between (by omega) (by omega)
    · rw [next_of_gt hover]
      exact .behind hle (.inl (by omega))

end Free

/-- Putting a message into a free place appends it. -/
theorem Layout.push {cap rd wt s off : Nat} {ss : List Nat} (hl : Layout cap rd wt ss)
    (hf : Free cap rd wt s off) : Layout cap rd (next cap wt s) (ss ++ [s]) := by
  have hrd := hl.rd_lt
  have hsingle : [s].sum = s := by simp
  cases hl with
  | straight hsum hwt =>
    cases hf with
    | behind hle hroom =>
      obtain hlt | ⟨hend, hpos⟩ := hroom
      · rw [next_of_lt hlt]
        apply Layout.straight _ hlt
        rw [List.sum_append, hsingle]
        omega
      · -- the message ends where the ring does
        rw [next_of_eq hend, ← List.append_nil (ss ++ [s])]
        have hfull : rd + (ss ++ [s]).sum = cap := by
          rw [List.sum_append, hsingle]
          omega
        exact .wrapped (Nat.le_of_eq hfull) (.inl hfull) rfl hpos hrd
    | between hlt hroom => omega
    | start hle hover hroom =>
      rw [next_of_gt hover]
      have hgap : cap < rd + ss.sum + s := by omega
      exact .wrapped (by omega) (.inr ⟨s, [], rfl, hgap⟩) hsingle hroom hrd
  | @wrapped front back hfront hgap hback hlt _ =>
    cases hf with
    | behind hle hroom => omega
    | start hle hover hroom => omega
    | between hlt' hroom =>
      rw [next_of_lt (by omega), List.append_assoc]
      have hgap' : rd + front.sum = cap ∨
          ∃ s' ss', back ++ [s] = s' :: ss' ∧ cap < rd + front.sum + s' := by
        obtain hfull | ⟨s', ss', rfl, hover⟩ := hgap
        · exact .inl hfull
        · exact .inr ⟨s', ss' ++ [s], rfl, hover⟩
      apply Layout.wrapped hfront hgap' _ hroom hrd
      rw [List.sum_append, hsingle, hback]

/-! ### Cells -/

/-- The cells between the indices, where the messages stand. -/
def Live (cap rd wt x : Nat) : Prop :=
  (rd ≤ wt ∧ rd ≤ x ∧ x < wt) ∨ (wt < rd ∧ (x < wt ∨ (rd ≤ x ∧ x < cap)))

/-- A free place has no live cell. -/
theorem Free.not_live {cap rd wt s off x : Nat} (h : Free cap rd wt s off) (hx : off ≤ x)
    (hx' : x < off + s) : ¬ Live cap rd wt x := by
  unfold Live
  cases h with
  | behind hle hroom => omega
  | between hlt hroom => omega
  | start hle hover hroom => omega

/-- The cells of the oldest message are live. -/
theorem Layout.live_place {cap rd wt s x : Nat} {ss : List Nat}
    (h : Layout cap rd wt (s :: ss)) (hx : place cap rd s ≤ x) (hx' : x < place cap rd s + s) :
    Live cap rd wt x := by
  unfold Live
  obtain ⟨hle, hwt⟩ | ⟨hlt, hrd, hle⟩ | ⟨hlt, hrd, hover, hle⟩ := h.head_cases
  · rw [place_of_le (by omega)] at hx hx'
    omega
  · rw [place_of_le hle] at hx hx'
    omega
  · rw [place_of_gt hover] at hx hx'
    omega

/-- Reading a message makes no cell live. -/
theorem Layout.live_of_pop {cap rd wt s x : Nat} {ss : List Nat}
    (h : Layout cap rd wt (s :: ss)) (hx : Live cap (next cap rd s) wt x) :
    Live cap rd wt x := by
  unfold Live at hx ⊢
  obtain ⟨hle, hwt⟩ | ⟨hlt, hrd, hle⟩ | ⟨hlt, hrd, hover, hle⟩ := h.head_cases
  · rw [next_of_lt (by omega)] at hx
    omega
  · by_cases hend : rd + s = cap
    · rw [next_of_eq hend] at hx
      omega
    · rw [next_of_lt (by omega)] at hx
      omega
  · rw [next_of_gt hover] at hx
    omega

/-- The cells of every message are live. -/
theorem Layout.live_of_mem {cap rd wt off s x : Nat} {ss : List Nat}
    (h : Layout cap rd wt ss) (hmem : (off, s) ∈ (places cap rd ss).zip ss) (hx : off ≤ x)
    (hx' : x < off + s) : Live cap rd wt x := by
  induction ss generalizing rd with
  | nil => cases hmem
  | cons t ss ih =>
    rw [places, List.zip_cons_cons, List.mem_cons] at hmem
    obtain heq | hmem' := hmem
    · cases heq
      exact h.live_place hx hx'
    · exact h.live_of_pop (ih h.pop hmem')

end Hcrtos.MessageRing
