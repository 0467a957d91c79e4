import Mathlib.Data.List.Basic

/-!
# Machines that answer their inputs

A machine takes one input after the other, and answers each with some outputs. Statements about
it are made for whole lists of inputs.

## Key results

- `after_append`, `outputs_append`: a list of inputs is taken in parts
- `answers_trans`: so is what the machine makes of it
- `history_invariant`: what each step keeps of the state, the inputs and the outputs so far
- `answers_filter`: inputs that change nothing may be left out
-/

namespace Hcrtos.Mealy

variable {σ α β : Type*} (step : σ → α → σ × List β)

/-- The state after a list of inputs. -/
def after : σ → List α → σ
  | s, [] => s
  | s, a :: as => after (step s a).1 as

/-- The outputs for a list of inputs. -/
def outputs : σ → List α → List β
  | _, [] => []
  | s, a :: as => (step s a).2 ++ outputs (step s a).1 as

/-- The inputs lead to a state, with these outputs. -/
def Answers (s : σ) (as : List α) (bs : List β) (s' : σ) : Prop :=
  after step s as = s' ∧ outputs step s as = bs

@[simp] theorem after_nil (s : σ) : after step s [] = s := rfl

@[simp] theorem outputs_nil (s : σ) : outputs step s [] = [] := rfl

@[simp] theorem after_cons (s : σ) (a : α) (as : List α) :
    after step s (a :: as) = after step (step s a).1 as := rfl

@[simp] theorem outputs_cons (s : σ) (a : α) (as : List α) :
    outputs step s (a :: as) = (step s a).2 ++ outputs step (step s a).1 as := rfl

theorem after_append (s : σ) (as as' : List α) :
    after step s (as ++ as') = after step (after step s as) as' := by
  induction as generalizing s with
  | nil => rfl
  | cons a as ih => exact ih (step s a).1

theorem outputs_append (s : σ) (as as' : List α) :
    outputs step s (as ++ as') = outputs step s as ++ outputs step (after step s as) as' := by
  induction as generalizing s with
  | nil => rfl
  | cons a as ih =>
    simp only [List.cons_append, outputs_cons, after_cons, ih, List.append_assoc]

variable {step}

theorem answers_nil (s : σ) : Answers step s [] [] s := ⟨rfl, rfl⟩

theorem answers_trans {s t u : σ} {as as' : List α} {bs bs' : List β}
    (h : Answers step s as bs t) (h' : Answers step t as' bs' u) :
    Answers step s (as ++ as') (bs ++ bs') u := by
  obtain ⟨rfl, rfl⟩ := h
  obtain ⟨rfl, rfl⟩ := h'
  exact ⟨after_append step s as as', outputs_append step s as as'⟩

theorem answers_cons {s t u : σ} {a : α} {as : List α} {b bs : List β}
    (h : step s a = (t, b)) (h' : Answers step t as bs u) :
    Answers step s (a :: as) (b ++ bs) u := by
  obtain ⟨rfl, rfl⟩ := h'
  simp [Answers, h]

/-- The last input may be replaced by one that the machine does not tell from it. -/
theorem answers_congr_last {s t : σ} {as : List α} {a a' : α} {bs : List β}
    (ha : ∀ s, step s a' = step s a) (h : Answers step s (as ++ [a]) bs t) :
    Answers step s (as ++ [a']) bs t := by
  obtain ⟨hafter, hout⟩ := h
  simp only [after_append, outputs_append, after_cons, outputs_cons, ← ha] at hafter hout
  refine ⟨?_, ?_⟩
  · simpa [after_append] using hafter
  · simpa [outputs_append] using hout

/-- An invariant may speak of everything that was taken and answered. -/
theorem history_invariant {I : σ → List α → List β → Prop}
    (hstep : ∀ s as bs a, I s as bs → I (step s a).1 (as ++ [a]) (bs ++ (step s a).2))
    {s : σ} {as : List α} {bs : List β} (hinv : I s as bs) (as' : List α) :
    I (after step s as') (as ++ as') (bs ++ outputs step s as') := by
  induction as' generalizing s as bs with
  | nil => simpa using hinv
  | cons a as' ih => simpa using ih (hstep s as bs a hinv)

/-- Inputs that the machine passes over in each state may be left out. -/
theorem answers_filter {p : α → Bool} (s : σ) {as : List α}
    (hskip : ∀ s, ∀ a ∈ as, p a = false → step s a = (s, [])) :
    Answers step s as (outputs step s (as.filter p)) (after step s (as.filter p)) := by
  induction as generalizing s with
  | nil => exact answers_nil s
  | cons a as ih =>
    have ih' := ih (step s a).1 fun s b hb => hskip s b (List.mem_cons_of_mem a hb)
    cases hp : p a with
    | false =>
      -- the input is not there after the filter, and answers nothing
      have ha := hskip s a List.mem_cons_self hp
      rw [List.filter_cons_of_neg (by simp [hp])]
      rw [ha] at ih'
      exact answers_cons ha ih'
    | true =>
      rw [List.filter_cons_of_pos hp]
      exact answers_cons rfl ih'

end Hcrtos.Mealy
