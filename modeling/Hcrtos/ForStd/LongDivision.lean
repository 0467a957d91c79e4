import Mathlib.Tactic.Ring

/-!
# Long division by a number of one digit

The digits of a number in base `b`, the highest one first, are divided one after the other. The
remainder of a digit is carried in front of the next one.

## Key results

- `value_divide`: the quotient and the remainder make up the number
- `rem_divide_lt`: the remainder is less than the divisor
- `digits_divide_lt`: the digits of the quotient are digits again
-/

namespace Hcrtos.LongDivision

variable {b n r : Nat} {ds : List Nat}

/-- The number that digits stand for behind the number `r`. -/
def value (b : Nat) : Nat → List Nat → Nat
  | r, [] => r
  | r, d :: ds => value b (r * b + d) ds

/-- The digits of the quotient and the remainder, with `r` carried in front of the first digit. -/
def divide (b n : Nat) : Nat → List Nat → List Nat × Nat
  | r, [] => ([], r)
  | r, d :: ds =>
    let (qs, r') := divide b n ((r * b + d) % n) ds
    ((r * b + d) / n :: qs, r')

/-- The number in front counts for as much as the digits behind it make it. -/
theorem value_add (b r s : Nat) (ds : List Nat) :
    value b (r + s) ds = r * b ^ ds.length + value b s ds := by
  induction ds generalizing r s with
  | nil => simp [value]
  | cons d ds ih =>
    rw [value, value, show (r + s) * b + d = r * b + (s * b + d) by ring, ih, List.length_cons,
      pow_succ]
    ring

theorem length_divide (b n r : Nat) (ds : List Nat) : (divide b n r ds).1.length = ds.length := by
  induction ds generalizing r with
  | nil => rfl
  | cons d ds ih => exact congrArg (· + 1) (ih _)

/-- A digit of the quotient stands for as many divisors as the digits behind it make of it. -/
theorem value_divide (b n r : Nat) (ds : List Nat) :
    value b r ds = value b 0 (divide b n r ds).1 * n + (divide b n r ds).2 := by
  induction ds generalizing r with
  | nil => simp [value, divide]
  | cons d ds ih =>
    have hsplit := Nat.div_add_mod' (r * b + d) n
    calc value b (r * b + d) ds
        = value b ((r * b + d) / n * n + (r * b + d) % n) ds := by rw [hsplit]
      _ = (r * b + d) / n * n * b ^ ds.length + value b ((r * b + d) % n) ds := value_add ..
      _ = ((r * b + d) / n * b ^ ds.length +
            value b 0 (divide b n ((r * b + d) % n) ds).1) * n +
              (divide b n ((r * b + d) % n) ds).2 := by rw [ih]; ring
      _ = value b ((r * b + d) / n) (divide b n ((r * b + d) % n) ds).1 * n +
            (divide b n ((r * b + d) % n) ds).2 := by
        rw [← length_divide b n ((r * b + d) % n) ds, ← value_add, Nat.add_zero]
      _ = _ := by simp [value, divide]

theorem rem_divide_lt (hr : r < n) : (divide b n r ds).2 < n := by
  induction ds generalizing r with
  | nil => exact hr
  | cons d ds ih => exact ih (Nat.mod_lt _ (Nat.zero_lt_of_lt hr))

/-- A digit that a remainder is carried in front of is divided into a digit. -/
theorem digit_lt {d : Nat} (hr : r < n) (hd : d < b) : (r * b + d) / n < b := by
  apply Nat.div_lt_of_lt_mul
  calc r * b + d < r * b + b := Nat.add_lt_add_left hd _
    _ = (r + 1) * b := by ring
    _ ≤ n * b := Nat.mul_le_mul_right b hr

theorem digits_divide_lt (hr : r < n) (hds : ∀ d ∈ ds, d < b) :
    ∀ q ∈ (divide b n r ds).1, q < b := by
  induction ds generalizing r with
  | nil => simp [divide]
  | cons d ds ih =>
    intro q hq
    obtain rfl | hq := List.mem_cons.mp hq
    · exact digit_lt hr (hds d List.mem_cons_self)
    · exact ih (Nat.mod_lt _ (Nat.zero_lt_of_lt hr))
        (fun e he => hds e (List.mem_cons_of_mem d he)) q hq

end Hcrtos.LongDivision
