import Mathlib.Algebra.Ring.Int.Defs
import Mathlib.Data.List.Basic
import Mathlib.Logic.Function.Basic

/-!
# The scaler filter

`hc16xx_fb_filter.c`: a table holds the taps of each phase of the filter, one behind the other at
a distance of the number of phases. `tunefilter` corrects two taps of a phase so that the sum of
the phase becomes the scale.
-/

namespace Hcrtos.Native.FbFilter

/-- `*p += d`, for a cell of 16 bits. -/
def addTo (pquant : Nat → Int16) (p : Nat) (d : Int) : Nat → Int16 :=
  Function.update pquant p (Int16.ofInt ((pquant p).toInt + d))

/-- The part of the body of `tunefilter` that distributes the residual over the central taps. -/
def adjust (scale sum : Int) (pq_ref pq_adj : Nat) (pquant : Nat → Int16) : Nat → Int16 :=
  if sum ≠ scale then
    let adjustment := scale - sum
    if pquant pq_ref > pquant pq_adj then addTo pquant pq_ref adjustment
    else if pquant pq_ref < pquant pq_adj then addTo pquant pq_adj adjustment
    -- two equal central taps share it
    else addTo (addTo pquant pq_ref ((adjustment + 1).tdiv 2)) pq_adj (adjustment.tdiv 2)
  else pquant

/-- The part that moves what exceeds the scale from one central tap to the other. -/
def balance (scale : Int) (pq_ref pq_adj : Nat) (pquant : Nat → Int16) : Nat → Int16 :=
  if (pquant pq_ref).toInt > scale then
    let adjustment := (pquant pq_ref).toInt - scale
    addTo (addTo pquant pq_ref (-adjustment)) pq_adj adjustment
  else if (pquant pq_adj).toInt > scale then
    let adjustment := (pquant pq_adj).toInt - scale
    addTo (addTo pquant pq_adj (-adjustment)) pq_ref adjustment
  else pquant

section Table

variable (nphase ntap : Nat) (scale : Int)

/-- The central taps of a phase. -/
def pq_ref (i : Nat) : Nat := i + ntap / 2 * nphase
def pq_adj (i : Nat) : Nat := i + (ntap / 2 - 1) * nphase

/-- The loop over the taps of a phase. -/
def phaseSum (pquant : Nat → Int16) (i : Nat) : Int :=
  (List.range ntap).foldl (fun sum j => sum + (pquant (i + j * nphase)).toInt) 0

/-- The body of `tunefilter` for a phase. -/
def tunePhase (pquant : Nat → Int16) (i : Nat) : Nat → Int16 :=
  let sum := phaseSum nphase ntap pquant i
  let pquant := adjust scale sum (pq_ref nphase ntap i) (pq_adj nphase ntap i) pquant
  balance scale (pq_ref nphase ntap i) (pq_adj nphase ntap i) pquant

def tunefilter (pquant : Nat → Int16) : Nat → Int16 :=
  (List.range nphase).foldl (tunePhase nphase ntap scale) pquant

end Table

/-- `1 << nfracbits`, for the table that `generate_scale_coef` asks for. -/
def defaultScale : Int := 1 <<< 8

/-! ### The taps without overflow -/

/-- The central taps after the residual is distributed. -/
def adjusted (scale sum ref adj : Int) : Int × Int :=
  if sum = scale then (ref, adj)
  else if ref > adj then (ref + (scale - sum), adj)
  else if ref < adj then (ref, adj + (scale - sum))
  else (ref + (scale - sum + 1).tdiv 2, adj + (scale - sum).tdiv 2)

/-- And after the excess is moved. -/
def balanced (scale ref adj : Int) : Int × Int :=
  if ref > scale then (scale, adj + (ref - scale))
  else if adj > scale then (ref + (adj - scale), scale)
  else (ref, adj)

/-- A value of a `short`. -/
def IsShort (n : Int) : Prop := -2 ^ 15 ≤ n ∧ n < 2 ^ 15

instance (n : Int) : Decidable (IsShort n) := inferInstanceAs (Decidable (_ ∧ _))

/-- No sum that is stored for a phase overflows. -/
def NoOverflow (nphase ntap : Nat) (scale : Int) (pquant : Nat → Int16) (i : Nat) : Prop :=
  let taps := adjusted scale (phaseSum nphase ntap pquant i)
    (pquant (pq_ref nphase ntap i)).toInt (pquant (pq_adj nphase ntap i)).toInt
  let moved := balanced scale taps.1 taps.2
  IsShort taps.1 ∧ IsShort taps.2 ∧ IsShort moved.1 ∧ IsShort moved.2

instance (nphase ntap : Nat) (scale : Int) (pquant : Nat → Int16) (i : Nat) :
    Decidable (NoOverflow nphase ntap scale pquant i) :=
  inferInstanceAs (Decidable (_ ∧ _ ∧ _ ∧ _))

end Hcrtos.Native.FbFilter
