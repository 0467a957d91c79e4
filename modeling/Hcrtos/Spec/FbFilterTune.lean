import Mathlib.Algebra.BigOperators.Intervals
import Hcrtos.Native.FbFilter

/-!
# The phases sum to the scale

A phase is changed only by its own round, and there only in its two central taps. The second part
of a round keeps their sum. The first part makes the phase sum to the scale, except that it takes
one too little away when the central taps are equal and the phase is above the scale: both
quotients of the negative residual are rounded towards zero.

## Key results

- `adjusted_sum`, `balanced_sum`: the central taps after each part
- `phaseSum_tunePhase`: the sum of a phase after its round
- `phaseSum_tunefilter`: after all rounds
- `tunefilter_sums_iff`: the tables whose phases sum to the scale
- `tunefilter_sums_fails`: a table whose phases do not
-/

namespace Hcrtos.Native.FbFilter

/-! ### The central taps -/

theorem balanced_sum (scale ref adj : Int) :
    (balanced scale ref adj).1 + (balanced scale ref adj).2 = ref + adj := by
  unfold balanced
  split
  · dsimp only
    omega
  · split
    · dsimp only
      omega
    · rfl

/-- The residual is distributed, except for one of a negative residual between equal taps. -/
theorem adjusted_sum (scale sum ref adj : Int) :
    (adjusted scale sum ref adj).1 + (adjusted scale sum ref adj).2 =
      ref + adj + (scale - sum) + if ref = adj ∧ scale < sum then 1 else 0 := by
  unfold adjusted
  by_cases hsum : sum = scale
  · rw [if_pos hsum, if_neg (by omega)]
    omega
  rw [if_neg hsum]
  by_cases hgt : ref > adj
  · rw [if_pos hgt, if_neg (by omega)]
    dsimp only
    omega
  rw [if_neg hgt]
  by_cases hlt : ref < adj
  · rw [if_pos hlt, if_neg (by omega)]
    dsimp only
    omega
  rw [if_neg hlt]
  have heq : ref = adj := by omega
  dsimp only
  by_cases hneg : scale < sum
  · rw [if_pos ⟨heq, hneg⟩]
    -- both quotients round up
    have hfirst : (scale - sum + 1).tdiv 2 = -((sum - scale - 1) / 2) := by
      rw [show scale - sum + 1 = -(sum - scale - 1) by omega, Int.neg_tdiv,
        Int.tdiv_eq_ediv_of_nonneg (by omega)]
    have hsecond : (scale - sum).tdiv 2 = -((sum - scale) / 2) := by
      rw [show scale - sum = -(sum - scale) by omega, Int.neg_tdiv,
        Int.tdiv_eq_ediv_of_nonneg (by omega)]
    rw [hfirst, hsecond]
    omega
  · rw [if_neg fun h => hneg h.2, Int.tdiv_eq_ediv_of_nonneg (by omega),
      Int.tdiv_eq_ediv_of_nonneg (by omega)]
    omega

section Cells

variable {pquant : Nat → Int16} {p q : Nat}

theorem addTo_of_ne (d : Int) (h : q ≠ p) : addTo pquant p d q = pquant q :=
  Function.update_of_ne h _ _

theorem addTo_self {d : Int} (h : IsShort ((pquant p).toInt + d)) :
    (addTo pquant p d p).toInt = (pquant p).toInt + d := by
  unfold addTo
  rw [Function.update_self, Int16.toInt_ofInt_of_le h.1 h.2]

/-- Only the central taps change. -/
theorem adjust_of_ne (scale sum : Int) {k : Nat} (hp : k ≠ p) (hq : k ≠ q) :
    adjust scale sum p q pquant k = pquant k := by
  unfold adjust
  split
  · dsimp only
    split
    · exact addTo_of_ne _ hp
    · split
      · exact addTo_of_ne _ hq
      · rw [addTo_of_ne _ hq, addTo_of_ne _ hp]
  · rfl

theorem balance_of_ne (scale : Int) {k : Nat} (hp : k ≠ p) (hq : k ≠ q) :
    balance scale p q pquant k = pquant k := by
  unfold balance
  split
  · dsimp only
    rw [addTo_of_ne _ hq, addTo_of_ne _ hp]
  · split
    · dsimp only
      rw [addTo_of_ne _ hp, addTo_of_ne _ hq]
    · rfl

/-- The central taps after the first part, as integers. -/
theorem adjust_eq {scale sum : Int} (hpq : p ≠ q)
    (hp : IsShort (adjusted scale sum (pquant p).toInt (pquant q).toInt).1)
    (hq : IsShort (adjusted scale sum (pquant p).toInt (pquant q).toInt).2) :
    (adjust scale sum p q pquant p).toInt =
        (adjusted scale sum (pquant p).toInt (pquant q).toInt).1 ∧
      (adjust scale sum p q pquant q).toInt =
        (adjusted scale sum (pquant p).toInt (pquant q).toInt).2 := by
  unfold adjusted at *
  unfold adjust
  by_cases hsum : sum = scale
  · rw [if_pos hsum, if_neg (not_not_intro hsum)]
    exact ⟨rfl, rfl⟩
  rw [if_neg hsum] at *
  rw [if_pos hsum]
  by_cases hgt : (pquant p).toInt > (pquant q).toInt
  · rw [if_pos hgt] at *
    rw [if_pos (show pquant p > pquant q from Int16.lt_iff_toInt_lt.mpr hgt)]
    exact ⟨addTo_self hp, by rw [addTo_of_ne _ hpq.symm]⟩
  rw [if_neg hgt] at *
  rw [if_neg (show ¬ pquant p > pquant q from fun h => hgt (Int16.lt_iff_toInt_lt.mp h))]
  by_cases hlt : (pquant p).toInt < (pquant q).toInt
  · rw [if_pos hlt] at *
    rw [if_pos (Int16.lt_iff_toInt_lt.mpr hlt)]
    exact ⟨by rw [addTo_of_ne _ hpq], addTo_self hq⟩
  · rw [if_neg hlt] at *
    rw [if_neg fun h => hlt (Int16.lt_iff_toInt_lt.mp h)]
    constructor
    · rw [addTo_of_ne _ hpq, addTo_self hp]
    · rw [addTo_self (by rw [addTo_of_ne _ hpq.symm]; exact hq), addTo_of_ne _ hpq.symm]

/-- And after the second part. -/
theorem balance_eq (scale : Int) (hpq : p ≠ q)
    (hp : IsShort (balanced scale (pquant p).toInt (pquant q).toInt).1)
    (hq : IsShort (balanced scale (pquant p).toInt (pquant q).toInt).2) :
    (balance scale p q pquant p).toInt = (balanced scale (pquant p).toInt (pquant q).toInt).1 ∧
      (balance scale p q pquant q).toInt =
        (balanced scale (pquant p).toInt (pquant q).toInt).2 := by
  unfold balanced at *
  unfold balance
  by_cases hgt : (pquant p).toInt > scale
  · rw [if_pos hgt] at *
    have hback : (pquant p).toInt + -((pquant p).toInt - scale) = scale := by omega
    rw [if_pos hgt]
    constructor
    · rw [addTo_of_ne _ hpq, addTo_self (by rw [hback]; exact hp), hback]
    · rw [addTo_self (by rw [addTo_of_ne _ hpq.symm]; exact hq), addTo_of_ne _ hpq.symm]
  rw [if_neg hgt] at *
  rw [if_neg hgt]
  by_cases hadj : (pquant q).toInt > scale
  · rw [if_pos hadj] at *
    have hback : (pquant q).toInt + -((pquant q).toInt - scale) = scale := by omega
    rw [if_pos hadj]
    constructor
    · rw [addTo_self (by rw [addTo_of_ne _ hpq]; exact hp), addTo_of_ne _ hpq]
    · rw [addTo_of_ne _ hpq.symm, addTo_self (by rw [hback]; exact hq), hback]
  · rw [if_neg hadj] at *
    rw [if_neg hadj]
    exact ⟨rfl, rfl⟩

end Cells

/-! ### The sum of a phase -/

section Phases

variable {nphase ntap : Nat} {scale : Int} {pquant : Nat → Int16} {i k : Nat}

theorem phaseSum_eq_sum (nphase ntap : Nat) (pquant : Nat → Int16) (i : Nat) :
    phaseSum nphase ntap pquant i =
      ∑ j ∈ Finset.range ntap, (pquant (i + j * nphase)).toInt := by
  unfold phaseSum
  induction ntap with
  | zero => rfl
  | succ ntap ih =>
    rw [List.range_succ, List.foldl_append, ih, Finset.sum_range_succ]
    rfl

/-- A tap of another phase. -/
theorem tap_ne {t t' : Nat} (hi : i < nphase) (hk : k < nphase) (hne : k ≠ i) :
    k + t * nphase ≠ i + t' * nphase := by
  intro h
  -- the index of a tap gives its phase as the remainder
  have hmod : (k + t * nphase) % nphase = (i + t' * nphase) % nphase := by rw [h]
  rw [Nat.add_mul_mod_self_right, Nat.add_mul_mod_self_right, Nat.mod_eq_of_lt hk,
    Nat.mod_eq_of_lt hi] at hmod
  exact hne hmod

/-- Another tap of the phase. -/
theorem tap_ne_of_ne {t t' : Nat} (hphase : 0 < nphase) (hne : t ≠ t') :
    i + t * nphase ≠ i + t' * nphase := by
  intro h
  exact hne (Nat.eq_of_mul_eq_mul_right hphase (Nat.add_left_cancel h))

/-- When only the central taps change, the sum changes by what they change. -/
theorem phaseSum_sub {pquant' : Nat → Int16} (hphase : 0 < nphase) (htap : 2 ≤ ntap)
    (hsame : ∀ k, k ≠ pq_ref nphase ntap i → k ≠ pq_adj nphase ntap i → pquant' k = pquant k) :
    phaseSum nphase ntap pquant' i - phaseSum nphase ntap pquant i =
      ((pquant' (pq_ref nphase ntap i)).toInt - (pquant (pq_ref nphase ntap i)).toInt) +
        ((pquant' (pq_adj nphase ntap i)).toInt - (pquant (pq_adj nphase ntap i)).toInt) := by
  rw [phaseSum_eq_sum, phaseSum_eq_sum, ← Finset.sum_sub_distrib]
  apply Finset.sum_eq_add (ntap / 2) (ntap / 2 - 1) (by omega)
  · intro t _ ht
    rw [hsame _ (tap_ne_of_ne hphase ht.1) (tap_ne_of_ne hphase ht.2), sub_self]
  · intro hout
    exact absurd (Finset.mem_range.mpr (by omega)) hout
  · intro hout
    exact absurd (Finset.mem_range.mpr (by omega)) hout

theorem phaseSum_congr {pquant' : Nat → Int16}
    (h : ∀ t, pquant' (i + t * nphase) = pquant (i + t * nphase)) :
    phaseSum nphase ntap pquant' i = phaseSum nphase ntap pquant i := by
  rw [phaseSum_eq_sum, phaseSum_eq_sum]
  apply Finset.sum_congr rfl
  intro t _
  rw [h]

/-- The central taps of a phase are two taps. -/
theorem pq_ref_ne_pq_adj (hphase : 0 < nphase) (htap : 2 ≤ ntap) :
    pq_ref nphase ntap i ≠ pq_adj nphase ntap i :=
  tap_ne_of_ne hphase (by omega)

/-! ### A round -/

theorem tunePhase_of_ne (hp : k ≠ pq_ref nphase ntap i) (hq : k ≠ pq_adj nphase ntap i) :
    tunePhase nphase ntap scale pquant i k = pquant k := by
  unfold tunePhase
  rw [balance_of_ne _ hp hq, adjust_of_ne _ _ hp hq]

/-- The sum of a phase after its round. -/
theorem phaseSum_tunePhase (hphase : 0 < nphase) (htap : 2 ≤ ntap)
    (hfit : NoOverflow nphase ntap scale pquant i) :
    phaseSum nphase ntap (tunePhase nphase ntap scale pquant i) i =
      scale + if pquant (pq_ref nphase ntap i) = pquant (pq_adj nphase ntap i) ∧
        scale < phaseSum nphase ntap pquant i then 1 else 0 := by
  have hpq := pq_ref_ne_pq_adj (i := i) hphase htap
  have hsame : ∀ k, k ≠ pq_ref nphase ntap i → k ≠ pq_adj nphase ntap i →
      tunePhase nphase ntap scale pquant i k = pquant k := fun _ => tunePhase_of_ne
  -- the sum changes by what the central taps change, which both parts of the round tell
  have hdiff := phaseSum_sub hphase htap hsame
  obtain ⟨href, hadj, hmref, hmadj⟩ := hfit
  have hfirst := adjust_eq hpq href hadj
  have hsecond := balance_eq scale hpq (by rw [hfirst.1, hfirst.2]; exact hmref)
    (by rw [hfirst.1, hfirst.2]; exact hmadj)
  rw [hfirst.1, hfirst.2] at hsecond
  have hsum := adjusted_sum scale (phaseSum nphase ntap pquant i)
    (pquant (pq_ref nphase ntap i)).toInt (pquant (pq_adj nphase ntap i)).toInt
  rw [← balanced_sum scale, ← hsecond.1, ← hsecond.2] at hsum
  simp only [Int16.toInt_inj] at hsum
  unfold tunePhase at hdiff ⊢
  omega

/-! ### All rounds -/

/-- The rounds of other phases leave a phase alone. -/
theorem foldl_tunePhase_of_ne (ntap : Nat) (scale : Int) (rounds : List Nat)
    (hrounds : ∀ r ∈ rounds, r < nphase ∧ r ≠ i) (hi : i < nphase) (pquant : Nat → Int16)
    (t : Nat) :
    rounds.foldl (tunePhase nphase ntap scale) pquant (i + t * nphase) =
      pquant (i + t * nphase) := by
  induction rounds generalizing pquant with
  | nil => rfl
  | cons r rounds ih =>
    have hr := hrounds r List.mem_cons_self
    rw [List.foldl_cons, ih fun r hmem => hrounds r (List.mem_cons_of_mem _ hmem)]
    exact tunePhase_of_ne (tap_ne hr.1 hi hr.2.symm) (tap_ne hr.1 hi hr.2.symm)

/-- A phase sees its own taps only. -/
theorem noOverflow_congr {pquant' : Nat → Int16}
    (h : ∀ t, pquant' (i + t * nphase) = pquant (i + t * nphase))
    (hfit : NoOverflow nphase ntap scale pquant i) :
    NoOverflow nphase ntap scale pquant' i := by
  unfold NoOverflow pq_ref pq_adj at *
  rw [phaseSum_congr h, h, h]
  exact hfit

/-- The sum of a phase after all rounds. -/
theorem phaseSum_tunefilter (htap : 2 ≤ ntap) (hi : i < nphase)
    (hfit : NoOverflow nphase ntap scale pquant i) :
    phaseSum nphase ntap (tunefilter nphase ntap scale pquant) i =
      scale + if pquant (pq_ref nphase ntap i) = pquant (pq_adj nphase ntap i) ∧
        scale < phaseSum nphase ntap pquant i then 1 else 0 := by
  obtain ⟨m, rfl⟩ := Nat.exists_eq_add_of_le hi
  -- the rounds before, the one of the phase, and those after
  have hbefore := foldl_tunePhase_of_ne ntap scale (List.range i)
    (fun r hr => by have := List.mem_range.mp hr; omega) hi pquant
  have hafter := foldl_tunePhase_of_ne ntap scale
    ((List.range m).map (i.succ + ·)) (fun r hr => by
      obtain ⟨k, hk, rfl⟩ := List.mem_map.mp hr
      have := List.mem_range.mp hk
      omega) hi
  unfold tunefilter
  rw [List.range_add, List.foldl_append, phaseSum_congr (hafter _), List.range_succ,
    List.foldl_append, List.foldl_cons, List.foldl_nil,
    phaseSum_tunePhase (by omega) htap (noOverflow_congr hbefore hfit), phaseSum_congr hbefore]
  unfold pq_ref pq_adj
  rw [hbefore, hbefore]

end Phases

/-- The tables, of phases with the two central taps that every caller asks for, whose phases all
sum to the scale in the end. -/
theorem tunefilter_sums_iff (nphase ntap : Nat) (scale : Int) (pquant : Nat → Int16)
    (htap : 2 ≤ ntap) (hfit : ∀ i < nphase, NoOverflow nphase ntap scale pquant i) :
    (∀ i < nphase, phaseSum nphase ntap (tunefilter nphase ntap scale pquant) i = scale) ↔
      ∀ i < nphase, ¬ (pquant (pq_ref nphase ntap i) = pquant (pq_adj nphase ntap i) ∧
        scale < phaseSum nphase ntap pquant i) := by
  apply forall_congr'
  intro i
  apply forall_congr'
  intro hi
  rw [phaseSum_tunefilter htap hi (hfit i hi)]
  split
  · rename_i hround
    exact iff_of_false (by omega) (not_not_intro hround)
  · rename_i hround
    exact iff_of_true (by omega) hround

/-- A table of one phase whose taps sum to less than the scale. -/
def exampleTaps : Nat → Int16 := fun k => if k = 0 then 100 else 101

theorem tunefilter_exampleTaps :
    phaseSum 1 2 (tunefilter 1 2 defaultScale exampleTaps) 0 = defaultScale :=
  (tunefilter_sums_iff 1 2 defaultScale exampleTaps (by decide) (by decide)).mpr (by decide) 0
    (by decide)

/-- Two equal taps of 129 are 2 above the scale. Of the residual of -2 only 1 is taken away. -/
theorem tunefilter_sums_fails :
    ¬ ∀ (nphase ntap : Nat) (scale : Int) (pquant : Nat → Int16), 2 ≤ ntap →
      (∀ i < nphase, NoOverflow nphase ntap scale pquant i) →
      ∀ i < nphase, phaseSum nphase ntap (tunefilter nphase ntap scale pquant) i = scale := by
  intro h
  exact absurd (h 1 2 defaultScale (fun _ => 129) (by decide) (by decide) 0 (by decide))
    (by decide)

end Hcrtos.Native.FbFilter
