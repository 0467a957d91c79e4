import Mathlib.Algebra.Ring.Int.Defs
import Mathlib.Data.List.Basic

/-!
# The debouncing of the touch panel

`xpt2046_ts.c`: each coordinate is read again until the filter has seen enough readings in a row
that agree with the first one of them, or gives up. The readings of the ADC have twelve bits, so
the sums that the filter collects fit into an `int`.
-/

namespace Hcrtos.Native.Touch

def DEBOUNCE_MAX : UInt16 := 10
def DEBOUNCE_REP : UInt16 := 5
def DEBOUNCE_TOL : UInt16 := 10

/-- `enum xpt2046_filter`. -/
inductive Filter where
  | XPT2046_FILTER_OK
  | XPT2046_FILTER_REPEAT
  | XPT2046_FILTER_IGNORE

/-- The fields of `struct xpt2046` that the filter uses, and its static `average_val`. -/
structure Xpt2046 where
  debounce_max : UInt16
  debounce_tol : UInt16
  debounce_rep : UInt16
  read_cnt : Nat
  read_rep : Nat
  last_read : Int
  average_val : Nat → Int

/-- The limits of the probe. -/
def probe : Xpt2046 where
  debounce_max := if DEBOUNCE_MAX < DEBOUNCE_REP then DEBOUNCE_REP else DEBOUNCE_MAX
  debounce_tol := DEBOUNCE_TOL
  debounce_rep := DEBOUNCE_REP
  read_cnt := 0
  read_rep := 0
  last_read := 0
  average_val := fun _ => 0

/-- The readings start over, and the averages too: the sample is given up. -/
def Xpt2046.reset (ts : Xpt2046) : Xpt2046 :=
  { ts with read_cnt := 0, last_read := 0, average_val := fun _ => 0 }

/-- `xpt2046_debounce`, with the value that it leaves in `*val`. -/
def xpt2046_debounce (ts : Xpt2046) (data_idx : Nat) (val : Int) : Xpt2046 × Filter × Int :=
  -- the first sample is discarded
  if ts.read_cnt = 0 then ({ ts with read_cnt := ts.read_cnt + 1 }, .XPT2046_FILTER_REPEAT, val)
  else if val = 4095 ∨ val = 0 then (ts.reset, .XPT2046_FILTER_IGNORE, val)
  else if ts.read_cnt = 1 ∨ (ts.last_read - val).natAbs > ts.debounce_tol.toNat then
    let ts := { ts with
      read_rep := 1
      average_val := Function.update ts.average_val data_idx val }
    if ts.read_cnt < ts.debounce_max.toNat then
      ({ ts with last_read := val, read_cnt := ts.read_cnt + 1 }, .XPT2046_FILTER_REPEAT, val)
    else (ts.reset, .XPT2046_FILTER_IGNORE, val)
  else
    let ts := { ts with
      read_rep := ts.read_rep + 1
      average_val :=
        Function.update ts.average_val data_idx (ts.average_val data_idx + val) }
    if ts.read_rep ≥ ts.debounce_rep.toNat then
      ({ ts with read_cnt := 0, read_rep := 0, last_read := 0 }, .XPT2046_FILTER_OK,
        (ts.average_val data_idx).tdiv ts.debounce_rep.toNat)
    else ({ ts with read_cnt := ts.read_cnt + 1 }, .XPT2046_FILTER_REPEAT, val)

/-- A decision: what is reported, and the readings that come after it. -/
structure Decision where
  ts : Xpt2046
  action : Filter
  val : Int
  unread : List Int

/-- The readings of a coordinate up to the decision about it. -/
def readCoordinate (ts : Xpt2046) (data_idx : Nat) : List Int → Option Decision
  | [] => none
  | val :: vals =>
    match xpt2046_debounce ts data_idx val with
    | (ts', .XPT2046_FILTER_REPEAT, _) => readCoordinate ts' data_idx vals
    | (ts', action, val') => some ⟨ts', action, val', vals⟩

/-- The value is the average of the last readings, of which there are `debounce_rep`, and each is
    within the tolerance of the first of them. -/
def Averages (ts : Xpt2046) (readings : List Int) (val : Int) : Prop :=
  ∃ before ref rest, readings = before ++ ref :: rest ∧
    rest.length + 1 = ts.debounce_rep.toNat ∧
    (∀ x ∈ ref :: rest, (ref - x).natAbs ≤ ts.debounce_tol.toNat) ∧
    val = (ref :: rest).sum.tdiv ts.debounce_rep.toNat

/-- The limits that the probe establishes. -/
structure Limits (ts : Xpt2046) : Prop where
  two_le : 2 ≤ ts.debounce_rep.toNat
  rep_le : ts.debounce_rep.toNat ≤ ts.debounce_max.toNat

end Hcrtos.Native.Touch
