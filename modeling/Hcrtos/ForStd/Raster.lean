import Mathlib.Data.Set.Basic
import Mathlib.Tactic.Linarith
import Mathlib.Tactic.Ring

/-!
# Pictures in linear memory

A picture is a number of rows of bytes, a fixed distance (the pitch) apart. A picture without
overlap is a window on a surface: rows of the full pitch, one after the other. The last byte
of a window lies inside the surface when the window does in both coordinates.

## Key results

- `bytes_lt_of_stop_le`: a picture that stops inside a buffer has all its bytes there
- `stop_mono`: fewer rows, narrower ones or an earlier start stop no later
- `stop_window_le`: a window on a surface stops inside the surface
-/

namespace Hcrtos

/-- `rows` rows of `width` bytes, `pitch` bytes apart, from the byte `off` on. -/
structure Raster where
  off : Nat
  pitch : Nat
  rows : Nat
  width : Nat

namespace Raster

/-- The bytes of the picture. -/
def bytes (r : Raster) : Set Nat :=
  {a | ∃ i < r.rows, ∃ j < r.width, a = r.off + r.pitch * i + j}

/-- The end of the last row. -/
def stop (r : Raster) : Int := r.off + r.pitch * ((r.rows : Int) - 1) + r.width

theorem stop_of_pos {r : Raster} (h : 0 < r.rows) :
    r.stop = ((r.off + r.pitch * (r.rows - 1) + r.width : Nat) : Int) := by
  unfold stop
  push_cast [Nat.cast_sub (Nat.one_le_of_lt h)]
  rfl

/-- A picture that stops inside a buffer has all its bytes there. -/
theorem bytes_lt_of_stop_le {r : Raster} {len : Nat} (h : r.stop ≤ len) :
    ∀ a ∈ r.bytes, a < len := by
  rintro a ⟨i, hi, j, hj, rfl⟩
  rw [stop_of_pos (by omega)] at h
  have hrow : r.pitch * i ≤ r.pitch * (r.rows - 1) := Nat.mul_le_mul_left _ (by omega)
  omega

/-- Fewer rows, narrower ones or an earlier start stop no later. -/
theorem stop_mono {r r' : Raster} (hoff : r.off ≤ r'.off) (hpitch : r.pitch = r'.pitch)
    (hrows : r.rows ≤ r'.rows) (hwidth : r.width ≤ r'.width) : r.stop ≤ r'.stop := by
  have hrow : (r.pitch : Int) * ((r.rows : Int) - 1) ≤ r.pitch * ((r'.rows : Int) - 1) :=
    mul_le_mul_of_nonneg_left (by omega) (by omega)
  unfold stop
  rw [← hpitch]
  omega

/-- A window at column `x` and row `y` of a surface of `height` full rows. -/
def window (pitch x y rows width : Nat) : Raster := ⟨pitch * y + x, pitch, rows, width⟩

/-- A window on a surface stops inside the surface. -/
theorem stop_window_le {pitch x y rows width height : Nat} (hx : x + width ≤ pitch)
    (hy : y + rows ≤ height) : (window pitch x y rows width).stop ≤ (pitch * height : Nat) := by
  have hrows : (pitch : Int) * ((y : Int) + rows) ≤ pitch * height :=
    mul_le_mul_of_nonneg_left (by omega) (by omega)
  have hdist : (pitch : Int) * y + pitch * ((rows : Int) - 1) = pitch * ((y : Int) + rows) - pitch := by
    ring
  simp only [stop, window]
  push_cast
  linarith

end Raster

end Hcrtos
