import Mathlib.Algebra.Ring.Nat
import Mathlib.Data.List.Basic

/-!
# Byte memory

A memory is a function from addresses to bytes. `memcpy` writes a list of bytes, and
`store32` a little-endian word.

## Key results

- `bytesAt_memcpy_self`: what was copied is read back
- `cellsAt_append`, `take_cellsAt`, `drop_cellsAt`: parts of a row of cells
- `load32_store32_self`, `load32_memcpy_of_disjoint`: a word is read back, and a write
  elsewhere leaves it alone
-/

namespace Hcrtos.Memory

/-- The memory, by address. -/
abbrev Mem := Nat → UInt8

/-- `memcpy(dst, src, n)` into the memory; `src` are the `n` bytes. -/
def memcpy (m : Mem) (dst : Nat) (src : List UInt8) : Mem := fun a =>
  if dst ≤ a ∧ a < dst + src.length then src.getD (a - dst) 0 else m a

/-- The `n` bytes at `src`. -/
def bytesAt (m : Mem) (src n : Nat) : List UInt8 := (List.range n).map fun i => m (src + i)

@[simp] theorem length_bytesAt (m : Mem) (src n : Nat) : (bytesAt m src n).length = n := by
  simp [bytesAt]

/-- A byte outside of the destination is not written. -/
theorem memcpy_apply_of_outside {m : Mem} {dst a : Nat} {src : List UInt8}
    (h : a < dst ∨ dst + src.length ≤ a) : memcpy m dst src a = m a :=
  if_neg (by omega)

/-- A copied byte. -/
theorem memcpy_bytesAt_apply {μ ν : Mem} {dst src k i : Nat} (hi : i < k) :
    memcpy μ dst (bytesAt ν src k) (dst + i) = ν (src + i) := by
  simp [memcpy, bytesAt, hi]

/-- What `memcpy` wrote is what is read there. -/
theorem bytesAt_memcpy_self (m : Mem) (dst : Nat) (src : List UInt8) :
    bytesAt (memcpy m dst src) dst src.length = src := by
  apply List.ext_getElem
  · simp [bytesAt]
  · intro i h₁ h₂
    simp [bytesAt, memcpy, h₂]

/-- Copying elsewhere leaves a region as it was. -/
theorem bytesAt_memcpy_of_disjoint {m : Mem} {dst p n : Nat} {src : List UInt8}
    (h : ∀ x, p ≤ x → x < p + n → ¬ (dst ≤ x ∧ x < dst + src.length)) :
    bytesAt (memcpy m dst src) p n = bytesAt m p n := by
  apply List.map_congr_left
  intro i hi
  have hlt := List.mem_range.mp hi
  exact if_neg (h (p + i) (by omega) (by omega))

/-- The `n` cells at `a`: their addresses, and their bytes. -/
def cellsAt (m : Mem) (a n : Nat) : List (Nat × UInt8) :=
  (List.range' a n).map fun x => (x, m x)

@[simp] theorem length_cellsAt (m : Mem) (a n : Nat) : (cellsAt m a n).length = n := by
  simp [cellsAt]

theorem cellsAt_append (m : Mem) (a n k : Nat) :
    cellsAt m a n ++ cellsAt m (a + n) k = cellsAt m a (n + k) := by
  unfold cellsAt
  rw [← List.map_append, List.range'_append_1]

theorem take_cellsAt {m : Mem} {a n k : Nat} (h : k ≤ n) :
    (cellsAt m a n).take k = cellsAt m a k := by
  obtain ⟨j, rfl⟩ := Nat.exists_eq_add_of_le h
  rw [← cellsAt_append, List.take_left' (length_cellsAt m a k)]

theorem drop_cellsAt {m : Mem} {a n k : Nat} (h : k ≤ n) :
    (cellsAt m a n).drop k = cellsAt m (a + k) (n - k) := by
  obtain ⟨j, rfl⟩ := Nat.exists_eq_add_of_le h
  rw [← cellsAt_append, List.drop_left' (length_cellsAt m a k), Nat.add_sub_cancel_left]

/-- Cells whose bytes are unchanged. -/
theorem cellsAt_congr {m m' : Mem} {a n : Nat} (h : ∀ x, a ≤ x → x < a + n → m' x = m x) :
    cellsAt m' a n = cellsAt m a n := by
  apply List.map_congr_left
  intro x hx
  obtain ⟨hle, hlt⟩ := List.mem_range'_1.mp hx
  rw [h x hle hlt]

/-- The cell at a position. -/
theorem getElem?_cellsAt {m : Mem} {a n i : Nat} (h : i < n) :
    (cellsAt m a n)[i]? = some (a + i, m (a + i)) := by
  simp [cellsAt, h]

/-! ### Words -/

/-- The little-endian word at `a`. -/
def load32 (m : Mem) (a : Nat) : Nat :=
  (m a).toNat + 2 ^ 8 * (m (a + 1)).toNat + 2 ^ 16 * (m (a + 2)).toNat +
    2 ^ 24 * (m (a + 3)).toNat

/-- The four bytes of a word. -/
def wordBytes (v : Nat) : List UInt8 :=
  [UInt8.ofNat v, UInt8.ofNat (v / 2 ^ 8), UInt8.ofNat (v / 2 ^ 16), UInt8.ofNat (v / 2 ^ 24)]

/-- The memory after the word `v` is stored at `a`. -/
def store32 (m : Mem) (a v : Nat) : Mem := memcpy m a (wordBytes v)

theorem load32_store32_self {m : Mem} {a v : Nat} (hv : v < 2 ^ 32) :
    load32 (store32 m a v) a = v := by
  have h : ∀ i < 4, store32 m a v (a + i) = (wordBytes v).getD i 0 := by
    intro i hi
    simp [store32, memcpy, wordBytes, hi]
  simp only [load32, h 1 (by decide), h 2 (by decide), h 3 (by decide), show store32 m a v a =
    (wordBytes v).getD 0 0 from h 0 (by decide), wordBytes]
  simp
  omega

/-- A word is unchanged where its four bytes are. -/
theorem load32_congr {m m' : Mem} {a : Nat} (h : ∀ i < 4, m' (a + i) = m (a + i)) :
    load32 m' a = load32 m a := by
  have h₀ : m' a = m a := h 0 (by decide)
  simp only [load32, h₀, h 1 (by decide), h 2 (by decide), h 3 (by decide)]

/-- A write beside a word leaves it alone. -/
theorem load32_memcpy_of_disjoint {m : Mem} {dst a : Nat} {src : List UInt8}
    (h : a + 4 ≤ dst ∨ dst + src.length ≤ a) : load32 (memcpy m dst src) a = load32 m a :=
  load32_congr fun _ hi => memcpy_apply_of_outside (by omega)

theorem store32_apply_of_outside {m : Mem} {dst v a : Nat} (h : a < dst ∨ dst + 4 ≤ a) :
    store32 m dst v a = m a :=
  memcpy_apply_of_outside h

theorem load32_store32_of_disjoint {m : Mem} {dst v a : Nat} (h : a + 4 ≤ dst ∨ dst + 4 ≤ a) :
    load32 (store32 m dst v) a = load32 m a :=
  load32_memcpy_of_disjoint h

end Hcrtos.Memory
