import Hcrtos.ForStd.CString

/-!
# Properties of the device tree

`fdt_api.c`: the accessors find a property with `libfdt`, which returns its bytes and their number,
and read elements of it. A read outside of these bytes is `none`. Otherwise the result is what the
accessor returns, and what it stores.
-/

namespace Hcrtos.Native.FdtApi

open CString

/-- `__swab32`. -/
def swab32 (x : UInt32) : UInt32 :=
  (x &&& 0x000000ff) <<< 24 ||| (x &&& 0x0000ff00) <<< 8 ||| (x &&& 0x00ff0000) >>> 8 |||
    (x &&& 0xff000000) >>> 24

/-- The word at an index, as the CPU loads it. -/
def loadWord (data : List UInt8) (i : Nat) : Option UInt32 := do
  let b₀ ← data[4 * i]?
  let b₁ ← data[4 * i + 1]?
  let b₂ ← data[4 * i + 2]?
  let b₃ ← data[4 * i + 3]?
  some (b₀.toUInt32 ||| b₁.toUInt32 <<< 8 ||| b₂.toUInt32 <<< 16 ||| b₃.toUInt32 <<< 24)

/-- The element at an index, of the CPU's byte order. -/
def fdt32_to_cpup (data : List UInt8) (i : Nat) : Option UInt32 :=
  (loadWord data i).map swab32

/-- `while (length--) *outval++ = *val++;` from an index on. -/
def readLoop {α : Type} (read : Nat → Option α) : Nat → Nat → Option (List α)
  | 0, _ => some []
  | length + 1, i => do
    let v ← read i
    let rest ← readLoop read length (i + 1)
    some (v :: rest)

/-- The rounds of a loop that counts an `int` down to zero. -/
def rounds (length : Int) : Nat := (length % 2 ^ 32).toNat

/-- The walk over the strings of a property: `rest` is at the offset `total`, and `i` strings have
    been passed. -/
def stringLoop (index : Int) (rest : List UInt8) (total i : Nat) : Option (Int × Option Nat) :=
  if rest = [] then some (1, none)
  else
    match strlen rest with
    | none => none
    | some n =>
      if (i : Int) = index then some (0, some total)
      else stringLoop index (rest.drop (n + 1)) (total + (n + 1)) (i + 1)
termination_by rest.length
decreasing_by
  have hpos := List.length_pos_iff.mpr ‹rest ≠ []›
  simp only [List.length_drop]
  omega

/-- The walk that counts them. -/
def countLoop (rest : List UInt8) (i : Nat) : Option Int :=
  if rest = [] then some i
  else
    match strlen rest with
    | none => none
    | some n => countLoop (rest.drop (n + 1)) (i + 1)
termination_by rest.length
decreasing_by
  have hpos := List.length_pos_iff.mpr ‹rest ≠ []›
  simp only [List.length_drop]
  omega

section Accessors

-- the bytes of a property of a node, in `libfdt`
variable (fdt_getprop : Int → CStr → Option (List UInt8)) (offset : Int) (name : CStr)

/-- The property, if there is one. -/
def property : Option (List UInt8) := if offset < 0 then none else fdt_getprop offset name

/-- An accessor that returns 1 without the property. -/
def access {α : Type} (outval : α) (read : List UInt8 → Option (Int × α)) : Option (Int × α) :=
  match property fdt_getprop offset name with
  | none => some (1, outval)
  | some val => read val

def fdt_get_property_u_32_array (length : Int) : Option (Int × List UInt32) :=
  access fdt_getprop offset name [] fun val =>
    (readLoop (fdt32_to_cpup val) (rounds length) 0).map fun outval => (0, outval)

def fdt_get_property_u_8_array (length : Int) : Option (Int × List UInt8) :=
  access fdt_getprop offset name [] fun val =>
    (readLoop (fun i => val[i]?) (rounds length) 0).map fun outval => (0, outval)

def fdt_get_property_u_32_index (index : Int) : Option (Int × Option UInt32) :=
  access fdt_getprop offset name none fun val =>
    if index < 0 then none
    else (fdt32_to_cpup val index.toNat).map fun outval => (0, some outval)

/-- The string is stored as its offset in the property. -/
def fdt_get_property_string_index (index : Int) : Option (Int × Option Nat) :=
  access fdt_getprop offset name none fun val => stringLoop index val 0 0

def fdt_property_count_strings : Option Int :=
  match property fdt_getprop offset name with
  | none => some 0
  | some val => countLoop val 0

end Accessors

/-- The first elements of a width lie in the property. -/
def HasArray (width : Nat) (length : Int) (val : List UInt8) : Prop :=
  0 ≤ length ∧ width * length.toNat ≤ val.length

/-- The element of an index does. -/
def HasIndex (width : Nat) (index : Int) (val : List UInt8) : Prop :=
  0 ≤ index ∧ width * (index.toNat + 1) ≤ val.length

/-- The string of an index does, with its terminator. -/
def HasString (index : Int) (val : List UInt8) : Prop := 0 ≤ index ∧ index < val.count 0

/-- All strings are terminated. -/
def AllTerminated (val : List UInt8) : Prop := ∀ b ∈ val.getLast?, b = 0

/-- Only the property is read, and without the element asked for an error is returned and nothing
    is stored. -/
def Guarded {α : Type} (outval : α) (has : List UInt8 → Prop) (val : Option (List UInt8))
    (result : Option (Int × α)) : Prop :=
  ∃ r, result = some r ∧ ((∀ v ∈ val, ¬ has v) → r.1 ≠ 0 ∧ r.2 = outval)

end Hcrtos.Native.FdtApi
