import Hcrtos.ForStd.CString

/-!
# The header of gzip data

`gunzip.c`: `gzip_parse_header` finds where the compressed data begin. A read outside of the bytes
that are given is `none`.
-/

namespace Hcrtos.Native.Gunzip

open CString

def HEADER0 : UInt8 := 0x1f
def HEADER1 : UInt8 := 0x8b
def HEAD_CRC : UInt8 := 2
def EXTRA_FIELD : UInt8 := 4
def ORIG_NAME : UInt8 := 8
def COMMENT : UInt8 := 0x10
def RESERVED : UInt8 := 0xe0
def DEFLATED : UInt8 := 8

/-- `while (src[i++] != 0);`, if the string is flagged. -/
def skipString (src : List UInt8) (flagged : Bool) (i : Nat) : Option Nat :=
  if flagged then (strlen (src.drop i)).map (i + · + 1) else some i

/-- `i = 12 + src[10] + (src[11] << 8)`, if the field is flagged. -/
def skipExtra (src : List UInt8) (flagged : Bool) : Option Nat :=
  if flagged then do
    let lo ← src[10]?
    let hi ← src[11]?
    some (12 + lo.toNat + hi.toNat <<< 8)
  else some 10

def gzip_parse_header (src : List UInt8) : Option Int := do
  let flags ← src[3]?
  let method ← src[2]?
  if method ≠ DEFLATED ∨ flags &&& RESERVED ≠ 0 then some (-1)
  else
    let i ← skipExtra src (flags &&& EXTRA_FIELD ≠ 0)
    let i ← skipString src (flags &&& ORIG_NAME ≠ 0) i
    let i ← skipString src (flags &&& COMMENT ≠ 0) i
    -- the checksum of the header is skipped without a look at it
    let i := if flags &&& HEAD_CRC ≠ 0 then i + 2 else i
    -- the data must begin within the bytes
    if src.length ≤ i then some (-1) else some i

/-- A complete header: the flags, the six bytes after them, and the fields that the flags
    announce. -/
structure Header where
  flags : UInt8
  info : List UInt8
  extra : Option (List UInt8)
  name : Option (List UInt8)
  comment : Option (List UInt8)
  crc : Option (List UInt8)
  reserved : flags &&& RESERVED = 0
  info_length : info.length = 6
  extra_isSome : extra.isSome = true ↔ flags &&& EXTRA_FIELD ≠ 0
  name_isSome : name.isSome = true ↔ flags &&& ORIG_NAME ≠ 0
  comment_isSome : comment.isSome = true ↔ flags &&& COMMENT ≠ 0
  crc_isSome : crc.isSome = true ↔ flags &&& HEAD_CRC ≠ 0
  extra_length : ∀ e ∈ extra, e.length < 2 ^ 16
  name_nonzero : ∀ s ∈ name, 0 ∉ s
  comment_nonzero : ∀ s ∈ comment, 0 ∉ s
  crc_length : ∀ c ∈ crc, c.length = 2

/-- A field with its length in front, the low byte first. -/
def extraBytes : Option (List UInt8) → List UInt8
  | none => []
  | some e => UInt8.ofNat e.length :: UInt8.ofNat (e.length / 256) :: e

/-- A string with its terminator. -/
def stringBytes : Option (List UInt8) → List UInt8
  | none => []
  | some s => s ++ [0]

/-- The header as bytes. -/
def Header.encode (h : Header) : List UInt8 :=
  [HEADER0, HEADER1, DEFLATED, h.flags] ++ h.info ++ extraBytes h.extra ++ stringBytes h.name ++
    stringBytes h.comment ++ h.crc.getD []

/-- Only the bytes given are read, the length of a complete header that begins them is returned,
    and without one -1. -/
def ParsesHeader (src : List UInt8) (result : Option Int) : Prop :=
  ∃ r, result = some r ∧ (∀ h : Header, h.encode <+: src → r = h.encode.length) ∧
    ((∀ h : Header, ¬ h.encode <+: src) → r = -1)

end Hcrtos.Native.Gunzip
