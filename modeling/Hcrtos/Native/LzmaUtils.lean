import Mathlib.Algebra.Ring.Nat
import Mathlib.Data.List.Basic

/-!
# The LZMA buffer

`LzmaUtils.c`: a buffer holds five bytes of properties, the size of the uncompressed data in eight
bytes, and the compressed data. `lzmaBuffToBuffDecompress` reads the size and passes the rest on to
the decoder. A read outside of the buffer is `none`. The decoder is a parameter: it is given parts
of the buffer as an offset and a length.
-/

namespace Hcrtos.Native.LzmaUtils

def LZMA_PROPS_SIZE : Nat := 5
def LZMA_SIZE_OFFSET : Nat := LZMA_PROPS_SIZE
/-- After the size, a `UInt64`. -/
def LZMA_DATA_OFFSET : Nat := LZMA_SIZE_OFFSET + 8

def SZ_OK : Int := 0
def SZ_ERROR_DATA : Int := 1
def SZ_ERROR_OUTPUT_EOF : Int := 7

/-- Bytes in memory: their number is a `size_t`. -/
structure Buffer where
  bytes : List UInt8
  length_lt : bytes.length < 2 ^ 32

/-- The arguments of `LzmaDecompress`; the pointers are offsets into the input. -/
structure DecoderCall where
  destLen : UInt32
  src : Nat
  srcLen : UInt32
  propData : Nat
  propSize : Nat

/-- The result of `lzmaBuffToBuffDecompress`, and the call of the decoder that it made. -/
structure Result where
  ret : Int
  deompressedSize : UInt32
  call : Option DecoderCall

/-- A round of the loop that reads the size. -/
def sizeRound (inData : List UInt8) (size : UInt32 × UInt32) (i : Nat) :
    Option (UInt32 × UInt32) :=
  inData[LZMA_SIZE_OFFSET + i]?.map fun b =>
    if i < 4 then (size.1 + b.toUInt32 <<< UInt32.ofNat (i * 8), size.2)
    else (size.1, size.2 + b.toUInt32 <<< UInt32.ofNat ((i - 4) * 8))

/-- `outSize` and `outSizeHigh`. -/
def readSize (inData : List UInt8) : Option (UInt32 × UInt32) :=
  (List.range 8).foldlM (sizeRound inData) (0, 0)

/-- `lzmaBuffToBuffDecompress`, where `SizeT` has 32 bits. -/
def lzmaBuffToBuffDecompress (LzmaDecompress : DecoderCall → Int × UInt32)
    (deompressedSize : UInt32) (inData : Buffer) : Option Result :=
  let compressedSize := UInt32.ofNat inData.bytes.length - UInt32.ofNat LZMA_PROPS_SIZE
  (readSize inData.bytes).map fun (outSize, outSizeHigh) =>
    -- all ones stand for an unknown size
    if outSizeHigh ≠ 0 ∧ (outSizeHigh ≠ -1 ∨ outSize ≠ -1) then
      ⟨SZ_ERROR_DATA, deompressedSize, none⟩
    else if outSize ≠ -1 ∧ deompressedSize < outSize then
      ⟨SZ_ERROR_OUTPUT_EOF, deompressedSize, none⟩
    else
      let outProcessed := if outSize > deompressedSize then deompressedSize else outSize
      let call : DecoderCall :=
        ⟨outProcessed, LZMA_DATA_OFFSET, compressedSize, 0, LZMA_PROPS_SIZE⟩
      ⟨(LzmaDecompress call).1, (LzmaDecompress call).2, some call⟩

/-- The window and the properties that the decoder is given lie in the input. -/
def DecoderCall.Inside (call : DecoderCall) (inData : Buffer) : Prop :=
  call.src + call.srcLen.toNat ≤ inData.bytes.length ∧
    call.propData + call.propSize ≤ inData.bytes.length

instance (call : DecoderCall) (inData : Buffer) : Decidable (call.Inside inData) :=
  inferInstanceAs (Decidable (_ ∧ _))

/-- Only the input is read, by the decoder too, and an input that is too short for the properties
    and the size is rejected. -/
def Framed (inData : Buffer) (result : Option Result) : Prop :=
  ∃ r, result = some r ∧ (∀ call ∈ r.call, call.Inside inData) ∧
    (inData.bytes.length < LZMA_DATA_OFFSET → r.call = none ∧ r.ret ≠ SZ_OK)

end Hcrtos.Native.LzmaUtils
