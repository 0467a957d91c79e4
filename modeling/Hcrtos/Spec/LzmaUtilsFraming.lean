import Hcrtos.Native.LzmaUtils

/-!
# What the LZMA wrapper reads

The size is read before the length of the input is looked at. The length that is passed on to the
decoder counts the size, whose bytes the window leaves out, so the window ends eight bytes after
the input. Only an input whose size is rejected is not read beyond its end.

## Key results

- `readSize_of_le`, `readSize_of_lt`: the size that is read
- `call_not_inside`: the window of every call of the decoder
- `input_framed_iff`: the inputs that are not read beyond their end
- `input_framed_fails`: one that is
-/

namespace Hcrtos.Native.LzmaUtils

/-- The size at an offset: four bytes, the lowest first. -/
def word (inData : List UInt8) (offset : Nat) : UInt32 :=
  let byte := fun i => (inData.getD (offset + i) 0).toUInt32
  byte 0 + byte 1 <<< 8 + byte 2 <<< 16 + byte 3 <<< 24

theorem sizeRound_of_lt {inData : List UInt8} {i : Nat} (size : UInt32 × UInt32)
    (h : LZMA_SIZE_OFFSET + i < inData.length) :
    sizeRound inData size i = some
      (if i < 4 then
        (size.1 + (inData.getD (LZMA_SIZE_OFFSET + i) 0).toUInt32 <<< UInt32.ofNat (i * 8), size.2)
      else
        (size.1,
          size.2 + (inData.getD (LZMA_SIZE_OFFSET + i) 0).toUInt32 <<<
            UInt32.ofNat ((i - 4) * 8))) := by
  unfold sizeRound
  rw [List.getD_eq_getElem?_getD, List.getElem?_eq_getElem h]
  rfl

theorem sizeRound_of_le {inData : List UInt8} {i : Nat} (size : UInt32 × UInt32)
    (h : inData.length ≤ LZMA_SIZE_OFFSET + i) : sizeRound inData size i = none := by
  unfold sizeRound
  rw [List.getElem?_eq_none h]
  rfl

/-- The size is read when the input holds it. -/
theorem readSize_of_le {inData : List UInt8} (h : LZMA_DATA_OFFSET ≤ inData.length) :
    readSize inData =
      some (word inData LZMA_SIZE_OFFSET, word inData (LZMA_SIZE_OFFSET + 4)) := by
  have hlt : ∀ i < 8, LZMA_SIZE_OFFSET + i < inData.length := fun i hi =>
    Nat.lt_of_lt_of_le (Nat.add_lt_add_left hi LZMA_SIZE_OFFSET) h
  have hrange : List.range 8 = [0, 1, 2, 3, 4, 5, 6, 7] := rfl
  unfold readSize
  simp only [hrange, List.foldlM_cons, List.foldlM_nil, Option.bind_eq_bind, Option.bind_some,
    sizeRound_of_lt _ (hlt 0 (by decide)), sizeRound_of_lt _ (hlt 1 (by decide)),
    sizeRound_of_lt _ (hlt 2 (by decide)), sizeRound_of_lt _ (hlt 3 (by decide)),
    sizeRound_of_lt _ (hlt 4 (by decide)), sizeRound_of_lt _ (hlt 5 (by decide)),
    sizeRound_of_lt _ (hlt 6 (by decide)), sizeRound_of_lt _ (hlt 7 (by decide))]
  simp [word]

/-- Otherwise a byte is read that is not there: the last one, if no other. -/
theorem readSize_of_lt {inData : List UInt8} (h : inData.length < LZMA_DATA_OFFSET) :
    readSize inData = none := by
  have hrange : List.range 8 = List.range 7 ++ [7] := rfl
  have hlast : ∀ size, sizeRound inData size 7 = none := fun size =>
    sizeRound_of_le size (Nat.le_of_lt_succ h)
  unfold readSize
  rw [hrange, List.foldlM_append]
  -- an earlier round may have failed already
  cases (List.range 7).foldlM (sizeRound inData) (0, 0) with
  | none => rfl
  | some size => simp [hlast]

/-- The sizes for which the wrapper returns without a call of the decoder. -/
def SizeRejected (outSize outSizeHigh deompressedSize : UInt32) : Prop :=
  outSizeHigh ≠ 0 ∧ (outSizeHigh ≠ -1 ∨ outSize ≠ -1) ∨
    outSize ≠ -1 ∧ deompressedSize < outSize

instance (outSize outSizeHigh deompressedSize : UInt32) :
    Decidable (SizeRejected outSize outSizeHigh deompressedSize) :=
  inferInstanceAs (Decidable (_ ∨ _))

/-- The window ends eight bytes after the input. -/
theorem call_not_inside (inData : Buffer) (destLen : UInt32)
    (h : LZMA_PROPS_SIZE ≤ inData.bytes.length) :
    ¬ DecoderCall.Inside ⟨destLen, LZMA_DATA_OFFSET,
      UInt32.ofNat inData.bytes.length - UInt32.ofNat LZMA_PROPS_SIZE, 0, LZMA_PROPS_SIZE⟩
      inData := by
  rintro ⟨hinside, -⟩
  -- the length leaves out the properties, but not the size, which is in front of the data too
  have hwindow : LZMA_DATA_OFFSET + (UInt32.ofNat inData.bytes.length -
      UInt32.ofNat LZMA_PROPS_SIZE).toNat ≤ inData.bytes.length := hinside
  have hfit := inData.length_lt
  have hsub : (UInt32.ofNat inData.bytes.length - UInt32.ofNat LZMA_PROPS_SIZE).toNat =
      inData.bytes.length - LZMA_PROPS_SIZE := by
    have hlen : (UInt32.ofNat inData.bytes.length).toNat = inData.bytes.length :=
      UInt32.toNat_ofNat_of_lt' hfit
    rw [UInt32.toNat_sub_of_le _ _ (UInt32.le_iff_toNat_le.mpr (by rw [hlen]; exact h)), hlen]
    rfl
  rw [hsub] at hwindow
  unfold LZMA_DATA_OFFSET LZMA_SIZE_OFFSET LZMA_PROPS_SIZE at *
  omega

section Wrapper

variable (LzmaDecompress : DecoderCall → Int × UInt32)

/-- A size that is rejected. -/
theorem framed_of_rejected {deompressedSize : UInt32} {inData : Buffer}
    (hlen : LZMA_DATA_OFFSET ≤ inData.bytes.length)
    (h : SizeRejected (word inData.bytes LZMA_SIZE_OFFSET)
      (word inData.bytes (LZMA_SIZE_OFFSET + 4)) deompressedSize) :
    Framed inData (lzmaBuffToBuffDecompress LzmaDecompress deompressedSize inData) := by
  unfold lzmaBuffToBuffDecompress
  rw [readSize_of_le hlen]
  refine ⟨_, rfl, ?_, fun hshort => absurd hlen (Nat.not_le_of_lt hshort)⟩
  dsimp only
  split
  case isTrue => exact fun _ hcall => absurd hcall nofun
  case isFalse hdata =>
    rw [if_pos (h.resolve_left hdata)]
    exact fun _ hcall => absurd hcall nofun

/-- Only the input is read exactly when it holds the properties and the size, and the size is
    rejected. -/
theorem input_framed_iff (deompressedSize : UInt32) (inData : Buffer) :
    Framed inData (lzmaBuffToBuffDecompress LzmaDecompress deompressedSize inData) ↔
      LZMA_DATA_OFFSET ≤ inData.bytes.length ∧
        SizeRejected (word inData.bytes LZMA_SIZE_OFFSET)
          (word inData.bytes (LZMA_SIZE_OFFSET + 4)) deompressedSize := by
  constructor
  · rintro ⟨r, hr, hinside, -⟩
    have hlen : LZMA_DATA_OFFSET ≤ inData.bytes.length := by
      rcases Nat.lt_or_ge inData.bytes.length LZMA_DATA_OFFSET with hshort | hlen
      · unfold lzmaBuffToBuffDecompress at hr
        rw [readSize_of_lt hshort] at hr
        cases hr
      · exact hlen
    refine ⟨hlen, ?_⟩
    by_cases hrej : SizeRejected (word inData.bytes LZMA_SIZE_OFFSET)
      (word inData.bytes (LZMA_SIZE_OFFSET + 4)) deompressedSize
    · exact hrej
    · -- the decoder is called
      obtain ⟨hdata, heof⟩ := not_or.mp hrej
      unfold lzmaBuffToBuffDecompress at hr
      rw [readSize_of_le hlen] at hr
      simp only [Option.map_some, if_neg hdata, if_neg heof] at hr
      cases hr
      exact absurd (hinside _ rfl)
        (call_not_inside inData _ (Nat.le_trans (by decide) hlen))
  · rintro ⟨hlen, hrej⟩
    exact framed_of_rejected LzmaDecompress hlen hrej

end Wrapper

/-- Thirteen bytes, with a size that the output has room for: the decoder is told of eight bytes
    behind them. -/
theorem input_framed_fails : ¬ Framed ⟨.replicate 13 0, by decide⟩
    (lzmaBuffToBuffDecompress (fun call => (SZ_OK, call.destLen)) 100
      ⟨.replicate 13 0, by decide⟩) := by
  rintro ⟨r, hr, hinside, -⟩
  cases hr
  exact absurd (hinside _ rfl) (by decide)

end Hcrtos.Native.LzmaUtils
