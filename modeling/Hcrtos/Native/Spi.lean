import Mathlib.Data.List.Basic
import Hcrtos.ForStd.Loop

/-!
# Transfers of the SPI controller

`hc-spi.c`: a buffer is sent or received in chunks. The processor moves single bytes (and words,
when it only receives), and the DMA moves what begins and ends at a cache line.
-/

namespace Hcrtos.Native.Spi

open Loop

def ARCH_DMA_MINALIGN : UInt32 := 32
def DMA_ADDR_ALIGN : UInt32 := 64
def DMA_LEN_ALIGN : UInt32 := 64
def DMA_LEN_MIN : UInt32 := 0x100

def IS_ALIGNED (x a : UInt32) : Bool := x &&& (a - 1) = 0

/-- `ALIGN_DOWN`, by `__ALIGN_KERNEL_MASK`. -/
def ALIGN_DOWN (x a : UInt32) : UInt32 := (x - (a - 1) + (a - 1)) &&& ~~~(a - 1)

/-- The fields of `struct hc_spi` that decide how to transfer. -/
structure HcSpi where
  dma_mode : Bool
  dma_force : Bool

/-- Bytes that are moved together, by the DMA or by the processor. -/
structure Chunk where
  dma : Bool
  addr : UInt32
  len : UInt32

/-- The addresses of a number of bytes. -/
def bytesAt (addr len : UInt32) : List UInt32 :=
  (List.range len.toNat).map fun i => addr + UInt32.ofNat i

/-- Where a loop over the buffer is, and the chunks so far. -/
structure Copy where
  addr : UInt32
  copy_left : UInt32
  chunks : List Chunk

/-- A round of `while (copy_left)`: `next` is the chunk at an address, if the round moves one. -/
def round (next : UInt32 → UInt32 → Option Chunk) (c : Copy) : List Chunk ⊕ Copy :=
  if c.copy_left = 0 then .inl c.chunks
  else
    match next c.addr c.copy_left with
    | none => .inr c
    | some chunk =>
      .inr ⟨c.addr + chunk.len, c.copy_left - chunk.len, c.chunks ++ [chunk]⟩

/-- The loop, with a fuel. -/
def copy (next : UInt32 → UInt32 → Option Chunk) (fuel : Nat) (buf len : UInt32) :
    Option (List Chunk) :=
  loop (round next) fuel ⟨buf, len, []⟩

/-- A round of `hc_spi_pio_tx`. -/
def pioTx (addr _copy_left : UInt32) : Option Chunk := some ⟨false, addr, 1⟩

/-- A round of `hc_spi_pio_rx`. -/
def pioRx (addr copy_left : UInt32) : Option Chunk :=
  if IS_ALIGNED addr 4 = false ∨ copy_left < 4 then some ⟨false, addr, 1⟩
  else if copy_left ≥ 4 then some ⟨false, addr, 4⟩
  else none

/-- A round of the loops of `hc_spi_transfer_tx` and `hc_spi_transfer_rx`. -/
def byDma (addr copy_left : UInt32) : Option Chunk :=
  if IS_ALIGNED addr DMA_ADDR_ALIGN = false ∨ copy_left < DMA_LEN_ALIGN then some ⟨false, addr, 1⟩
  else
    let dma_copy_left := ALIGN_DOWN copy_left DMA_LEN_ALIGN
    if dma_copy_left ≠ 0 then some ⟨true, addr, dma_copy_left⟩ else none

def hc_spi_transfer_tx (hs : HcSpi) (fuel : Nat) (buf len : UInt32) : Option (List Chunk) :=
  if hs.dma_force then
    -- `hc_spi_force_dma_tx`
    some [⟨true, buf, len⟩]
  else if hs.dma_mode = false ∨ len < DMA_LEN_MIN then copy pioTx fuel buf len
  else copy byDma fuel buf len

def hc_spi_transfer_rx (hs : HcSpi) (fuel : Nat) (buf len : UInt32) : Option (List Chunk) :=
  if hs.dma_mode = false ∨ len < DMA_LEN_MIN then copy pioRx fuel buf len
  else copy byDma fuel buf len

/-- The chunks are the bytes of the buffer, each one once and in their order. -/
def Covers (buf len : UInt32) (chunks : List Chunk) : Prop :=
  (chunks.flatMap fun c => bytesAt c.addr c.len) = bytesAt buf len

/-- A chunk of the DMA begins and ends at a boundary of the driver, which is one of a cache
    line. -/
def Chunk.Aligned (c : Chunk) : Prop :=
  c.dma = true → DMA_ADDR_ALIGN.toNat ∣ c.addr.toNat ∧ DMA_LEN_ALIGN.toNat ∣ c.len.toNat ∧
    ARCH_DMA_MINALIGN.toNat ∣ c.addr.toNat ∧ ARCH_DMA_MINALIGN.toNat ∣ c.len.toNat

instance (buf len : UInt32) (chunks : List Chunk) : Decidable (Covers buf len chunks) :=
  inferInstanceAs (Decidable (_ = _))

instance (c : Chunk) : Decidable c.Aligned := inferInstanceAs (Decidable (_ → _))

end Hcrtos.Native.Spi
