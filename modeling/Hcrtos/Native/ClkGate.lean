import Mathlib.Algebra.Ring.Int.Defs
import Mathlib.Logic.Function.Basic
import Hcrtos.ForStd.Bits
import Hcrtos.ForStd.Lts

/-!
# Clock gates

`hc_clk_gate.c`: `hc_clk_enable` and `hc_clk_disable`, which are routines of their own on each
SoC, over the tables that give each gate its clock. A set bit of a gate register stops a clock.
-/

namespace Hcrtos.Native.ClkGate

open Bits

/-- `enum CLOCK_GATE`. -/
inductive Gate where
  | SFLASH_CLK | SDIO_CLK | NAND_FLASH_CLK | DESCRAMBLE_CLK | TSG_CLK | DEMUX1_CLK | DEMUX2_CLK
  | TS_SWITCH_CLK | ETH_MAC_CLK | SAR_ADC_CLK | VDEC_CLK | DDR_PHY_APB_CLK | DFI_CLK
  | UART1_CLK | UART2_CLK | I2C1_CLK | HDMI_TX_PHY_REFP_CLK | WATCHDOG_CLK | REALTIMER_CLK
  | I2C2_CLK | I2C3_CLK | I2C4_CLK | SB_APB_CLK | SB_108M_CLK | SB_1843M_CLK | SB_27M_CLK
  | VOU_HD_CLK | VE_CLK | DE_CLK | TVENC_SD_CLK | GE_CLK | TVENC_HD_CLK | VIN_CLK | DE_HDMI_CLK
  | VDAC1_CLK | VDAC2_CLK | VDAC3_CLK | VDAC4_CLK | UART3_4_CLK | SGDMA1_CLK | SGDMA2_CLK
  | HDMI_TX_CLK | AUDIO_CLK | SPI_MASTER_CLK | DVI_CLK | VOU_HD_EXT_CLK | SPO_CLK | DDP_SPO_CLK
  | TSDMA_CLK | JENC_CLK | USB0_CLK | USB1_CLK | HDMI_TX_PHY_SYS_CLK | MIPI_CLK | BOOTROM_CLK
  | TVDEC_CLK | CPU1_CLK | DE4K_HDMI_CLK | DE4K_EXTO_CLK | DE4K_CLK | DE4K_DVI_CLK
  | DE4K_VIN_CLK | DE4K_VOU_HD_CLK | LVDS_CH1_PIXEL_CLK | LVDS_CLK | VID_HDMI_CLK
  | VID_CVBS_CLK | HRX_CLK | HRX_IAUDCLK | RGB_CLK | PQ_CLK | AUD_EXTI_1_BCLK_P1
  | AUD_EXTI_SP_CLK_P1 | AUD_EXTO_1_MCLK_P0 | AUD_EXTO_SP_CLK_P0 | AUD_EXTO_HDMI_ADAC_1_BCLK_P0
  | AUD_EXTO_HDMI_ADAC_1_BCLK_P1 | AUD_EXTO_HDMI_ADAC_1_BCLK_P2 | AUD_HDMI_SP_CLK_P0
  | AUD_HDMI_SP_CLK_P1 | HDMI_F128_LR_CLK | AUD_PCMO_BCLK_CLK
  deriving DecidableEq

/-- The gate has no clock on this SoC. -/
def NONE : Int := -1

/-- `int` arithmetic, which wraps around. -/
def int32 (x : Int) : Int := (x + 2 ^ 31) % 2 ^ 32 - 2 ^ 31

/-- The gate registers and the reference counters. As history, the enables of each gate, and the
    disables of it that found it enabled; both only where the SoC has a clock for it. -/
structure State where
  reg : Nat → BitVec 32
  clk_cref : Gate → Int
  enables : Gate → Nat
  disables : Gate → Nat

/-- Before the first call, with the registers `reg`. -/
def init (reg : Nat → BitVec 32) : State := ⟨reg, fun _ => 0, fun _ => 0, fun _ => 0⟩

/-- `*clock_gate_reg = tmp_val & ~(1 << bit)`. -/
def State.run (s : State) (r bit : Nat) : State :=
  { s with reg := Function.update s.reg r (clearBit (s.reg r) bit) }

/-- `*clock_gate_reg = tmp_val | (1 << bit)`. -/
def State.stop (s : State) (r bit : Nat) : State :=
  { s with reg := Function.update s.reg r (setBit (s.reg r) bit) }

/-- `clk_cref[gate]++`. -/
def State.inc (s : State) (gate : Gate) : State :=
  { s with clk_cref := Function.update s.clk_cref gate (int32 (s.clk_cref gate + 1)) }

/-- `clk_cref[gate]--`. -/
def State.dec (s : State) (gate : Gate) : State :=
  { s with clk_cref := Function.update s.clk_cref gate (int32 (s.clk_cref gate - 1)) }

namespace HC16XX

def HC16_SFLASH_CLK : Int := 0
def HC16_VOU_HD_CLK : Int := 0 + 32
def HC16_CPU1_CLK : Int := 31 + 32
def HC16_DE4K_HDMI_CLK : Int := 0 + 352
def HC16_AUD_PCMO_BCLK_CLK : Int := 26 + 352

/-- The table of the clocks. -/
def clk_gate : Gate → Int
  | .SFLASH_CLK => 0
  | .SDIO_CLK => 1
  | .NAND_FLASH_CLK => 2
  | .DESCRAMBLE_CLK => 3
  | .TSG_CLK => 7
  | .DEMUX1_CLK => 8
  | .DEMUX2_CLK => 9
  | .TS_SWITCH_CLK => 10
  | .ETH_MAC_CLK => 11
  | .SAR_ADC_CLK => 12
  | .VDEC_CLK => 13
  | .DDR_PHY_APB_CLK => 14
  | .DFI_CLK => 15
  | .UART1_CLK => 16
  | .UART2_CLK => 17
  | .I2C1_CLK => 18
  | .HDMI_TX_PHY_REFP_CLK => 19
  | .WATCHDOG_CLK => 22
  | .REALTIMER_CLK => 23
  | .I2C2_CLK => 25
  | .I2C3_CLK => 26
  | .I2C4_CLK => 27
  | .SB_APB_CLK => 28
  | .SB_108M_CLK => 29
  | .SB_1843M_CLK => 30
  | .SB_27M_CLK => 31
  | .VOU_HD_CLK => 0 + 32
  | .VE_CLK => 1 + 32
  | .DE_CLK => 2 + 32
  | .TVENC_SD_CLK => 3 + 32
  | .GE_CLK => 4 + 32
  | .TVENC_HD_CLK => 5 + 32
  | .VIN_CLK => 6 + 32
  | .DE_HDMI_CLK => 7 + 32
  | .VDAC1_CLK => 8 + 32
  | .VDAC2_CLK => 9 + 32
  | .VDAC3_CLK => 10 + 32
  | .VDAC4_CLK => NONE
  | .UART3_4_CLK => 11 + 32
  | .SGDMA1_CLK => 12 + 32
  | .SGDMA2_CLK => 13 + 32
  | .HDMI_TX_CLK => 14 + 32
  | .AUDIO_CLK => 15 + 32
  | .SPI_MASTER_CLK => 16 + 32
  | .DVI_CLK => 17 + 32
  | .VOU_HD_EXT_CLK => 18 + 32
  | .SPO_CLK => 20 + 32
  | .DDP_SPO_CLK => 21 + 32
  | .TSDMA_CLK => 22 + 32
  | .JENC_CLK => 23 + 32
  | .USB0_CLK => 24 + 32
  | .USB1_CLK => 25 + 32
  | .HDMI_TX_PHY_SYS_CLK => 27 + 32
  | .MIPI_CLK => 28 + 32
  | .BOOTROM_CLK => 29 + 32
  | .TVDEC_CLK => 30 + 32
  | .CPU1_CLK => 31 + 32
  | .DE4K_HDMI_CLK => 0 + 352
  | .DE4K_EXTO_CLK => 1 + 352
  | .DE4K_CLK => 2 + 352
  | .DE4K_DVI_CLK => 3 + 352
  | .DE4K_VIN_CLK => 4 + 352
  | .DE4K_VOU_HD_CLK => 5 + 352
  | .LVDS_CH1_PIXEL_CLK => 7 + 352
  | .LVDS_CLK => 8 + 352
  | .VID_HDMI_CLK => 9 + 352
  | .VID_CVBS_CLK => 10 + 352
  | .HRX_CLK => 11 + 352
  | .HRX_IAUDCLK => 12 + 352
  | .RGB_CLK => 13 + 352
  | .PQ_CLK => 14 + 352
  | .AUD_EXTI_1_BCLK_P1 => 16 + 352
  | .AUD_EXTI_SP_CLK_P1 => 17 + 352
  | .AUD_EXTO_1_MCLK_P0 => 18 + 352
  | .AUD_EXTO_SP_CLK_P0 => 19 + 352
  | .AUD_EXTO_HDMI_ADAC_1_BCLK_P0 => 20 + 352
  | .AUD_EXTO_HDMI_ADAC_1_BCLK_P1 => 21 + 352
  | .AUD_EXTO_HDMI_ADAC_1_BCLK_P2 => 22 + 352
  | .AUD_HDMI_SP_CLK_P0 => 23 + 352
  | .AUD_HDMI_SP_CLK_P1 => 24 + 352
  | .HDMI_F128_LR_CLK => 25 + 352
  | .AUD_PCMO_BCLK_CLK => 26 + 352

/-- The clock is none that the routines know. -/
def unknown (clock : Int) : Bool :=
  (clock > HC16_CPU1_CLK ∧ clock < HC16_DE4K_HDMI_CLK) ∨ clock > HC16_AUD_PCMO_BCLK_CLK ∨
    clock < HC16_SFLASH_CLK

/-- `hc_clk_enable`. -/
def hc_clk_enable (s : State) (gate : Gate) : State :=
  let clock := clk_gate gate
  if clock < 0 then s
  else if unknown clock then s
  else
    let s :=
      if clock < HC16_VOU_HD_CLK then s.run 0 clock.toNat
      else if clock < HC16_DE4K_HDMI_CLK then s.run 1 (clock - 32).toNat
      else s.run 2 (clock - 352).toNat
    s.inc gate

/-- `hc_clk_disable`. -/
def hc_clk_disable (s : State) (gate : Gate) : State :=
  let clock := clk_gate gate
  if clock < 0 ∨ s.clk_cref gate = 0 then s
  else if unknown clock then s
  else
    let s := s.dec gate
    if s.clk_cref gate ≠ 0 then s
    else if clock < HC16_VOU_HD_CLK then s.stop 0 clock.toNat
    else if clock < HC16_DE4K_HDMI_CLK then s.stop 1 (clock - 32).toNat
    else s.stop 2 (clock - 352).toNat

end HC16XX

namespace HC15XX

def HC15_SFLASH_CLK : Int := 0
def HC15_VOU_HD_CLK : Int := 0 + 32
def HC15_BOOTROM_CLK : Int := 29 + 32

/-- The table of the clocks. -/
def clk_gate : Gate → Int
  | .SFLASH_CLK => 0
  | .SDIO_CLK => 1
  | .NAND_FLASH_CLK => NONE
  | .DESCRAMBLE_CLK => 3
  | .TSG_CLK => 7
  | .DEMUX1_CLK => 8
  | .DEMUX2_CLK => 9
  | .TS_SWITCH_CLK => 10
  | .ETH_MAC_CLK => NONE
  | .SAR_ADC_CLK => 12
  | .VDEC_CLK => NONE
  | .DDR_PHY_APB_CLK => 14
  | .DFI_CLK => 15
  | .UART1_CLK => 16
  | .UART2_CLK => 17
  | .I2C1_CLK => 18
  | .HDMI_TX_PHY_REFP_CLK => 19
  | .WATCHDOG_CLK => 22
  | .REALTIMER_CLK => 23
  | .I2C2_CLK => 25
  | .I2C3_CLK => 26
  | .I2C4_CLK => NONE
  | .SB_APB_CLK => 28
  | .SB_108M_CLK => 29
  | .SB_1843M_CLK => 30
  | .SB_27M_CLK => 31
  | .VOU_HD_CLK => 0 + 32
  | .VE_CLK => 1 + 32
  | .DE_CLK => 2 + 32
  | .TVENC_SD_CLK => 3 + 32
  | .GE_CLK => 4 + 32
  | .TVENC_HD_CLK => 5 + 32
  | .VIN_CLK => 6 + 32
  | .DE_HDMI_CLK => 7 + 32
  | .VDAC1_CLK => 8 + 32
  | .VDAC2_CLK => 9 + 32
  | .VDAC3_CLK => 10 + 32
  | .VDAC4_CLK => 11 + 32
  | .UART3_4_CLK => NONE
  | .SGDMA1_CLK => 12 + 32
  | .SGDMA2_CLK => NONE
  | .HDMI_TX_CLK => 14 + 32
  | .AUDIO_CLK => 15 + 32
  | .SPI_MASTER_CLK => NONE
  | .DVI_CLK => 17 + 32
  | .VOU_HD_EXT_CLK => 18 + 32
  | .SPO_CLK => 20 + 32
  | .DDP_SPO_CLK => 21 + 32
  | .TSDMA_CLK => 22 + 32
  | .JENC_CLK => 23 + 32
  | .USB0_CLK => 24 + 32
  | .USB1_CLK => 25 + 32
  | .HDMI_TX_PHY_SYS_CLK => 27 + 32
  | .MIPI_CLK => NONE
  | .BOOTROM_CLK => 29 + 32
  | .TVDEC_CLK => NONE
  | .CPU1_CLK => NONE
  | .DE4K_HDMI_CLK => NONE
  | .DE4K_EXTO_CLK => NONE
  | .DE4K_CLK => NONE
  | .DE4K_DVI_CLK => NONE
  | .DE4K_VIN_CLK => NONE
  | .DE4K_VOU_HD_CLK => NONE
  | .LVDS_CH1_PIXEL_CLK => NONE
  | .LVDS_CLK => NONE
  | .VID_HDMI_CLK => NONE
  | .VID_CVBS_CLK => NONE
  | .HRX_CLK => NONE
  | .HRX_IAUDCLK => NONE
  | .RGB_CLK => NONE
  | .PQ_CLK => NONE
  | .AUD_EXTI_1_BCLK_P1 => NONE
  | .AUD_EXTI_SP_CLK_P1 => NONE
  | .AUD_EXTO_1_MCLK_P0 => NONE
  | .AUD_EXTO_SP_CLK_P0 => NONE
  | .AUD_EXTO_HDMI_ADAC_1_BCLK_P0 => NONE
  | .AUD_EXTO_HDMI_ADAC_1_BCLK_P1 => NONE
  | .AUD_EXTO_HDMI_ADAC_1_BCLK_P2 => NONE
  | .AUD_HDMI_SP_CLK_P0 => NONE
  | .AUD_HDMI_SP_CLK_P1 => NONE
  | .HDMI_F128_LR_CLK => NONE
  | .AUD_PCMO_BCLK_CLK => NONE

/-- The clock is none that the routines know. -/
def unknown (clock : Int) : Bool := clock > HC15_BOOTROM_CLK ∨ clock < HC15_SFLASH_CLK

/-- `hc_clk_enable`. -/
def hc_clk_enable (s : State) (gate : Gate) : State :=
  let clock := clk_gate gate
  if clock < 0 then s
  else if unknown clock then s
  else
    let s :=
      if clock < HC15_VOU_HD_CLK then s.run 0 clock.toNat
      else s.run 1 (clock - 32).toNat
    s.inc gate

/-- `hc_clk_disable`. -/
def hc_clk_disable (s : State) (gate : Gate) : State :=
  let clock := clk_gate gate
  if clock < 0 ∨ s.clk_cref gate = 0 then s
  else if unknown clock then s
  else
    let s := s.dec gate
    if s.clk_cref gate ≠ 0 then s
    else
      let s :=
        if clock < HC15_VOU_HD_CLK then s.stop 0 clock.toNat
        else s.stop 1 (clock - 32).toNat
      s.dec gate

end HC15XX

inductive Soc where
  | HC15XX
  | HC16XX

def Soc.clk_gate : Soc → Gate → Int
  | .HC15XX => HC15XX.clk_gate
  | .HC16XX => HC16XX.clk_gate

def Soc.hc_clk_enable : Soc → State → Gate → State
  | .HC15XX => HC15XX.hc_clk_enable
  | .HC16XX => HC16XX.hc_clk_enable

def Soc.hc_clk_disable : Soc → State → Gate → State
  | .HC15XX => HC15XX.hc_clk_disable
  | .HC16XX => HC16XX.hc_clk_disable

/-- The SoC has a clock for the gate. -/
def Soc.Has (soc : Soc) (gate : Gate) : Prop := soc.clk_gate gate ≠ NONE

instance (soc : Soc) (gate : Gate) : Decidable (soc.Has gate) := inferInstanceAs (Decidable (_ ≠ _))

/-- The register and the bit of a clock. -/
def position (clock : Int) : Nat × Nat :=
  if clock < 32 then (0, clock.toNat)
  else if clock < 352 then (1, (clock - 32).toNat)
  else (2, (clock - 352).toNat)

/-- The clock of the gate is running in the registers `reg`. -/
def Soc.running (soc : Soc) (reg : Nat → BitVec 32) (gate : Gate) : Bool :=
  let (r, bit) := position (soc.clk_gate gate)
  !(reg r).getLsbD bit

/-- A call. -/
inductive Action where
  | enable (gate : Gate)
  | disable (gate : Gate)

/-- Count one more at a gate. -/
def bump (count : Gate → Nat) (gate : Gate) : Gate → Nat :=
  Function.update count gate (count gate + 1)

/-- The step function. -/
def step (soc : Soc) (s : State) : Action → Option State
  | .enable gate =>
    let enables := if soc.Has gate then bump s.enables gate else s.enables
    some { soc.hc_clk_enable s gate with enables := enables }
  | .disable gate =>
    let disables := if s.disables gate < s.enables gate then bump s.disables gate else s.disables
    some { soc.hc_clk_disable s gate with disables := disables }

/-- The enables of a gate that were not undone. -/
def State.balance (s : State) (gate : Gate) : Int := s.enables gate - s.disables gate

/-- Each counter is the balance of its gate and not negative, and the clock of the gate runs as
    long as the balance is positive. A gate that was never enabled is as it was at the start. -/
structure Counted (soc : Soc) (reg : Nat → BitVec 32) (s : State) : Prop where
  clk_cref_eq : ∀ gate, s.clk_cref gate = s.balance gate
  clk_cref_nonneg : ∀ gate, 0 ≤ s.clk_cref gate
  running_iff : ∀ gate, soc.Has gate → (soc.running s.reg gate = true ↔
    if s.enables gate = 0 then soc.running reg gate = true else 0 < s.balance gate)

/-- On the HC15XX, no call disables a gate that is enabled once; no counter overflows. -/
def KeepsCount (soc : Soc) (s : State) : Action → Prop
  | .enable gate => soc.Has gate → s.balance gate < 2 ^ 31 - 1
  | .disable gate => soc = .HC15XX → s.balance gate ≠ 1

end Hcrtos.Native.ClkGate
