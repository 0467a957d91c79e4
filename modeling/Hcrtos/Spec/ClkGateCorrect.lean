import Hcrtos.Native.ClkGate

/-!
# Clock gates are counted

The routines of both SoCs come down to one description: an enable clears the bit of the gate and
counts, a disable counts back and sets the bit when it gets to 0. The routine of the HC15XX counts
back once more then, so that its counter is -1 where no enable is left.

## Key results

- `position_inj`: no two gates share a bit
- `hc_clk_enable_eq`, `hc_clk_disable_eq`: the routines of both SoCs
- `counted_enable`, `counted_disable`: the counters through a call
- `always_counted_iff`: the runs in which the counters are right
- `counted_fails`: a run in which one is not
-/

namespace Hcrtos.Native.ClkGate

open Bits Lts

/-! ### The tables -/

def Gate.all : List Gate :=
  [.SFLASH_CLK, .SDIO_CLK, .NAND_FLASH_CLK, .DESCRAMBLE_CLK, .TSG_CLK, .DEMUX1_CLK, .DEMUX2_CLK,
    .TS_SWITCH_CLK, .ETH_MAC_CLK, .SAR_ADC_CLK, .VDEC_CLK, .DDR_PHY_APB_CLK, .DFI_CLK, .UART1_CLK,
    .UART2_CLK, .I2C1_CLK, .HDMI_TX_PHY_REFP_CLK, .WATCHDOG_CLK, .REALTIMER_CLK, .I2C2_CLK,
    .I2C3_CLK, .I2C4_CLK, .SB_APB_CLK, .SB_108M_CLK, .SB_1843M_CLK, .SB_27M_CLK, .VOU_HD_CLK,
    .VE_CLK, .DE_CLK, .TVENC_SD_CLK, .GE_CLK, .TVENC_HD_CLK, .VIN_CLK, .DE_HDMI_CLK, .VDAC1_CLK,
    .VDAC2_CLK, .VDAC3_CLK, .VDAC4_CLK, .UART3_4_CLK, .SGDMA1_CLK, .SGDMA2_CLK, .HDMI_TX_CLK,
    .AUDIO_CLK, .SPI_MASTER_CLK, .DVI_CLK, .VOU_HD_EXT_CLK, .SPO_CLK, .DDP_SPO_CLK, .TSDMA_CLK,
    .JENC_CLK, .USB0_CLK, .USB1_CLK, .HDMI_TX_PHY_SYS_CLK, .MIPI_CLK, .BOOTROM_CLK, .TVDEC_CLK,
    .CPU1_CLK, .DE4K_HDMI_CLK, .DE4K_EXTO_CLK, .DE4K_CLK, .DE4K_DVI_CLK, .DE4K_VIN_CLK,
    .DE4K_VOU_HD_CLK, .LVDS_CH1_PIXEL_CLK, .LVDS_CLK, .VID_HDMI_CLK, .VID_CVBS_CLK, .HRX_CLK,
    .HRX_IAUDCLK, .RGB_CLK, .PQ_CLK, .AUD_EXTI_1_BCLK_P1, .AUD_EXTI_SP_CLK_P1,
    .AUD_EXTO_1_MCLK_P0, .AUD_EXTO_SP_CLK_P0, .AUD_EXTO_HDMI_ADAC_1_BCLK_P0,
    .AUD_EXTO_HDMI_ADAC_1_BCLK_P1, .AUD_EXTO_HDMI_ADAC_1_BCLK_P2, .AUD_HDMI_SP_CLK_P0,
    .AUD_HDMI_SP_CLK_P1, .HDMI_F128_LR_CLK, .AUD_PCMO_BCLK_CLK]

theorem Gate.mem_all (gate : Gate) : gate ∈ all := by cases gate <;> decide

/-- The clocks that the routines of the SoC return on. -/
def Soc.unknown : Soc → Int → Bool
  | .HC15XX => HC15XX.unknown
  | .HC16XX => HC16XX.unknown

/-- Every clock of a table is one that the routines know. -/
theorem clk_gate_known {soc : Soc} {gate : Gate} (hgate : soc.Has gate) :
    ¬ soc.clk_gate gate < 0 ∧ soc.unknown (soc.clk_gate gate) = false := by
  have h : ∀ gate ∈ Gate.all,
      (HC16XX.clk_gate gate ≠ NONE →
        ¬ HC16XX.clk_gate gate < 0 ∧ HC16XX.unknown (HC16XX.clk_gate gate) = false) ∧
      (HC15XX.clk_gate gate ≠ NONE →
        ¬ HC15XX.clk_gate gate < 0 ∧ HC15XX.unknown (HC15XX.clk_gate gate) = false) := by
    decide +kernel
  cases soc with
  | HC15XX => exact (h gate gate.mem_all).2 hgate
  | HC16XX => exact (h gate gate.mem_all).1 hgate

/-- The routines return on a gate without a clock. -/
theorem clk_gate_lt {soc : Soc} {gate : Gate} (hgate : ¬ soc.Has gate) :
    soc.clk_gate gate < 0 := by
  have hnone : soc.clk_gate gate = NONE := not_not.mp hgate
  rw [hnone]
  decide

/-- The registers have 32 bits. -/
theorem bit_lt (soc : Soc) (gate : Gate) : (position (soc.clk_gate gate)).2 < 32 := by
  have h : ∀ gate ∈ Gate.all, (position (HC16XX.clk_gate gate)).2 < 32 ∧
      (position (HC15XX.clk_gate gate)).2 < 32 := by decide +kernel
  cases soc with
  | HC15XX => exact (h gate gate.mem_all).2
  | HC16XX => exact (h gate gate.mem_all).1

/-- No two gates share a bit. -/
theorem position_inj (soc : Soc) {gate gate' : Gate} (hgate : soc.Has gate)
    (hgate' : soc.Has gate')
    (heq : position (soc.clk_gate gate) = position (soc.clk_gate gate')) : gate = gate' := by
  cases soc with
  | HC15XX =>
    have h : ∀ gate ∈ Gate.all, ∀ gate' ∈ Gate.all, HC15XX.clk_gate gate ≠ NONE →
        HC15XX.clk_gate gate' ≠ NONE →
        position (HC15XX.clk_gate gate) = position (HC15XX.clk_gate gate') → gate = gate' := by
      decide +kernel
    exact h gate gate.mem_all gate' gate'.mem_all hgate hgate' heq
  | HC16XX =>
    have h : ∀ gate ∈ Gate.all, ∀ gate' ∈ Gate.all, HC16XX.clk_gate gate ≠ NONE →
        HC16XX.clk_gate gate' ≠ NONE →
        position (HC16XX.clk_gate gate) = position (HC16XX.clk_gate gate') → gate = gate' := by
      decide +kernel
    exact h gate gate.mem_all gate' gate'.mem_all hgate hgate' heq

/-! ### The routines -/

/-- Start the clock of a gate. -/
def Soc.start (soc : Soc) (s : State) (gate : Gate) : State :=
  s.run (position (soc.clk_gate gate)).1 (position (soc.clk_gate gate)).2

/-- Stop the clock of a gate. -/
def Soc.halt (soc : Soc) (s : State) (gate : Gate) : State :=
  s.stop (position (soc.clk_gate gate)).1 (position (soc.clk_gate gate)).2

/-- The three registers of the HC16XX. -/
theorem position_elim {α : Type*} (f : Nat → Nat → α) (clock : Int) :
    (if clock < HC16XX.HC16_VOU_HD_CLK then f 0 clock.toNat
      else if clock < HC16XX.HC16_DE4K_HDMI_CLK then f 1 (clock - 32).toNat
      else f 2 (clock - 352).toNat) = f (position clock).1 (position clock).2 := by
  have hv : HC16XX.HC16_VOU_HD_CLK = 32 := rfl
  have hd : HC16XX.HC16_DE4K_HDMI_CLK = 352 := rfl
  by_cases h0 : clock < 32
  · simp [position, hv, h0]
  · by_cases h1 : clock < 352
    · simp [position, hv, hd, h0, h1]
    · simp [position, hv, hd, h0, h1]

/-- The HC15XX has the first two of them. -/
theorem position_elim_of_known {α : Type*} (f : Nat → Nat → α) {clock : Int}
    (h : HC15XX.unknown clock = false) :
    (if clock < HC15XX.HC15_VOU_HD_CLK then f 0 clock.toNat else f 1 (clock - 32).toNat) =
      f (position clock).1 (position clock).2 := by
  have hlt : clock < HC16XX.HC16_DE4K_HDMI_CLK := by
    simp [HC15XX.unknown, HC15XX.HC15_BOOTROM_CLK] at h
    unfold HC16XX.HC16_DE4K_HDMI_CLK
    omega
  rw [← position_elim f, if_pos hlt]
  rfl

/-- An enable starts the clock and counts. -/
theorem hc_clk_enable_eq (soc : Soc) (s : State) (gate : Gate) :
    soc.hc_clk_enable s gate =
      if soc.Has gate then (soc.start s gate).inc gate else s := by
  by_cases hgate : soc.Has gate
  · obtain ⟨hnot, hknown⟩ := clk_gate_known hgate
    rw [if_pos hgate]
    cases soc with
    | HC15XX =>
      have hunknown : HC15XX.unknown (HC15XX.clk_gate gate) = false := hknown
      have hgoes : ¬ HC15XX.clk_gate gate < 0 := hnot
      simp only [Soc.hc_clk_enable, HC15XX.hc_clk_enable, if_neg hgoes, hunknown]
      rw [if_neg (by decide), position_elim_of_known s.run hunknown]
      rfl
    | HC16XX =>
      have hunknown : HC16XX.unknown (HC16XX.clk_gate gate) = false := hknown
      have hgoes : ¬ HC16XX.clk_gate gate < 0 := hnot
      simp only [Soc.hc_clk_enable, HC16XX.hc_clk_enable, if_neg hgoes, hunknown]
      rw [if_neg (by decide), position_elim s.run]
      rfl
  · have hlt := clk_gate_lt hgate
    rw [if_neg hgate]
    cases soc with
    | HC15XX => exact if_pos hlt
    | HC16XX => exact if_pos hlt

/-- The end of a disable that has counted back to 0. -/
def Soc.finish (soc : Soc) (s : State) (gate : Gate) : State :=
  match soc with
  | .HC15XX => (soc.halt s gate).dec gate
  | .HC16XX => soc.halt s gate

/-- A disable counts back, and stops the clock at 0. -/
theorem hc_clk_disable_eq (soc : Soc) (s : State) (gate : Gate) :
    soc.hc_clk_disable s gate =
      if soc.Has gate ∧ s.clk_cref gate ≠ 0 then
        if (s.dec gate).clk_cref gate ≠ 0 then s.dec gate else soc.finish (s.dec gate) gate
      else s := by
  by_cases hcount : soc.Has gate ∧ s.clk_cref gate ≠ 0
  · obtain ⟨hgate, hne⟩ := hcount
    obtain ⟨hnot, hknown⟩ := clk_gate_known hgate
    rw [if_pos ⟨hgate, hne⟩]
    cases soc with
    | HC15XX =>
      have hunknown : HC15XX.unknown (HC15XX.clk_gate gate) = false := hknown
      have hgoes : ¬ (HC15XX.clk_gate gate < 0 ∨ s.clk_cref gate = 0) :=
        not_or.mpr ⟨hnot, hne⟩
      simp only [Soc.hc_clk_disable, HC15XX.hc_clk_disable, if_neg hgoes, hunknown]
      rw [if_neg (by decide), position_elim_of_known (s.dec gate).stop hunknown]
      rfl
    | HC16XX =>
      have hunknown : HC16XX.unknown (HC16XX.clk_gate gate) = false := hknown
      have hgoes : ¬ (HC16XX.clk_gate gate < 0 ∨ s.clk_cref gate = 0) :=
        not_or.mpr ⟨hnot, hne⟩
      simp only [Soc.hc_clk_disable, HC16XX.hc_clk_disable, if_neg hgoes, hunknown]
      rw [if_neg (by decide), position_elim (s.dec gate).stop]
      rfl
  · have hreturns : soc.clk_gate gate < 0 ∨ s.clk_cref gate = 0 := by
      by_cases hgate : soc.Has gate
      · exact Or.inr (by simpa [hgate] using hcount)
      · exact Or.inl (clk_gate_lt hgate)
    rw [if_neg hcount]
    cases soc with
    | HC15XX => exact if_pos hreturns
    | HC16XX => exact if_pos hreturns

/-! ### Registers and counters -/

@[simp] theorem inc_reg (s : State) (gate : Gate) : (s.inc gate).reg = s.reg := rfl

@[simp] theorem dec_reg (s : State) (gate : Gate) : (s.dec gate).reg = s.reg := rfl

/-- Starting the clock of a gate is seen at that gate only. -/
theorem running_start (soc : Soc) (s : State) {gate gate' : Gate} (hgate : soc.Has gate)
    (hgate' : soc.Has gate') :
    soc.running (soc.start s gate).reg gate' =
      (decide (gate' = gate) || soc.running s.reg gate') := by
  by_cases heq : gate' = gate
  · subst heq
    simp [Soc.running, Soc.start, State.run]
  -- another gate has another register or another bit of it
  · simp only [Soc.running, Soc.start, State.run, heq, decide_false, Bool.false_or]
    by_cases hr : (position (soc.clk_gate gate')).1 = (position (soc.clk_gate gate)).1
    · -- another bit of the same register
      have hbit : (position (soc.clk_gate gate')).2 ≠ (position (soc.clk_gate gate)).2 :=
        fun hbit => heq (position_inj soc hgate' hgate (Prod.ext hr hbit))
      simp [hr, hbit]
    · simp [hr]

/-- Stopping the clock of a gate is seen at that gate only. -/
theorem running_halt (soc : Soc) (s : State) {gate gate' : Gate} (hgate : soc.Has gate)
    (hgate' : soc.Has gate') :
    soc.running (soc.halt s gate).reg gate' =
      (!decide (gate' = gate) && soc.running s.reg gate') := by
  have hlt := bit_lt soc gate
  by_cases heq : gate' = gate
  · subst heq
    simp only [Soc.running, Soc.halt, State.stop, Function.update_self, getLsbD_setBit _ hlt]
    simp
  · simp only [Soc.running, Soc.halt, State.stop, heq, decide_false, Bool.not_false, Bool.true_and]
    by_cases hr : (position (soc.clk_gate gate')).1 = (position (soc.clk_gate gate)).1
    · have hbit : (position (soc.clk_gate gate')).2 ≠ (position (soc.clk_gate gate)).2 :=
        fun hbit => heq (position_inj soc hgate' hgate (Prod.ext hr hbit))
      simp [hr, hbit, hlt]
    · simp [hr]

/-- Counters in range count as integers do. -/
theorem int32_of_range {x : Int} (hlo : -2 ^ 31 ≤ x) (hhi : x < 2 ^ 31) : int32 x = x := by
  unfold int32
  omega

/-- What holds between the calls: the counters are right and in range, and a gate without a
    clock is not counted. -/
structure Inv (soc : Soc) (reg : Nat → BitVec 32) (s : State) : Prop where
  counted : Counted soc reg s
  clk_cref_lt : ∀ gate, s.clk_cref gate < 2 ^ 31
  absent : ∀ gate, ¬ soc.Has gate → s.enables gate = 0

theorem inv_init (soc : Soc) (reg : Nat → BitVec 32) : Inv soc reg (init reg) where
  counted := ⟨fun _ => rfl, fun _ => Int.le_refl 0, fun _ _ => by simp [init]⟩
  clk_cref_lt _ := by show (0 : Int) < 2 ^ 31; decide
  absent _ _ := rfl

/-- A gate that is enabled has a clock. -/
theorem Inv.has {soc : Soc} {reg : Nat → BitVec 32} {s : State} (hinv : Inv soc reg s)
    {gate : Gate} (hpos : 0 < s.balance gate) : soc.Has gate := by
  by_contra hnot
  have := hinv.absent gate hnot
  unfold State.balance at hpos
  omega

/-- The counter of one gate has changed as its balance has, and its clock runs as it should. -/
theorem Inv.update {soc : Soc} {reg : Nat → BitVec 32} {s s' : State} (hinv : Inv soc reg s)
    {gate : Gate} (hgate : soc.Has gate)
    (hcref : ∀ g, g ≠ gate → s'.clk_cref g = s.clk_cref g)
    (hen : ∀ g, g ≠ gate → s'.enables g = s.enables g)
    (hdis : ∀ g, g ≠ gate → s'.disables g = s.disables g)
    (hrun : ∀ g, g ≠ gate → soc.Has g → soc.running s'.reg g = soc.running s.reg g)
    (heq : s'.clk_cref gate = s'.balance gate) (hnonneg : 0 ≤ s'.clk_cref gate)
    (hlt : s'.clk_cref gate < 2 ^ 31) (hne : s'.enables gate ≠ 0)
    (hiff : soc.running s'.reg gate = true ↔ 0 < s'.balance gate) : Inv soc reg s' := by
  have hbal : ∀ g, g ≠ gate → s'.balance g = s.balance g := by
    intro g hg
    unfold State.balance
    rw [hen g hg, hdis g hg]
  have hcounted := hinv.counted
  constructor
  case counted =>
    constructor
    · intro g
      by_cases hg : g = gate
      · rw [hg, heq]
      · rw [hcref g hg, hbal g hg, hcounted.clk_cref_eq g]
    · intro g
      by_cases hg : g = gate
      · rw [hg]; exact hnonneg
      · rw [hcref g hg]; exact hcounted.clk_cref_nonneg g
    · intro g hhas
      by_cases hg : g = gate
      · rw [hg, if_neg hne]; exact hiff
      · rw [hrun g hg hhas, hen g hg, hbal g hg]; exact hcounted.running_iff g hhas
  case clk_cref_lt =>
    intro g
    by_cases hg : g = gate
    · rw [hg]; exact hlt
    · rw [hcref g hg]; exact hinv.clk_cref_lt g
  case absent =>
    intro g hnot
    have hg : g ≠ gate := fun h => hnot (h ▸ hgate)
    rw [hen g hg]
    exact hinv.absent g hnot

/-! ### Runs -/

@[simp] theorem bump_self (count : Gate → Nat) (gate : Gate) :
    bump count gate gate = count gate + 1 := Function.update_self ..

theorem bump_of_ne {count : Gate → Nat} {gate g : Gate} (h : g ≠ gate) :
    bump count gate g = count g := Function.update_of_ne h _ _

/-- An enable keeps the counters right, unless one overflows. -/
theorem counted_enable {soc : Soc} {reg : Nat → BitVec 32} {s s' : State} {gate : Gate}
    (hinv : Inv soc reg s) (hlt : soc.Has gate → s.balance gate < 2 ^ 31 - 1)
    (hstep : step soc s (.enable gate) = some s') : Inv soc reg s' := by
  simp only [step, hc_clk_enable_eq] at hstep
  by_cases hgate : soc.Has gate
  · simp only [if_pos hgate, Option.some.injEq] at hstep
    subst hstep
    have hcref := hinv.counted.clk_cref_eq gate
    have hnonneg := hinv.counted.clk_cref_nonneg gate
    have hlt := hlt hgate
    -- the counter is in range, so counting does not wrap around
    have hinc : int32 (s.clk_cref gate + 1) = s.clk_cref gate + 1 :=
      int32_of_range (by omega) (by omega)
    have hself : ((soc.start s gate).inc gate).clk_cref gate = s.clk_cref gate + 1 := by
      simp [State.inc, Soc.start, State.run, hinc]
    have hrun := fun g (hg : soc.Has g) => running_start soc s hgate hg
    apply hinv.update hgate
    · exact fun g hg => Function.update_of_ne hg _ _
    · exact fun g hg => bump_of_ne hg
    · exact fun g hg => rfl
    · intro g hg hhas
      simpa [hg] using hrun g hhas
    · show ((soc.start s gate).inc gate).clk_cref gate = _
      rw [hself, hcref]
      simp [State.balance, State.inc, Soc.start, State.run]
      omega
    · show 0 ≤ ((soc.start s gate).inc gate).clk_cref gate
      omega
    · show ((soc.start s gate).inc gate).clk_cref gate < _
      omega
    · simp
    · have hon : soc.running ((soc.start s gate).inc gate).reg gate = true := by
        simpa using hrun gate hgate
      rw [iff_true_left hon]
      unfold State.balance at hcref
      simp [State.balance, State.inc, Soc.start, State.run]
      omega
  · simp only [if_neg hgate, Option.some.injEq] at hstep
    exact hstep ▸ hinv

/-- A disable keeps the counters right, unless it ends the last enable on the HC15XX. -/
theorem counted_disable {soc : Soc} {reg : Nat → BitVec 32} {s s' : State} {gate : Gate}
    (hinv : Inv soc reg s) (hlast : soc = .HC15XX → s.balance gate ≠ 1)
    (hstep : step soc s (.disable gate) = some s') : Inv soc reg s' := by
  have hcref := hinv.counted.clk_cref_eq gate
  have hnonneg := hinv.counted.clk_cref_nonneg gate
  have hlt := hinv.clk_cref_lt gate
  simp only [step, hc_clk_disable_eq, Option.some.injEq] at hstep
  by_cases hpos : 0 < s.balance gate
  · have hgate := hinv.has hpos
    -- the counter is the number of enables left, so an enabled gate is counted
    have hne : s.clk_cref gate ≠ 0 := by omega
    have hdis : s.disables gate < s.enables gate := by
      unfold State.balance at hpos
      omega
    have hdec : int32 (s.clk_cref gate - 1) = s.clk_cref gate - 1 :=
      int32_of_range (by omega) (by omega)
    have hself : (s.dec gate).clk_cref gate = s.clk_cref gate - 1 := by
      simp [State.dec, hdec]
    have hon : soc.running s.reg gate = true := by
      have hiff := hinv.counted.running_iff gate hgate
      rw [if_neg (by omega)] at hiff
      exact hiff.mpr hpos
    rw [if_pos ⟨hgate, hne⟩, if_pos hdis, hself] at hstep
    by_cases hone : s.clk_cref gate - 1 ≠ 0
    · -- other enables are left
      rw [if_pos hone] at hstep
      subst hstep
      apply hinv.update hgate
      · exact fun g hg => Function.update_of_ne hg _ _
      · exact fun g hg => rfl
      · exact fun g hg => bump_of_ne hg
      · exact fun g hg hhas => rfl
      · show (s.dec gate).clk_cref gate = _
        rw [hself, hcref]
        simp [State.balance, State.dec]
        omega
      · show 0 ≤ (s.dec gate).clk_cref gate
        omega
      · show (s.dec gate).clk_cref gate < _
        omega
      · show s.enables gate ≠ 0
        omega
      · rw [iff_true_left (by exact hon)]
        unfold State.balance at hcref
        simp [State.balance, State.dec]
        omega
    · -- the last one is gone
      have hone : s.clk_cref gate = 1 := by omega
      -- on the HC15XX the last disable is the one that counts twice
      have hsoc : soc = .HC16XX := by
        cases soc with
        | HC15XX => exact absurd (hcref ▸ hone) (hlast rfl)
        | HC16XX => rfl
      rw [if_neg (by omega), hsoc] at hstep
      simp only [Soc.finish] at hstep
      rw [← hsoc] at hstep
      subst hstep
      have hrun := fun g (hg : soc.Has g) => running_halt soc (s.dec gate) hgate hg
      have hbal : s.enables gate = s.disables gate + 1 := by
        unfold State.balance at hcref
        omega
      apply hinv.update hgate
      · exact fun g hg => Function.update_of_ne hg _ _
      · exact fun g hg => rfl
      · exact fun g hg => bump_of_ne hg
      · intro g hg hhas
        simpa [hg] using hrun g hhas
      · show (s.dec gate).clk_cref gate = _
        simp [State.balance, State.dec, Soc.halt, State.stop]
        omega
      · show 0 ≤ (s.dec gate).clk_cref gate
        omega
      · show (s.dec gate).clk_cref gate < _
        omega
      · show s.enables gate ≠ 0
        omega
      · have hoff : soc.running (soc.halt (s.dec gate) gate).reg gate = false := by
          simpa using hrun gate hgate
        have hzero : ¬ 0 < (s.enables gate : Int) - (bump s.disables gate gate : Nat) := by
          simp only [bump_self]
          omega
        exact iff_of_false (by simp [hoff]) hzero
  · have hzero : s.clk_cref gate = 0 := by omega
    have hdis : ¬ s.disables gate < s.enables gate := by
      unfold State.balance at hpos
      omega
    rw [if_neg (by simp [hzero]), if_neg hdis] at hstep
    exact hstep ▸ hinv

theorem inv_step (soc : Soc) (reg : Nat → BitVec 32) (s : State) (a : Action) (s' : State)
    (hinv : Inv soc reg s) (hkeeps : KeepsCount soc s a) (hstep : step soc s a = some s') :
    Inv soc reg s' := by
  cases a with
  | enable gate => exact counted_enable hinv hkeeps hstep
  | disable gate => exact counted_disable hinv hkeeps hstep

/-- The counter is negative after a call that breaks the condition. -/
theorem not_counted_of_not_keeps (soc : Soc) (reg : Nat → BitVec 32) (s : State) (a : Action)
    (hinv : Inv soc reg s) (hkeeps : ¬ KeepsCount soc s a) :
    ∃ s', step soc s a = some s' ∧ ¬ Counted soc reg s' := by
  cases a with
  | enable gate =>
    simp only [KeepsCount, not_forall] at hkeeps
    obtain ⟨hgate, hbal⟩ := hkeeps
    refine ⟨_, rfl, fun hcounted => ?_⟩
    have hnonneg := hcounted.clk_cref_nonneg gate
    have hcref := hinv.counted.clk_cref_eq gate
    have hlt := hinv.clk_cref_lt gate
    -- one more than the largest int is negative
    have hmax : s.clk_cref gate = 2 ^ 31 - 1 := by omega
    simp [hc_clk_enable_eq, hgate, State.inc, Soc.start, State.run, hmax, int32] at hnonneg
  | disable gate =>
    simp only [KeepsCount, not_forall, not_not] at hkeeps
    obtain ⟨rfl, hbal⟩ := hkeeps
    refine ⟨_, rfl, fun hcounted => ?_⟩
    have hnonneg := hcounted.clk_cref_nonneg gate
    -- the routine counts back to 0, stops the clock and counts back once more
    have hgate : Soc.HC15XX.Has gate := hinv.has (by omega)
    have hone : s.clk_cref gate = 1 := by
      have := hinv.counted.clk_cref_eq gate
      omega
    simp [hc_clk_disable_eq, hgate, State.dec, Soc.finish, Soc.halt, State.stop, hone, int32]
      at hnonneg

/-- On both SoCs and from any setting of the registers, the counters are right after every call
    exactly if no call on the HC15XX disables a gate that is enabled once, and none overflows a
    counter. -/
theorem always_counted_iff (soc : Soc) (reg : Nat → BitVec 32) (tr : List Action) :
    Always (step soc) (Counted soc reg) (init reg) tr ↔
      Meets (step soc) (KeepsCount soc) (init reg) tr :=
  always_iff_meets (step soc) (fun _ hinv => hinv.counted) (inv_step soc reg)
    (not_counted_of_not_keeps soc reg) (inv_init soc reg)

/-- A clock is enabled and disabled again. -/
theorem counted_fails : ¬ ∀ (soc : Soc) (reg : Nat → BitVec 32) (tr : List Action),
    Always (step soc) (Counted soc reg) (init reg) tr := by
  intro h
  have hcounted := ((h .HC15XX (fun _ => BitVec.allOnes 32)
    [.enable .UART1_CLK, .disable .UART1_CLK]).2 _ rfl).2 _ rfl
  have hnonneg := Counted.clk_cref_nonneg hcounted .UART1_CLK
  revert hnonneg
  decide

end Hcrtos.Native.ClkGate
