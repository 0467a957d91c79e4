import Hcrtos.ForStd.Loop
import Mathlib.Algebra.Ring.Int.Defs

/-!
# The sound core

`snd_hw_params` and `snd_hw_free` of `snd_core.c` go through the DAIs of a platform, then through
those of its card. The drivers are given by what their callbacks return, and a component is
selected, or configured, from the callback that says so with a zero until the one that takes it
back.
-/

namespace Hcrtos.Native.SndCore

open ErrorLoop

/-- `struct snd_pcm_params`, as far as the core reads it; the rest is for the platform. -/
structure Params where
  rate : UInt32
  format : Int32
  channels : UInt32
  align : UInt8
  pcm_source : Int32

/-- The requests that the core makes of a DAI. -/
inductive Request where
  | SRC_SEL (source : Int32)
  | SRC_SEL_CLEAR

/-- `SND_TRIGGER_*`. -/
inductive Trigger where
  | START
  | STOP

/-- `struct snd_soc_dai` with its driver. -/
structure Dai where
  hw_params : Option (UInt32 → Int32 → UInt32 → UInt8 → Int)
  hw_free : Int
  trigger : Trigger → Int
  ioctl : Option (Request → Int)
  selected : Bool
  configured : Bool

/-- `struct snd_soc_card`. -/
structure Card where
  dais : List Dai

/-- `struct snd_soc_platform` with its driver. -/
structure Platform where
  dais : List Dai
  card : Card
  hw_params : Params → Int
  hw_free : Int
  trigger : Trigger → Int
  configured : Bool

def EFAULT : Int := 14
def EINVAL : Int := 22

/-! ### `snd_hw_params` -/

/-- The callback, and what it makes of the DAI. -/
def Dai.configure (d : Dai) (hw_params : UInt32 → Int32 → UInt32 → UInt8 → Int) (p : Params) :
    Dai × Int :=
  let ret := hw_params p.rate p.format p.channels p.align
  (if ret = 0 then { d with configured := true } else d, ret)

/-- `ioctl(dai, SND_IOCTL_SRC_SEL, &params->pcm_source)`. -/
def Dai.src_sel (d : Dai) (ioctl : Request → Int) (p : Params) : Dai × Int :=
  let ret := ioctl (.SRC_SEL p.pcm_source)
  (if ret = 0 then { d with selected := true } else d, ret)

/-- `ioctl(dai, SND_IOCTL_SRC_SEL_CLEAR, NULL)`, whose result is not looked at. -/
def Dai.src_sel_clear (d : Dai) (ioctl : Request → Int) : Dai :=
  if ioctl .SRC_SEL_CLEAR = 0 then { d with selected := false } else d

/-- The loop over the DAIs of the platform. -/
def cpuParams (p : Params) (d : Dai) : Dai × Option Int :=
  match d.hw_params with
  | none => (d, none)
  | some hw_params =>
    match d.ioctl with
    | none => ((d.configure hw_params p).1, some (d.configure hw_params p).2)
    | some ioctl =>
      let (d, ret) := d.src_sel ioctl p
      if ret ≠ 0 then (d, some ret)
      else
        let (d, ret) := d.configure hw_params p
        if ret ≠ 0 then (d.src_sel_clear ioctl, some ret) else (d, some ret)

/-- The loop over the DAIs of the card. -/
def codecParams (p : Params) (d : Dai) : Dai × Option Int :=
  match d.hw_params with
  | none => (d, none)
  | some hw_params => ((d.configure hw_params p).1, some (d.configure hw_params p).2)

/-- `snd_hw_params`. -/
def Platform.snd_hw_params (pl : Platform) : Option Params → Platform × Int
  | none => (pl, -EINVAL)
  | some p =>
    let (dais, result) := forEach (cpuParams p) (-EFAULT) pl.dais
    let pl := { pl with dais := dais }
    match result with
    | .error ret => (pl, ret)
    | .ok ret =>
      let (dais, result) := forEach (codecParams p) ret pl.card.dais
      let pl := { pl with card := ⟨dais⟩ }
      match result with
      | .error ret => (pl, ret)
      | .ok _ =>
        let ret := pl.hw_params p
        (if ret = 0 then { pl with configured := true } else pl, ret)

/-! ### `snd_hw_free` -/

/-- Both loops of `snd_hw_free`. -/
def daiFree (d : Dai) : Dai × Option Int :=
  let ret := d.trigger .STOP
  if ret ≠ 0 then (d, some ret)
  else
    let ret := d.hw_free
    (if ret = 0 then { d with configured := false } else d, some ret)

/-- `snd_hw_free`, but for the muting, whose result is not looked at. -/
def Platform.snd_hw_free (pl : Platform) : Platform × Int :=
  let ret := pl.trigger .STOP
  if ret ≠ 0 then (pl, ret)
  else
    let ret := pl.hw_free
    let pl := if ret = 0 then { pl with configured := false } else pl
    let (dais, result) := forEach daiFree ret pl.dais
    let pl := { pl with dais := dais }
    match result with
    | .error ret => (pl, ret)
    | .ok ret =>
      let (dais, result) := forEach daiFree ret pl.card.dais
      let pl := { pl with card := ⟨dais⟩ }
      match result with
      | .error ret => (pl, ret)
      | .ok ret => (pl, ret)

end Hcrtos.Native.SndCore
