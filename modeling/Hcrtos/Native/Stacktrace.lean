import Mathlib.Logic.Function.Basic
import Hcrtos.ForStd.Loop

/-!
# The stack trace

`mips_stacktrace.c`: `stacktrace_subr` looks for the return addresses on a stack of which it knows
the program counter and the stack pointer only. For a frame it searches the beginning of the
subroutine backwards, for the instructions that make the frame, and reads the size of the frame
and the place of the return address off the instructions from there up to the program counter.

The memory is given by the words at the multiples of four. The entries of the caller are a part of
it. The lines that are printed are left out.
-/

namespace Hcrtos.Native.Stacktrace

open Loop

/-! ### Instructions -/

def MIPS_ERET : UInt32 := 0x42000018

/-- The values of the field `op`. -/
def OP_SPECIAL : UInt32 := 0o00
def OP_REGIMM : UInt32 := 0o01
def OP_J : UInt32 := 0o02
def OP_JAL : UInt32 := 0o03
def OP_BEQ : UInt32 := 0o04
def OP_BNE : UInt32 := 0o05
def OP_BLEZ : UInt32 := 0o06
def OP_BGTZ : UInt32 := 0o07
def OP_ADDI : UInt32 := 0o10
def OP_ADDIU : UInt32 := 0o11
def OP_COP0 : UInt32 := 0o20
def OP_COP1 : UInt32 := 0o21
def OP_COP2 : UInt32 := 0o22
def OP_COP3 : UInt32 := 0o23
def OP_DADDI : UInt32 := 0o30
def OP_DADDIU : UInt32 := 0o31
def OP_SW : UInt32 := 0o53
def OP_SD : UInt32 := 0o77

/-- The values of the field `func`. -/
def OP_JR : UInt32 := 0o10
def OP_JALR : UInt32 := 0o11
def OP_SYSCALL : UInt32 := 0o14
def OP_BREAK : UInt32 := 0o15
def OP_ADD : UInt32 := 0o40
def OP_ADDU : UInt32 := 0o41
def OP_DADD : UInt32 := 0o54
def OP_DADDU : UInt32 := 0o55

/-- The values of the field `rs` for a coprocessor. -/
def OP_BCx : UInt32 := 0o10
def OP_BCy : UInt32 := 0o14

/-- The registers. -/
def _R_ZERO : UInt32 := 0
def _R_A0 : UInt32 := 4
def _R_A1 : UInt32 := 5
def _R_A2 : UInt32 := 6
def _R_A3 : UInt32 := 7
def _R_S0 : UInt32 := 16
def _R_S1 : UInt32 := 17
def _R_S2 : UInt32 := 18
def _R_S3 : UInt32 := 19
def _R_S4 : UInt32 := 20
def _R_S5 : UInt32 := 21
def _R_S6 : UInt32 := 22
def _R_S7 : UInt32 := 23
def _R_SP : UInt32 := 29
def _R_S8 : UInt32 := 30
def _R_RA : UInt32 := 31

/-- The fields of an `InstFmt`. -/
def op (word : UInt32) : UInt32 := word >>> 26
def rs (word : UInt32) : UInt32 := word >>> 21 &&& 31
def rt (word : UInt32) : UInt32 := word >>> 16 &&& 31
def rd (word : UInt32) : UInt32 := word >>> 11 &&& 31
def func (word : UInt32) : UInt32 := word &&& 63
def imm (word : UInt32) : Int16 := word.toUInt16.toInt16

/-- What the build decides: the bounds of the program text, and whether `__mips_o32` is defined. -/
structure Build where
  text_start : UInt32
  text_end : UInt32
  mips_o32 : Bool

/-- An immediate addition, of the operations the build knows. -/
def isAddImm (build : Build) (instr : UInt32) : Bool :=
  op instr = OP_ADDI || op instr = OP_ADDIU ||
    !build.mips_o32 && (op instr = OP_DADDI || op instr = OP_DADDIU)

def is_sp_move_ins (build : Build) (instr : UInt32) : Bool :=
  if isAddImm build instr then
    if rs instr ≠ _R_SP ∨ rt instr ≠ _R_SP then false
    else if imm instr > 0 then false
    else true
  else false

def is_ra_save_ins (instr : UInt32) : Bool :=
  if op instr = OP_SW ∨ op instr = OP_SD then rs instr = _R_SP ∧ rt instr = _R_RA
  else false

/-! ### The memory -/

/-- The word at each multiple of four. -/
abbrev Memory := UInt32 → UInt32

def kdbpeek (mem : Memory) (addr : UInt32) : Option UInt32 :=
  if addr &&& 3 ≠ 0 then none
  else if addr = 0 then none
  else some (mem addr)

def kdbrpeek (mem : Memory) (addr n : UInt32) : UInt32 :=
  if addr &&& (n - 1) ≠ 0 then -1
  else if addr = 0 then 0xdeadfeed
  else mem addr

/-! ### The frame of a subroutine -/

structure Backward where
  va : UInt32
  spmove : Bool
  rasave : Bool

/-- The body of the loop that searches backwards. It ends with `none` where the function returns,
    and goes on until the frame is made. -/
def backward (build : Build) (mem : Memory) (s : Backward) : Option UInt32 ⊕ Backward :=
  let va := s.va - 4
  if va ≤ build.text_start then .inl none
  else
    match kdbpeek mem va with
    | none => .inl none
    | some instr =>
      if instr = MIPS_ERET then .inl (some va)
      else
        let spmove := s.spmove || is_sp_move_ins build instr
        let rasave := s.rasave || is_ra_save_ins instr
        if !spmove || !rasave then .inr ⟨va, spmove, rasave⟩ else .inl (some va)

/-- The body of the loop that skips the nulls which might separate object files. -/
def skipNull (mem : Memory) (va : UInt32) : Option UInt32 ⊕ UInt32 :=
  match kdbpeek mem va with
  | none => .inl none
  | some instr => if instr = 0 then .inr (va + 4) else .inl (some va)

/-- What the scan has found: `more` counts the instructions that are left to look at, 3 for no
    end in sight, and `mask` has the bits of the registers whose value is known. -/
structure Found where
  more : Nat
  mask : UInt32
  regs : UInt32 → UInt32
  stksize : Int32
  foundframesize : Bool

def bit (r : UInt32) : UInt32 := 1 <<< r

/-- The registers that are looked for on the stack. -/
def savedRegs : List UInt32 :=
  [_R_A0, _R_A1, _R_A2, _R_A3, _R_S0, _R_S1, _R_S2, _R_S3, _R_S4, _R_S5, _R_S6, _R_S7, _R_S8,
    _R_RA]

/-- The case distinction on an instruction in the scan. -/
def decode (build : Build) (mem : Memory) (sp i : UInt32) (f : Found) : Found :=
  if op i = OP_SPECIAL then
    if func i = OP_JR ∨ func i = OP_JALR then { f with more := 2 }
    else if func i ∈ [OP_ADD, OP_ADDU, OP_DADD, OP_DADDU] then
      -- a move: the value of one register is also that of the other
      if f.mask &&& bit (rd i) = 0 ∨ f.mask &&& bit (rt i) = 0 then f
      else if rd i ≠ _R_ZERO then f
      -- the sign extension that follows changes nothing in a register of 32 bits
      else { f with
        mask := f.mask ||| bit (rs i)
        regs := Function.update f.regs (rs i) (f.regs (rt i)) }
    else if func i = OP_SYSCALL ∨ func i = OP_BREAK then { f with more := 1 }
    else f
  else if op i ∈ [OP_REGIMM, OP_J, OP_JAL, OP_BEQ, OP_BNE, OP_BLEZ, OP_BGTZ] then
    { f with more := 2 }
  else if op i ∈ [OP_COP0, OP_COP1, OP_COP2, OP_COP3] then
    if rs i = OP_BCx ∨ rs i = OP_BCy then { f with more := 2 } else f
  else if op i = OP_SW ∨ op i = OP_SD then
    let size := if op i = OP_SW then 4 else 8
    if rs i ≠ _R_SP then f
    -- a register that is saved: its value is on the stack
    else if rt i ∈ savedRegs then { f with
      regs := Function.update f.regs (rt i) (kdbrpeek mem (sp + (imm i).toInt32.toUInt32) size)
      mask := f.mask ||| bit (rt i) }
    else f
  else if isAddImm build i then
    if rs i ≠ _R_SP ∨ rt i ≠ _R_SP then f
    -- only the first adjustment is the frame, the later ones take it back
    else if f.foundframesize then f
    else { f with stksize := -(imm i).toInt32, foundframesize := true }
  else f

structure Forward where
  va : UInt32
  found : Found

/-- The body of the loop that scans up to the program counter. -/
def forward (build : Build) (mem : Memory) (pc sp : UInt32) (s : Forward) :
    Option Found ⊕ Forward :=
  if s.found.more = 0 then .inl (some s.found)
  else if s.va ≥ pc then .inl (some s.found)
  else
    match kdbpeek mem s.va with
    | none => .inl none
    | some instr =>
      let f := decode build mem sp instr s.found
      .inr ⟨s.va + 4, { f with more := if f.more = 3 then 3 else f.more - 1 }⟩

/-! ### The frames -/

/-- The variables of `stacktrace_subr` that live from one frame to the next. -/
structure Trace where
  mem : Memory
  pc : UInt32
  sp : UInt32
  ra : UInt32
  regs : UInt32 → UInt32
  frames : Nat
  index : Nat
  /-- `save_ra[0]` to `save_ra[cnt - 1]`. -/
  saved : List UInt32

/-- The arguments for the caller's entries. -/
structure Entries where
  save_ra : UInt32
  ra_cnt : Int
  omit_cnt : Int

/-- The address of an entry. -/
def Entries.entry (e : Entries) (k : Nat) : UInt32 := e.save_ra + 4 * UInt32.ofNat k

/-- `save_ra[cnt++] = ra`. -/
def Trace.save (e : Entries) (s : Trace) (ra : UInt32) : Trace :=
  { s with
    mem := Function.update s.mem (e.entry s.saved.length) ra
    saved := s.saved ++ [ra] }

/-- After an entry is stored, or skipped: to the frame of the caller, if there is one. -/
def nextFrame (stksize : Int32) (ra : UInt32) (s : Trace) : Trace ⊕ Trace :=
  let s := { s with index := s.index + 1 }
  if ra ≠ 0 then
    if s.pc = ra ∧ stksize = 0 then .inl s
    else .inr { s with pc := ra, sp := s.sp + stksize.toUInt32, ra := 0 }
  else .inl s

/-- From the label `done`. -/
def done (build : Build) (e : Entries) (f : Found) (s : Trace) : Trace ⊕ Trace :=
  let ra := if f.mask &&& bit _R_RA ≠ 0 then f.regs _R_RA else s.ra
  let s := { s with regs := f.regs }
  if ra ≤ build.text_start ∨ ra ≥ build.text_end then .inl s
  else if s.index ≥ e.omit_cnt then
    if s.saved.length < e.ra_cnt then nextFrame f.stksize ra (s.save e ra)
    -- the entries are used up; without entries the trace is only printed
    else if e.ra_cnt > 0 then .inl s
    else nextFrame f.stksize ra s
  else nextFrame f.stksize ra s

/-- The scans for a frame: `none` when they run out of fuel, `some none` where the function
    returns. -/
def scans (build : Build) (fuel : Nat) (s : Trace) : Option (Option Found) := do
  let some va ← loop (backward build s.mem) fuel ⟨s.pc, false, false⟩ | return none
  let some subr ← loop (skipNull s.mem) fuel va | return none
  loop (forward build s.mem s.pc s.sp) fuel ⟨subr, {
    more := 3, mask := 1 &&& 0x40ff0001, regs := s.regs, stksize := 0, foundframesize := false }⟩

/-- From the label `loop`: the last frame ends with the variables as they are at the return, or
    `none` when a scan runs out of fuel. -/
def frame (build : Build) (e : Entries) (fuel : Nat) (s : Trace) : Option Trace ⊕ Trace :=
  let nothing : Found :=
    { more := 0, mask := 1, regs := s.regs, stksize := 0, foundframesize := false }
  if s.frames > 100 then .inl (some { s with frames := s.frames + 1 })
  else
    let s := { s with frames := s.frames + 1 }
    if s.sp &&& 3 ≠ 0 ∨ s.sp.toInt32 ≥ 0 then
      (done build e nothing { s with ra := 0 }).map some id
    else if s.pc &&& 3 ≠ 0 ∨ s.pc.toInt32 ≥ 0 ∨ s.pc.toInt32 ≥ build.text_end.toInt32 then
      (done build e nothing { s with ra := 0 }).map some id
    else
      match scans build fuel s with
      | none => .inl none
      | some none => .inl (some s)
      | some (some f) => (done build e f s).map some id

/-- The arguments `a0` to `a3` and `ra` in their registers. -/
def initialRegs (a0 a1 a2 a3 ra : UInt32) : UInt32 → UInt32 := fun r =>
  if r = _R_A0 then a0
  else if r = _R_A1 then a1
  else if r = _R_A2 then a2
  else if r = _R_A3 then a3
  else if r = _R_RA then ra
  else 0

def stacktrace_subr (build : Build) (fuel : Nat) (mem : Memory) (a0 a1 a2 a3 pc sp ra : UInt32)
    (e : Entries) : Option Trace :=
  (loop (frame build e fuel) fuel {
    mem, pc, sp, ra, regs := initialRegs a0 a1 a2 a3 ra, frames := 0, index := 0,
    saved := [] }).join

end Hcrtos.Native.Stacktrace
