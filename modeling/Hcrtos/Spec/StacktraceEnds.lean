import Hcrtos.ForStd.Bits
import Hcrtos.Native.Stacktrace

/-!
# The stack trace ends

The search backwards stops at the beginning of the text at the latest, the skip over the nulls at
the end of the address space, and the scan at the program counter. The frames are counted. What is
stored has passed the test for the program text, and a test against the number of entries.

## Key results

- `backward_ends`, `skipNull_ends`, `forward_ends`: the scans for a frame
- `Safe.done`, `Safe.frame`: what a frame stores
- `stacktrace_subr_ends`: the whole trace
-/

namespace Hcrtos.Native.Stacktrace

open Loop

/-! ### The scans -/

/-- What is read is a word, and not the one at zero. -/
theorem kdbpeek_some {mem : Memory} {addr word : UInt32} (h : kdbpeek mem addr = some word) :
    addr.toNat % 4 = 0 ∧ 0 < addr.toNat := by
  unfold kdbpeek at h
  split at h
  · cases h
  · rename_i haligned
    split at h
    · cases h
    · rename_i hzero
      exact ⟨(Bits.and_mask_eq_zero_iff (k := 2) rfl).mp (Decidable.of_not_not haligned),
        Nat.pos_of_ne_zero fun h0 => hzero (UInt32.toNat_inj.mp h0)⟩

section Scans

variable (build : Build) (mem : Memory) {fuel : Nat}

/-- The search goes on a word before, which it has read. -/
theorem backward_next {s s' : Backward} (h : backward build mem s = .inr s') :
    s'.va = s.va - 4 ∧ s'.va.toNat % 4 = 0 ∧ 0 < s'.va.toNat := by
  unfold backward at h
  dsimp only at h
  split at h
  · cases h
  · cases hpeek : kdbpeek mem (s.va - 4) with
    | none =>
      rw [hpeek] at h
      cases h
    | some instr =>
      rw [hpeek] at h
      dsimp only at h
      split at h
      · cases h
      · split at h
        · cases h
          exact ⟨rfl, kdbpeek_some hpeek⟩
        · cases h

/-- The address goes down to the beginning of the text. -/
theorem backward_ends {pc : UInt32} (spmove rasave : Bool) (haligned : pc.toNat % 4 = 0)
    (hpos : 0 < pc.toNat) (hfuel : 2 ^ 32 ≤ fuel) :
    ∃ r, loop (backward build mem) fuel ⟨pc, spmove, rasave⟩ = some r ∧ True := by
  refine loop_spec (I := fun s => s.va.toNat % 4 = 0 ∧ 0 < s.va.toNat) (fun s => s.va.toNat)
    (fun _ _ _ _ => trivial) ?_ ⟨haligned, hpos⟩ (Nat.lt_of_lt_of_le pc.toNat_lt hfuel)
  intro s s' ⟨hmod, hva⟩ hstep
  obtain ⟨hnext, hword⟩ := backward_next build mem hstep
  -- a word that is not the one at zero has one before it
  have hsub : (s.va - 4).toNat = s.va.toNat - 4 :=
    UInt32.toNat_sub_of_le _ _ (UInt32.le_iff_toNat_le.mpr (by
      show 4 ≤ _
      omega))
  refine ⟨hword, ?_⟩
  rw [hnext, hsub]
  omega

/-- The skip goes on a word behind one that it has read. -/
theorem skipNull_next {va va' : UInt32} (h : skipNull mem va = .inr va') :
    va' = va + 4 ∧ va.toNat % 4 = 0 ∧ 0 < va.toNat := by
  unfold skipNull at h
  cases hpeek : kdbpeek mem va with
  | none =>
    rw [hpeek] at h
    cases h
  | some instr =>
    rw [hpeek] at h
    dsimp only at h
    split at h
    · cases h
      exact ⟨rfl, kdbpeek_some hpeek⟩
    · cases h

/-- The address goes up to the end of the address space, where it becomes zero. -/
theorem skipNull_ends (va : UInt32) (hfuel : 2 ^ 32 ≤ fuel) :
    ∃ r, loop (skipNull mem) fuel va = some r ∧ True := by
  refine loop_spec (I := fun _ => True) (fun va => (2 ^ 32 - va.toNat) % 2 ^ 32)
    (fun _ _ _ _ => trivial) ?_ trivial
    (Nat.lt_of_lt_of_le (Nat.mod_lt _ (Nat.two_pow_pos 32)) hfuel)
  intro va va' _ hstep
  obtain ⟨rfl, hword⟩ := skipNull_next mem hstep
  have hlt := va.toNat_lt
  have hadd : (va + 4).toNat = (va.toNat + 4) % 2 ^ 32 := UInt32.toNat_add _ _
  refine ⟨trivial, ?_⟩
  rw [hadd]
  omega

/-- The scan goes on a word behind one before the program counter. -/
theorem forward_next {pc sp : UInt32} {s s' : Forward}
    (h : forward build mem pc sp s = .inr s') :
    s'.va = s.va + 4 ∧ s.va.toNat % 4 = 0 ∧ s.va.toNat < pc.toNat := by
  unfold forward at h
  split at h
  · cases h
  · split at h
    · cases h
    · rename_i hpc
      cases hpeek : kdbpeek mem s.va with
      | none =>
        rw [hpeek] at h
        cases h
      | some instr =>
        rw [hpeek] at h
        cases h
        exact ⟨rfl, (kdbpeek_some hpeek).1, UInt32.lt_iff_toNat_lt.mp (UInt32.not_le.mp hpc)⟩

/-- The address goes up to the program counter. -/
theorem forward_ends {pc : UInt32} (sp : UInt32) (s : Forward) (haligned : pc.toNat % 4 = 0)
    (hfuel : 2 ^ 32 ≤ fuel) : ∃ r, loop (forward build mem pc sp) fuel s = some r ∧ True := by
  refine loop_spec (I := fun _ => True) (fun s => pc.toNat - s.va.toNat)
    (fun _ _ _ _ => trivial) ?_ trivial
    (Nat.lt_of_le_of_lt (Nat.sub_le _ _) (Nat.lt_of_lt_of_le pc.toNat_lt hfuel))
  intro s s' _ hstep
  obtain ⟨hnext, hmod, hva⟩ := forward_next build mem hstep
  have hlt := pc.toNat_lt
  -- both are words, so the next address is not beyond the program counter and does not wrap
  have hadd : (s.va + 4).toNat = (s.va.toNat + 4) % 2 ^ 32 := UInt32.toNat_add _ _
  refine ⟨trivial, ?_⟩
  rw [hnext, hadd]
  omega

theorem scans_ends (s : Trace) (haligned : s.pc.toNat % 4 = 0) (hpos : 0 < s.pc.toNat)
    (hfuel : 2 ^ 32 ≤ fuel) : ∃ r, scans build fuel s = some r := by
  unfold scans
  obtain ⟨va, hva, -⟩ := backward_ends build s.mem false false haligned hpos hfuel
  rw [hva]
  cases va with
  | none => exact ⟨none, rfl⟩
  | some va =>
    -- a search that has found its end is followed by the other two
    obtain ⟨subr, hsubr, -⟩ := skipNull_ends s.mem va hfuel
    simp only [Option.bind_eq_bind, Option.bind_some, hsubr]
    cases subr with
    | none => exact ⟨none, rfl⟩
    | some subr =>
      obtain ⟨found, hfound, -⟩ := forward_ends build s.mem s.sp _ haligned hfuel
      exact ⟨found, hfound⟩

end Scans

/-! ### The entries -/

/-- An address in the program text. -/
def Inside (build : Build) (ra : UInt32) : Prop := build.text_start < ra ∧ ra < build.text_end

/-- At most the entries of the caller are written, each with an address in the text, and nothing
    else in the memory. -/
structure Safe (build : Build) (e : Entries) (mem : Memory) (s : Trace) : Prop where
  count : s.saved.length ≤ e.ra_cnt.toNat
  inside : ∀ ra ∈ s.saved, Inside build ra
  written : ∀ addr, s.mem addr = mem addr ∨
    ∃ k < s.saved.length, addr = e.entry k ∧ Inside build (s.mem addr)

section Entries

variable {build : Build} {e : Entries} {mem : Memory} {s : Trace}

theorem Safe.congr {t : Trace} (h : Safe build e mem s) (hmem : t.mem = s.mem)
    (hsaved : t.saved = s.saved) : Safe build e mem t := by
  constructor
  case count => exact hsaved ▸ h.count
  case inside => exact hsaved ▸ h.inside
  case written => exact hmem ▸ hsaved ▸ h.written

/-- An entry that is left takes an address in the text. -/
theorem Safe.save (h : Safe build e mem s) {ra : UInt32} (hra : Inside build ra)
    (hroom : (s.saved.length : Int) < e.ra_cnt) : Safe build e mem (s.save e ra) := by
  constructor
  case count =>
    show (s.saved ++ [ra]).length ≤ _
    rw [List.length_append, List.length_singleton]
    omega
  case inside =>
    intro r hr
    rcases List.mem_append.mp hr with hr | hr
    · exact h.inside r hr
    · exact List.mem_singleton.mp hr ▸ hra
  case written =>
    intro addr
    have hlen : (s.save e ra).saved.length = s.saved.length + 1 := List.length_append
    by_cases haddr : addr = e.entry s.saved.length
    · have hcell : (s.save e ra).mem addr = ra := by
        rw [haddr]
        exact Function.update_self _ _ _
      exact .inr ⟨s.saved.length, by omega, haddr, by rw [hcell]; exact hra⟩
    -- the other cells keep what they had
    · have hcell : (s.save e ra).mem addr = s.mem addr := Function.update_of_ne haddr _ _
      rw [hcell]
      obtain hsame | ⟨k, hk, hentry⟩ := h.written addr
      · exact .inl hsame
      · exact .inr ⟨k, by omega, hentry⟩

/-- The variables in the end of a frame. -/
abbrev after (r : Trace ⊕ Trace) : Trace := r.elim id id

theorem after_nextFrame (stksize : Int32) (ra : UInt32) (s : Trace) :
    (after (nextFrame stksize ra s)).mem = s.mem ∧
      (after (nextFrame stksize ra s)).saved = s.saved ∧
      (after (nextFrame stksize ra s)).frames = s.frames := by
  unfold nextFrame
  dsimp only
  split
  · split
    · exact ⟨rfl, rfl, rfl⟩
    · exact ⟨rfl, rfl, rfl⟩
  · exact ⟨rfl, rfl, rfl⟩

/-- What the label `done` makes of the entries. -/
theorem Safe.done (h : Safe build e mem s) (f : Found) :
    Safe build e mem (after (done build e f s)) ∧ (after (done build e f s)).frames = s.frames := by
  unfold Stacktrace.done
  generalize (if f.mask &&& bit _R_RA ≠ 0 then f.regs _R_RA else s.ra) = ra
  have hs : Safe build e mem { s with regs := f.regs } := h.congr rfl rfl
  have hnext : ∀ t : Trace, Safe build e mem t → t.frames = s.frames →
      Safe build e mem (after (nextFrame f.stksize ra t)) ∧
        (after (nextFrame f.stksize ra t)).frames = s.frames := by
    intro t ht hframes
    obtain ⟨hmem, hsaved, hsame⟩ := after_nextFrame f.stksize ra t
    exact ⟨ht.congr hmem hsaved, hsame.trans hframes⟩
  dsimp only
  split
  · exact ⟨hs, rfl⟩
  · rename_i htext
    have hra : Inside build ra :=
      ⟨UInt32.not_le.mp fun hle => htext (.inl hle), UInt32.not_le.mp fun hle => htext (.inr hle)⟩
    split
    · split
      · rename_i hroom
        exact hnext _ (hs.save hra hroom) rfl
      · split
        · exact ⟨hs, rfl⟩
        · exact hnext _ hs rfl
    · exact hnext _ hs rfl

/-- A frame that is done ends the trace, or goes on with one frame more. -/
theorem Safe.map_done (h : Safe build e mem s) (f : Found) :
    (∀ r, (Stacktrace.done build e f s).map some id = .inl r →
      ∃ t, r = some t ∧ Safe build e mem t) ∧
    ∀ t, (Stacktrace.done build e f s).map some id = .inr t →
      Safe build e mem t ∧ t.frames = s.frames := by
  have hdone := h.done f
  cases hcase : Stacktrace.done build e f s with
  | inl t =>
    rw [hcase] at hdone
    exact ⟨fun r hr => ⟨t, (Sum.inl.inj hr).symm, hdone.1⟩, nofun⟩
  | inr t =>
    rw [hcase] at hdone
    exact ⟨nofun, fun t' ht => Sum.inr.inj ht ▸ hdone⟩

/-- A frame keeps the invariant, and there are at most 101 of them. -/
theorem Safe.frame (h : Safe build e mem s) {fuel : Nat} (hfuel : 2 ^ 32 ≤ fuel) :
    (∀ r, frame build e fuel s = .inl r → ∃ t, r = some t ∧ Safe build e mem t) ∧
    ∀ t, frame build e fuel s = .inr t →
      Safe build e mem t ∧ 101 - t.frames < 101 - s.frames := by
  unfold Stacktrace.frame
  split
  · exact ⟨fun r hr => ⟨_, (Sum.inl.inj hr).symm, h.congr rfl rfl⟩, nofun⟩
  · rename_i hframes
    have hcount : ∀ {r : Option Trace ⊕ Trace},
        ((∀ o, r = .inl o → ∃ t, o = some t ∧ Safe build e mem t) ∧
          ∀ t, r = .inr t → Safe build e mem t ∧ t.frames = s.frames + 1) →
        (∀ o, r = .inl o → ∃ t, o = some t ∧ Safe build e mem t) ∧
          ∀ t, r = .inr t → Safe build e mem t ∧ 101 - t.frames < 101 - s.frames := by
      intro r ⟨hend, hgo⟩
      refine ⟨hend, fun t ht => ⟨(hgo t ht).1, ?_⟩⟩
      have := (hgo t ht).2
      omega
    dsimp only
    have hbad : Safe build e mem { s with frames := s.frames + 1, ra := 0 } := h.congr rfl rfl
    have hgood : Safe build e mem { s with frames := s.frames + 1 } := h.congr rfl rfl
    split
    -- a bad stack pointer or program counter is not scanned from, and has no return address
    · exact hcount (hbad.map_done _)
    · split
      · exact hcount (hbad.map_done _)
      · rename_i hpc
        obtain ⟨haligned, hneg⟩ := not_or.mp hpc
        have hmod : s.pc.toNat % 4 = 0 :=
          (Bits.and_mask_eq_zero_iff (k := 2) rfl).mp (Decidable.of_not_not haligned)
        have hpos : 0 < s.pc.toNat := by
          apply Nat.pos_of_ne_zero
          intro hzero
          exact hneg (.inl (by
            rw [show s.pc = 0 from UInt32.toNat_inj.mp hzero]
            decide))
        -- the program counter is a word of the kernel's half, so the scans end
        obtain ⟨r, hr⟩ := scans_ends build { s with frames := s.frames + 1 } hmod hpos hfuel
        rw [hr]
        cases r with
        | none => exact ⟨fun r hr => ⟨_, (Sum.inl.inj hr).symm, hgood⟩, nofun⟩
        | some f => exact hcount (hgood.map_done f)

end Entries

/-- The stack trace ends, whatever the memory, the program counter and the stack pointer are. It
    has then written at most the entries of the caller, each with an address in the text. -/
theorem stacktrace_subr_ends : ∃ fuel, ∀ (build : Build) (mem : Memory)
    (a0 a1 a2 a3 pc sp ra : UInt32) (e : Entries),
    ∃ t, stacktrace_subr build fuel mem a0 a1 a2 a3 pc sp ra e = some t ∧
      Safe build e mem t := by
  refine ⟨2 ^ 32, fun build mem a0 a1 a2 a3 pc sp ra e => ?_⟩
  let start : Trace := {
    mem, pc, sp, ra, regs := initialRegs a0 a1 a2 a3 ra, frames := 0, index := 0, saved := [] }
  have hstart : Safe build e mem start := ⟨Nat.zero_le _, nofun, fun _ => .inl rfl⟩
  have hend : ∃ r, loop (frame build e (2 ^ 32)) (2 ^ 32) start = some r ∧
      ∃ t, r = some t ∧ Safe build e mem t :=
    loop_spec (fun s => 101 - s.frames) (fun s r hs => (hs.frame (Nat.le_refl _)).1 r)
      (fun s t hs => (hs.frame (Nat.le_refl _)).2 t) hstart (by decide : 101 < 2 ^ 32)
  obtain ⟨r, hr, t, rfl, ht⟩ := hend
  refine ⟨t, ?_, ht⟩
  unfold stacktrace_subr
  rw [hr]
  rfl

end Hcrtos.Native.Stacktrace
