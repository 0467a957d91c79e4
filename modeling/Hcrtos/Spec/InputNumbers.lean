import Hcrtos.Native.Input
import Mathlib.Data.List.Pairwise

/-!
# The numbers of input devices are kept apart

A mouse or keyboard gives its number back, and a registration takes a free one as long as there is
one. `input_unregister_device` gives back all numbers but the one of its device.

## Key results

- `ffs_spec`: the number that is taken is the lowest free one
- `inv_register`, `inv_unregister`: what one call preserves
- `numbered_iff`: the runs along which the numbers are kept apart
- `numbered_fails`: a run along which they are not
-/

namespace Hcrtos.Native.Input

open CString Lts

/-- The registered devices of a kind have different numbers, which are not negative, all paths are
    different, and the numbers that are not free are those of registered devices. -/
structure Numbered (s : State) : Prop where
  nonneg : ∀ d ∈ s.devs, 0 ≤ d.id
  ids : s.devs.Pairwise fun d e => d.kind = e.kind → d.id ≠ e.id
  paths : s.devs.Pairwise fun d e => d.path ≠ e.path
  reserved : ∀ kind (i : Nat), i < 32 →
    ((s.id_bitmap kind).getLsbD i = false ↔ ∃ d ∈ s.devs, d.kind = kind ∧ d.id = i)

/-- The calls that keep the numbers apart: registrations of a new device while a number is free,
    and the unregistration of a device that is not generic. -/
def Sparing (s : State) : Action → Prop
  | .register kind dev => (∀ d ∈ s.devs, d.addr ≠ dev) → s.id_bitmap kind ≠ 0
  | .unregister dev => ∀ d ∈ s.devs, d.addr = dev → d.kind ≠ .event

instance (s : State) (a : Action) : Decidable (Sparing s a) := by
  cases a <;> unfold Sparing <;> infer_instance

/-- What holds as long as all calls were sparing. -/
structure Inv (s : State) : Prop where
  numbered : Numbered s
  lt : ∀ d ∈ s.devs, d.id < 32
  addrs : s.devs.Pairwise fun d e => d.addr ≠ e.addr

variable {s : State}

/-! ### Bits -/

/-- The lowest bit that is set. -/
theorem ffs_spec {x : BitVec 32} (hx : x ≠ 0) :
    ∃ i, ffs x = i + 1 ∧ i < 32 ∧ x.getLsbD i = true ∧ ∀ j < i, x.getLsbD j = false := by
  obtain ⟨i, hi⟩ : ∃ i, (List.range 32).find? (fun i => x.getLsbD i) = some i := by
    rw [← Option.isSome_iff_exists, List.find?_isSome]
    by_contra hnone
    apply hx
    apply BitVec.eq_of_getLsbD_eq
    intro i hi
    have : ¬ x.getLsbD i = true := fun hbit => hnone ⟨i, List.mem_range.mpr hi, hbit⟩
    simpa using this
  refine ⟨i, by rw [ffs, hi], List.mem_range.mp (List.mem_of_find?_eq_some hi),
    List.find?_some hi, ?_⟩
  intro j hj
  obtain ⟨-, hlower⟩ := List.find?_range_eq_some.mp hi
  simpa using hlower.2 j hj

theorem ffs_zero : ffs 0 = 0 := by decide

theorem getLsbD_BIT {id : Int} (h0 : 0 ≤ id) (h : id < 32) (i : Nat) :
    (BIT id).getLsbD i = decide (id = i) := by
  have hmod : (id % 32).toNat = id.toNat := by rw [Int.emod_eq_of_lt h0 h]
  rw [BIT, hmod, BitVec.getLsbD_twoPow]
  have hlt : id.toNat < 32 := by omega
  simp only [hlt, decide_true, Bool.true_and]
  congr 1
  apply propext
  omega

/-! ### Paths -/

/-- The format strings differ in the first letter behind the directory. -/
theorem format_ne {k k' : Kind} (h : k ≠ k') (a b : CStr) : k.format ++ a ≠ k'.format ++ b := by
  intro heq
  have hletter := congrArg (fun l : CStr => l[11]?) heq
  cases k <;> cases k' <;> simp [Kind.format] at h hletter

/-- Devices with the same path have the same kind and number. -/
theorem path_inj {d e : InputDev} (hd : 0 ≤ d.id) (he : 0 ≤ e.id) (h : d.path = e.path) :
    d.kind = e.kind ∧ d.id = e.id := by
  have hkind : d.kind = e.kind := by
    by_contra hne
    exact format_ne hne _ _ h
  refine ⟨hkind, formatInt_inj hd he ?_⟩
  unfold InputDev.path at h
  rw [hkind] at h
  exact List.append_cancel_left h

/-! ### The calls -/

theorem inv_init : Inv init := by
  refine ⟨⟨?_, .nil, .nil, ?_⟩, ?_, .nil⟩
  · intro d hd
    cases hd
  · intro kind i hi
    have hset : (0xffffffff : BitVec 32).getLsbD i = true := by
      have := (by decide : ∀ i < 32, (0xffffffff : BitVec 32).getLsbD i = true)
      exact this i hi
    constructor
    · intro h
      exact absurd (hset.symm.trans h) (by decide)
    · rintro ⟨d, hd, -⟩
      cases hd
  · intro d hd
    cases hd

/-- A registration takes a number that no device of the kind has. -/
theorem inv_register (hs : Inv s) {kind : Kind} {dev : Addr} (hfree : s.id_bitmap kind ≠ 0)
    (hdev : ∀ d ∈ s.devs, d.addr ≠ dev) : Inv (input_register_device s kind dev) := by
  obtain ⟨i, hffs, hi, hbit, -⟩ := ffs_spec hfree
  have hnew : ∀ e ∈ s.devs, kind = e.kind → (i : Int) ≠ e.id := by
    intro e he hkind hid
    have := (hs.numbered.reserved kind i hi).mpr ⟨e, he, hkind.symm, hid.symm⟩
    rw [hbit] at this
    cases this
  have hdevs : (input_register_device s kind dev).devs = ⟨dev, kind, i⟩ :: s.devs := by
    unfold input_register_device
    rw [hffs]
    simp
  have hmap : (input_register_device s kind dev).id_bitmap =
      Function.update s.id_bitmap kind (s.id_bitmap kind &&& ~~~BIT i) := by
    unfold input_register_device
    rw [hffs]
    simp
  have hmem : ∀ d ∈ (input_register_device s kind dev).devs, d = ⟨dev, kind, i⟩ ∨ d ∈ s.devs := by
    intro d hd
    rw [hdevs] at hd
    exact List.mem_cons.mp hd
  refine ⟨⟨?_, ?_, ?_, ?_⟩, ?_, ?_⟩
  · intro d hd
    obtain rfl | hd := hmem d hd
    · exact Int.natCast_nonneg i
    · exact hs.numbered.nonneg d hd
  · rw [hdevs]
    exact List.pairwise_cons.mpr ⟨hnew, hs.numbered.ids⟩
  · rw [hdevs]
    refine List.pairwise_cons.mpr ⟨?_, hs.numbered.paths⟩
    intro e he hpath
    obtain ⟨hkind, hid⟩ :=
      path_inj (Int.natCast_nonneg i) (hs.numbered.nonneg e he) hpath
    exact hnew e he hkind hid
  · intro k j hj
    rw [hmap, hdevs]
    by_cases hk : k = kind
    · subst hk
      rw [Function.update_self, BitVec.getLsbD_and, BitVec.getLsbD_not,
        getLsbD_BIT (by omega) (by omega)]
      by_cases hji : j = i
      · subst hji
        simp
      · have hij : ¬ (i : Int) = j := by omega
        rw [decide_eq_false hij]
        simp only [hj, decide_true, Bool.not_false, Bool.and_true]
        rw [hs.numbered.reserved k j hj]
        simp [hij]
    · rw [Function.update_of_ne hk, hs.numbered.reserved k j hj]
      simp [Ne.symm hk]
  · intro d hd
    obtain rfl | hd := hmem d hd
    · show (i : Int) < 32
      omega
    · exact hs.lt d hd
  · rw [hdevs]
    exact List.pairwise_cons.mpr ⟨fun e he => Ne.symm (hdev e he), hs.addrs⟩

theorem nodup_devs (hs : Inv s) : s.devs.Nodup :=
  hs.addrs.imp fun hne heq => hne (congrArg InputDev.addr heq)

/-- Two registered devices of one kind with one number are the same. -/
theorem eq_of_id (hs : Inv s) {d e : InputDev} (hd : d ∈ s.devs) (he : e ∈ s.devs)
    (hkind : d.kind = e.kind) (hid : d.id = e.id) : d = e := by
  have : Std.Symm fun d e : InputDev => d.kind = e.kind → d.id ≠ e.id :=
    ⟨fun _ _ h hkind hid => h hkind.symm hid.symm⟩
  by_contra hne
  exact hs.numbered.ids.forall hd he hne hkind hid

theorem eq_of_addr (hs : Inv s) {d e : InputDev} (hd : d ∈ s.devs) (he : e ∈ s.devs)
    (haddr : d.addr = e.addr) : d = e := by
  have : Std.Symm fun d e : InputDev => d.addr ≠ e.addr := ⟨fun _ _ h => h.symm⟩
  by_contra hne
  exact hs.addrs.forall hd he hne haddr

/-- A mouse or a keyboard gives its number back, and no other one. -/
theorem inv_unregister (hs : Inv s) {d : InputDev} (hd : d ∈ s.devs) (hkind : d.kind ≠ .event) :
    Inv (input_unregister_device s d) := by
  have hsub : (input_unregister_device s d).devs.Sublist s.devs := List.erase_sublist
  have h0 := hs.numbered.nonneg d hd
  have hlt := hs.lt d hd
  have hfree : freeId d.kind (s.id_bitmap d.kind) d.id = s.id_bitmap d.kind ||| BIT d.id := by
    cases hk : d.kind with
    | event => exact absurd hk hkind
    | mouse => rfl
    | kbd => rfl
  refine ⟨⟨?_, hs.numbered.ids.sublist hsub, hs.numbered.paths.sublist hsub, ?_⟩, ?_,
    hs.addrs.sublist hsub⟩
  · intro e he
    exact hs.numbered.nonneg e (hsub.subset he)
  · intro k i hi
    have hmem : ∀ e, e ∈ (input_unregister_device s d).devs ↔ e ≠ d ∧ e ∈ s.devs := fun e =>
      (nodup_devs hs).mem_erase_iff
    have hmap : (input_unregister_device s d).id_bitmap =
        Function.update s.id_bitmap d.kind (s.id_bitmap d.kind ||| BIT d.id) := by
      rw [← hfree]
      rfl
    have hold := hs.numbered.reserved k i hi
    rw [hmap]
    by_cases hk : k = d.kind
    · subst hk
      rw [Function.update_self, BitVec.getLsbD_or, getLsbD_BIT h0 hlt, Bool.or_eq_false_iff, hold,
        decide_eq_false_iff_not]
      constructor
      · rintro ⟨⟨e, he, hek, hei⟩, hne⟩
        exact ⟨e, (hmem e).mpr ⟨fun heq => hne (heq ▸ hei), he⟩, hek, hei⟩
      · rintro ⟨e, he, hek, hei⟩
        obtain ⟨hne, he⟩ := (hmem e).mp he
        exact ⟨⟨e, he, hek, hei⟩, fun hid => hne (eq_of_id hs he hd hek (hei.trans hid.symm))⟩
    · rw [Function.update_of_ne hk, hold]
      constructor
      · rintro ⟨e, he, hek, hei⟩
        refine ⟨e, (hmem e).mpr ⟨?_, he⟩, hek, hei⟩
        rintro rfl
        exact hk hek.symm
      · rintro ⟨e, he, hek, hei⟩
        exact ⟨e, ((hmem e).mp he).2, hek, hei⟩
  · intro e he
    exact hs.lt e (hsub.subset he)

/-! ### Runs -/

/-- What the step function does. -/
theorem step_cases {a : Action} {s' : State} (h : step s a = some s') :
    (∃ kind dev, a = .register kind dev ∧ (∀ d ∈ s.devs, d.addr ≠ dev) ∧
      s' = input_register_device s kind dev) ∨
    ∃ d ∈ s.devs, a = .unregister d.addr ∧ s' = input_unregister_device s d := by
  cases a with
  | register kind dev =>
    simp only [step] at h
    split at h
    · next hall =>
      refine .inl ⟨kind, dev, rfl, ?_, (Option.some.inj h).symm⟩
      simpa using hall
    · cases h
  | unregister dev =>
    obtain ⟨d, hd, rfl⟩ := Option.map_eq_some_iff.mp h
    have haddr : d.addr = dev := by simpa using List.find?_some hd
    exact .inr ⟨d, List.mem_of_find?_eq_some hd, haddr ▸ rfl, rfl⟩

theorem inv_step (s : State) (a : Action) (s' : State) (hs : Inv s) (hG : Sparing s a)
    (h : step s a = some s') : Inv s' := by
  obtain ⟨kind, dev, rfl, hdev, rfl⟩ | ⟨d, hd, rfl, rfl⟩ := step_cases h
  · exact inv_register hs (hG hdev) hdev
  · exact inv_unregister hs hd (hG d hd rfl)

/-- A registration without a free number gives the number -1. -/
theorem not_numbered_register {kind : Kind} (hfull : s.id_bitmap kind = 0) (dev : Addr) :
    ¬ Numbered (input_register_device s kind dev) := by
  intro hnum
  have hid := hnum.nonneg ⟨dev, kind, (ffs (s.id_bitmap kind) : Int) - 1⟩ List.mem_cons_self
  rw [hfull, ffs_zero] at hid
  simp at hid

/-- A generic device keeps its number when it is unregistered. -/
theorem not_numbered_unregister (hs : Inv s) {d : InputDev} (hd : d ∈ s.devs)
    (hkind : d.kind = .event) : ¬ Numbered (input_unregister_device s d) := by
  intro hnum
  have h0 := hs.numbered.nonneg d hd
  have hlt := hs.lt d hd
  have hid : d.id = (d.id.toNat : Int) := by omega
  have hold := (hs.numbered.reserved .event d.id.toNat (by omega)).mpr ⟨d, hd, hkind, hid⟩
  have hbit : ((input_unregister_device s d).id_bitmap .event).getLsbD d.id.toNat = false := by
    unfold input_unregister_device
    rw [hkind]
    simp only [Function.update_self, freeId]
    rw [BitVec.getLsbD_or, BitVec.getLsbD_not, getLsbD_BIT h0 hlt, hold, decide_eq_true hid]
    simp
  obtain ⟨e, he, hek, hei⟩ := (hnum.reserved .event d.id.toNat (by omega)).mp hbit
  have hmem : e ∈ s.devs.erase d := he
  obtain ⟨hne, he⟩ := (nodup_devs hs).mem_erase_iff.mp hmem
  exact hne (eq_of_id hs he hd (hek.trans hkind.symm) (hei.trans hid.symm))

/-- An enabled call that is not sparing breaks the numbers. -/
theorem not_numbered_step {a : Action} {s' : State} (hs : Inv s) (hG : ¬ Sparing s a)
    (h : step s a = some s') : ¬ Numbered s' := by
  obtain ⟨kind, dev, rfl, hdev, rfl⟩ | ⟨d, hd, rfl, rfl⟩ := step_cases h
  · exact not_numbered_register (not_not.mp fun hfree => hG fun _ => hfree) dev
  · apply not_numbered_unregister hs hd
    simp only [Sparing, not_forall, not_not] at hG
    obtain ⟨e, he, haddr, hkind⟩ := hG
    exact eq_of_addr hs he hd haddr ▸ hkind

/-- A call that is not sparing is one that the driver can make. -/
theorem enabled_of_not_sparing {a : Action} (hG : ¬ Sparing s a) : ∃ s', step s a = some s' := by
  cases a with
  | register kind dev =>
    simp only [Sparing, Classical.not_imp] at hG
    have hall : (s.devs.all fun d => d.addr ≠ dev) = true := by simpa using hG.1
    exact ⟨_, if_pos hall⟩
  | unregister dev =>
    simp only [Sparing, not_forall, not_not] at hG
    obtain ⟨e, he, haddr, -⟩ := hG
    have hsome : (s.devs.find? fun d => d.addr = dev).isSome := by
      rw [List.find?_isSome]
      exact ⟨e, he, decide_eq_true haddr⟩
    obtain ⟨d, hd⟩ := Option.isSome_iff_exists.mp hsome
    exact ⟨_, by rw [step, hd]; rfl⟩

/-- The unregistration of a device leaves the others registered, with their numbers. -/
def KeepsOthers (s : State) (a : Action) : Prop :=
  ∀ dev s', a = .unregister dev → step s a = some s' → ∀ e ∈ s.devs, e.addr ≠ dev → e ∈ s'.devs

theorem keepsOthers (s : State) (a : Action) : KeepsOthers s a := by
  rintro dev s' rfl h e he haddr
  obtain ⟨kind, dev', heq, -⟩ | ⟨d, -, heq, rfl⟩ := step_cases h
  · cases heq
  · cases heq
    exact (List.mem_erase_of_ne (fun hed => haddr (congrArg InputDev.addr hed))).mpr he

/-- The numbers are kept apart in every state that a run goes through exactly if all its calls are
    sparing. -/
theorem numbered_iff (tr : List Action) :
    (Always step Numbered init tr ∧ Meets step KeepsOthers init tr) ↔
      Meets step Sparing init tr := by
  have hiff : Always step Numbered init tr ↔ Meets step Sparing init tr := by
    apply always_iff_meets step (fun _ hs => hs.numbered) inv_step _ inv_init
    intro s a hs hG
    obtain ⟨s', hs'⟩ := enabled_of_not_sparing hG
    exact ⟨s', hs', not_numbered_step hs hG hs'⟩
  have hkeeps : Meets step KeepsOthers init tr :=
    Meets.mono step (G := fun _ _ => True) (fun s a _ => keepsOthers s a)
      (meets_of_forall_mem step (p := fun _ => True) fun _ _ => trivial)
  rw [and_iff_left hkeeps, hiff]

/-- The first of two generic devices is unregistered, which frees the number of the second one:
    the next device gets the same number. -/
theorem numbered_fails : ¬ ∀ tr : List Action,
    Always step Numbered init tr ∧ Meets step KeepsOthers init tr := by
  intro h
  obtain ⟨halways, -⟩ :=
    h [.register .event 1, .register .event 2, .unregister 1, .register .event 3]
  have hnum : Numbered _ :=
    (((halways.2 _ rfl).2 _ rfl).2 _ rfl).2 _ rfl
  have := hnum.ids
  revert this
  decide

end Hcrtos.Native.Input
