import Hcrtos.Native.Fat32

/-!
# Slots and volumes of the mounts

A mount holds its disk slot and the FatFs volume of the same number until it is unbound. Only an
unbind of a mount that is no longer marked as mounted leaves the volume registered.

## Key results

- `frame_perform`: the calls on open files leave the slots and volumes alone
- `inv_bind`, `inv_unbind`: the slots and volumes after a bind and an unbind
- `registered_iff`: the runs along which no registration outlives its mount
- `registered_fails`: a run in which one does
-/

namespace Hcrtos.Native.Fat32

open Lts

/-- A mount holds a slot if it is mounted there, or is the owner of the slot. -/
def Holds (s : State) (fs : MountId) (i : Nat) : Prop :=
  (s.mounts fs).life = .live ∧ (s.mounts fs).pdrv = i ∧
    ((s.mounts fs).fs_mounted = true ∨ s.FatfsDrives i = some (.mount fs))

/-- Every slot belongs to a live mount or a running format, every volume to a live mount, and no
    two live mounts hold the same slot. -/
structure Registered (s : State) : Prop where
  mount : ∀ i fs, s.FatfsDrives i = some (.mount fs) → Holds s fs i
  format : ∀ i id, s.FatfsDrives i = some (.format id) → s.formats id = some i
  volume : ∀ i fs, s.FatFs i = some fs → (s.mounts fs).life = .live
  alone : ∀ i fs fs', Holds s fs i → Holds s fs' i → fs = fs'

/-- An unbind frees a mount that is not mounted any more only if no volume is registered for it. -/
def Unregisters (s : State) (a : Action) : Prop :=
  ∀ fs flags, a = .unbind fs flags → (s.mounts fs).life = .live →
    ((s.mounts fs).files = [] ∨ flags &&& MNT_FORCE ≠ 0) → (s.mounts fs).fs_mounted = false →
      s.FatFs (s.mounts fs).pdrv ≠ some fs

/-- What holds as long as all unbinds unregister their volume. -/
structure Inv (s : State) : Prop where
  mount : ∀ i fs, s.FatfsDrives i = some (.mount fs) →
    (s.mounts fs).life = .live ∧ (s.mounts fs).pdrv = i
  format : ∀ i id, s.FatfsDrives i = some (.format id) ↔ s.formats id = some i
  bound : ∀ i b, s.FatfsDrives i = some b → i < FF_VOLUMES
  volume : ∀ i fs, s.FatFs i = some fs → s.FatfsDrives i = some (.mount fs)
  mounted : ∀ fs, (s.mounts fs).fs_mounted = true →
    s.FatfsDrives (s.mounts fs).pdrv = some (.mount fs)

variable {s s' s'' : State}

theorem Inv.registered (hs : Inv s) : Registered s := by
  have hholds : ∀ i fs, Holds s fs i → s.FatfsDrives i = some (.mount fs) := by
    rintro i fs ⟨-, rfl, hmounted | hslot⟩
    · exact hs.mounted fs hmounted
    · exact hslot
  refine ⟨?_, fun i id => (hs.format i id).mp, ?_, ?_⟩
  · intro i fs hslot
    obtain ⟨hlife, hpdrv⟩ := hs.mount i fs hslot
    exact ⟨hlife, hpdrv, .inr hslot⟩
  · intro i fs hvol
    exact (hs.mount i fs (hs.volume i fs hvol)).1
  · intro i fs fs' h h'
    have heq := (hholds i fs h).symm.trans (hholds i fs' h')
    cases heq
    rfl

theorem inv_init : Inv init := by
  refine ⟨?_, ?_, ?_, ?_, ?_⟩
  · intro i fs h
    cases h
  · intro i id
    constructor <;> intro h <;> cases h
  · intro i b h
    cases h
  · intro i fs h
    cases h
  · intro fs h
    cases h

/-! ### What leaves the slots and volumes alone -/

/-- The two states differ only in open files and in mounts that were lost. -/
structure Frame (s s' : State) : Prop where
  drives : s'.FatfsDrives = s.FatfsDrives
  volumes : s'.FatFs = s.FatFs
  formats : s'.formats = s.formats
  life : ∀ fs, (s'.mounts fs).life = (s.mounts fs).life
  pdrv : ∀ fs, (s'.mounts fs).pdrv = (s.mounts fs).pdrv
  i_private : ∀ fs, (s'.mounts fs).i_private = (s.mounts fs).i_private
  mounted : ∀ fs, (s'.mounts fs).fs_mounted = true → (s.mounts fs).fs_mounted = true

theorem Frame.rfl : Frame s s :=
  ⟨.refl _, .refl _, .refl _, fun _ => .refl _, fun _ => .refl _, fun _ => .refl _, fun _ h => h⟩

theorem Frame.trans (h : Frame s s') (h' : Frame s' s'') : Frame s s'' where
  drives := h'.drives.trans h.drives
  volumes := h'.volumes.trans h.volumes
  formats := h'.formats.trans h.formats
  life fs := (h'.life fs).trans (h.life fs)
  pdrv fs := (h'.pdrv fs).trans (h.pdrv fs)
  i_private fs := (h'.i_private fs).trans (h.i_private fs)
  mounted fs hm := h.mounted fs (h'.mounted fs hm)

theorem Frame.inv (h : Frame s s') (hs : Inv s) : Inv s' where
  mount i fs hslot := by
    rw [h.drives] at hslot
    rw [h.life, h.pdrv]
    exact hs.mount i fs hslot
  format i id := by
    rw [h.drives, h.formats]
    exact hs.format i id
  bound i b hslot := by
    rw [h.drives] at hslot
    exact hs.bound i b hslot
  volume i fs hvol := by
    rw [h.volumes] at hvol
    rw [h.drives]
    exact hs.volume i fs hvol
  mounted fs hm := by
    rw [h.drives, h.pdrv]
    exact hs.mounted fs (h.mounted fs hm)

/-- Open files and history do not matter. -/
theorem frame_of_eq (hdrives : s'.FatfsDrives = s.FatfsDrives) (hvolumes : s'.FatFs = s.FatFs)
    (hformats : s'.formats = s.formats) (hmounts : s'.mounts = s.mounts) : Frame s s' := by
  refine ⟨hdrives, hvolumes, hformats, ?_, ?_, ?_, ?_⟩ <;> intro fs <;> rw [hmounts]
  exact id

theorem frame_touch (s : State) (fs : MountId) : Frame s (s.touch fs) :=
  frame_of_eq (.refl _) (.refl _) (.refl _) (.refl _)

theorem frame_setFile (s : State) (filep : FileId) (f : Option File) :
    Frame s (s.setFile filep f) :=
  frame_of_eq (.refl _) (.refl _) (.refl _) (.refl _)

theorem frame_returned (s : State) (f : File) (c : Call) (ret : Int) :
    Frame s (s.returned f c ret) :=
  frame_of_eq (.refl _) (.refl _) (.refl _) (.refl _)

theorem frame_force (s : State) (ffs : List FileId) : Frame s (s.force ffs) :=
  frame_of_eq (.refl _) (.refl _) (.refl _) (.refl _)

/-- A change of the list or the mark of a mount. -/
theorem frame_setMount (s : State) (fs : MountId) (m : Mountpt)
    (hlife : m.life = (s.mounts fs).life) (hpdrv : m.pdrv = (s.mounts fs).pdrv)
    (hpriv : m.i_private = (s.mounts fs).i_private)
    (hmounted : m.fs_mounted = true → (s.mounts fs).fs_mounted = true) :
    Frame s (s.setMount fs m) := by
  have hsplit : ∀ fs', (s.setMount fs m).mounts fs' = if fs' = fs then m else s.mounts fs' :=
    fun fs' => Function.update_apply ..
  refine ⟨.refl _, .refl _, .refl _, ?_, ?_, ?_, ?_⟩ <;> intro fs' <;> rw [hsplit fs'] <;> split
  all_goals first | (next h => subst h; assumption) | first | exact .refl _ | exact id

theorem frame_list_add_tail (s : State) (fs : MountId) (ff : FileId) :
    Frame s (s.list_add_tail fs ff) :=
  (frame_touch s fs).trans (frame_setMount _ fs _ (.refl _) (.refl _) (.refl _) id)

theorem frame_list_del_init (s : State) (fs : MountId) (ff : FileId) :
    Frame s (s.list_del_init fs ff) := by
  unfold State.list_del_init
  dsimp only
  split
  · exact (frame_touch s fs).trans (frame_setMount _ fs _ (.refl _) (.refl _) (.refl _) id)
  · exact frame_setMount _ fs _ (.refl _) (.refl _) (.refl _) id

theorem frame_checkmount (s : State) (fs : Option MountId) (geometry : List (Option Geometry)) :
    Frame s (fat_checkmount s fs geometry).2 := by
  cases fs with
  | none => exact Frame.rfl
  | some fs =>
    unfold fat_checkmount
    dsimp only
    split
    · split
      · exact frame_touch s fs
      · refine (frame_touch s fs).trans (frame_setMount _ fs _ (.refl _) (.refl _) (.refl _) ?_)
        intro h
        cases h
    · exact frame_touch s fs

/-- A call on an open file. -/
theorem frame_perform (s : State) (filep : FileId) (f : File) (io : Io) (c : Call) :
    Frame s (c.perform s filep f io).2 := by
  have hcheck := frame_checkmount s (s.i_private f) io.geometry
  cases c with
  | read =>
    simp only [Call.perform, fat_read]
    split
    · exact hcheck
    · split
      · exact hcheck
      · split
        · exact hcheck
        · exact hcheck.trans (frame_setFile ..)
  | write =>
    simp only [Call.perform, fat_write]
    split
    · exact Frame.rfl
    · split
      · exact hcheck
      · split
        · exact hcheck
        · split
          · exact hcheck.trans (frame_setFile ..)
          · exact hcheck.trans (frame_setFile ..)
  | seek offset whence =>
    simp only [Call.perform, fat_seek]
    split
    · exact Frame.rfl
    · split
      · exact Frame.rfl
      · split
        · exact Frame.rfl
        · split
          · exact hcheck
          · split
            · exact hcheck
            · exact hcheck.trans (frame_setFile ..)
  | sync =>
    simp only [Call.perform, fat_sync]
    split
    · exact Frame.rfl
    · split
      · exact hcheck
      · exact hcheck
  | fstat buf =>
    simp only [Call.perform, fat_fstat]
    split
    · exact Frame.rfl
    · exact hcheck
  | dup newp malloc =>
    simp only [Call.perform, fat_dup]
    split
    · exact Frame.rfl
    · split
      · exact hcheck
      · split
        · exact hcheck
        · exact (hcheck.trans (frame_setFile ..)).trans (frame_list_add_tail ..)
  | close =>
    simp only [Call.perform, fat_close]
    exact (hcheck.trans (frame_list_del_init ..)).trans (frame_setFile ..)

theorem frame_open (s : State) (fs : MountId) (filep : FileId) (append zalloc path : Bool)
    (io : Io) : Frame s (fat_open s fs filep append zalloc path io).2 := by
  have hcheck := frame_checkmount s (some fs) io.geometry
  unfold fat_open
  dsimp only
  split
  · exact hcheck
  · split
    · exact hcheck
    · split
      · exact hcheck
      · split
        · exact hcheck
        · split
          · exact hcheck
          · exact (hcheck.trans (frame_setFile ..)).trans (frame_list_add_tail ..)

/-! ### Slots -/

@[simp] theorem mounts_setMount (s : State) (fs : MountId) (m : Mountpt) :
    (s.setMount fs m).mounts = Function.update s.mounts fs m := rfl

@[simp] theorem drives_setMount (s : State) (fs : MountId) (m : Mountpt) :
    (s.setMount fs m).FatfsDrives = s.FatfsDrives := rfl

@[simp] theorem volumes_setMount (s : State) (fs : MountId) (m : Mountpt) :
    (s.setMount fs m).FatFs = s.FatFs := rfl

@[simp] theorem formats_setMount (s : State) (fs : MountId) (m : Mountpt) :
    (s.setMount fs m).formats = s.formats := rfl

/-- A slot that is found is free. -/
theorem register_some {b : Blkdrv} {i : Nat} (h : s.fatfs_register_blkdrv b = some (i, s')) :
    i < FF_VOLUMES ∧ s.FatfsDrives i = none ∧
      s' = { s with FatfsDrives := Function.update s.FatfsDrives i (some b) } := by
  obtain ⟨j, hfind, heq⟩ := Option.map_eq_some_iff.mp h
  cases heq
  have hfree := List.find?_some hfind
  exact ⟨List.mem_range.mp (List.mem_of_find?_eq_some hfind), by simpa using hfree, rfl⟩

/-- An owner's slot becomes free, and no other one. -/
theorem drives_unregister (s : State) (pdrv : Nat) (b : Blkdrv) (i : Nat) :
    (s.fatfs_unregister_blkdrv pdrv b).FatfsDrives i =
      if i = pdrv ∧ i < FF_VOLUMES ∧ s.FatfsDrives i = some b then none else s.FatfsDrives i := by
  unfold State.fatfs_unregister_blkdrv
  split
  · next hge =>
    rw [if_neg]
    rintro ⟨rfl, hlt, -⟩
    exact absurd hlt (Nat.not_lt.mpr hge)
  · next hlt =>
    split
    · next hown =>
      by_cases hi : i = pdrv
      · subst hi
        simp [hown, Nat.lt_of_not_le hlt]
      · simp [hi]
    · next hown =>
      rw [if_neg]
      rintro ⟨rfl, -, h⟩
      exact hown h

/-- The rest of the state stays. -/
theorem unregister_eq (s : State) (pdrv : Nat) (b : Blkdrv) :
    s.fatfs_unregister_blkdrv pdrv b =
      { s with FatfsDrives := (s.fatfs_unregister_blkdrv pdrv b).FatfsDrives } := by
  unfold State.fatfs_unregister_blkdrv
  split
  · rfl
  · split <;> rfl

/-! ### Binds -/

theorem not_owner_of_not_live (hs : Inv s) {fs : MountId} (h : (s.mounts fs).life ≠ .live)
    (i : Nat) : s.FatfsDrives i ≠ some (.mount fs) :=
  fun hslot => h (hs.mount i fs hslot).1

/-- The record of a mount without a slot may change. -/
theorem inv_setMount (hs : Inv s) {fs : MountId} (hslot : ∀ i, s.FatfsDrives i ≠ some (.mount fs))
    {m : Mountpt} (hm : m.fs_mounted = false) : Inv (s.setMount fs m) where
  mount i fs' h := by
    have hne : fs' ≠ fs := by
      rintro rfl
      exact hslot i h
    rw [mounts_setMount, Function.update_of_ne hne]
    exact hs.mount i fs' h
  format := hs.format
  bound := hs.bound
  volume := hs.volume
  mounted fs' h := by
    rw [mounts_setMount] at h ⊢
    by_cases hne : fs' = fs
    · subst hne
      rw [Function.update_self, hm] at h
      cases h
    · rw [Function.update_of_ne hne] at h ⊢
      exact hs.mounted fs' h

/-- A mount that takes a free slot. -/
theorem inv_mounted (hs : Inv s) {fs : MountId} (hslot : ∀ i, s.FatfsDrives i ≠ some (.mount fs))
    {i : Nat} (hi : i < FF_VOLUMES) (hfree : s.FatfsDrives i = none) {m : Mountpt}
    (hlife : m.life = .live) (hpdrv : m.pdrv = i) :
    Inv { s with
      FatfsDrives := Function.update s.FatfsDrives i (some (.mount fs))
      FatFs := Function.update s.FatFs i (some fs)
      mounts := Function.update s.mounts fs m } where
  mount j fs' h := by
    simp only [Function.update_apply] at h ⊢
    by_cases hj : j = i
    · rw [if_pos hj] at h
      cases h
      rw [if_pos rfl, hj]
      exact ⟨hlife, hpdrv⟩
    · rw [if_neg hj] at h
      have hne : fs' ≠ fs := by
        rintro rfl
        exact hslot j h
      rw [if_neg hne]
      exact hs.mount j fs' h
  format j id := by
    simp only [Function.update_apply]
    by_cases hj : j = i
    · rw [if_pos hj, ← hs.format j id, hj, hfree]
      simp
    · rw [if_neg hj]
      exact hs.format j id
  bound j b h := by
    simp only [Function.update_apply] at h
    by_cases hj : j = i
    · exact hj ▸ hi
    · rw [if_neg hj] at h
      exact hs.bound j b h
  volume j fs' h := by
    simp only [Function.update_apply] at h ⊢
    by_cases hj : j = i
    · rw [if_pos hj] at h ⊢
      cases h
      rfl
    · rw [if_neg hj] at h ⊢
      exact hs.volume j fs' h
  mounted fs' h := by
    simp only [Function.update_apply] at h ⊢
    by_cases hne : fs' = fs
    · simp [hne, hpdrv]
    · rw [if_neg hne] at h ⊢
      have hold := hs.mounted fs' h
      have hj : (s.mounts fs').pdrv ≠ i := by
        intro heq
        rw [heq, hfree] at hold
        cases hold
      rw [if_neg hj]
      exact hold

theorem fatfs_errno_ne {res : FRESULT} (h : res ≠ .FR_OK) : fatfs_errno res ≠ 0 := by
  cases res
  case FR_OK => exact absurd rfl h
  all_goals decide

/-- A mount either fails and leaves no registration, or takes a free slot and its volume. -/
theorem fat_mount_cases (s : State) (fs : MountId) (writeable : Bool) (geo : Option Geometry)
    (res : FRESULT) (hvol : ∀ i, s.FatfsDrives i = none → s.FatFs i = none) :
    ((fat_mount s fs writeable geo res).1 ≠ 0 ∧ ∃ m, m.fs_mounted = false ∧
      (fat_mount s fs writeable geo res).2 = s.setMount fs m) ∨
    ((fat_mount s fs writeable geo res).1 = 0 ∧ ∃ i < FF_VOLUMES, s.FatfsDrives i = none ∧
      (fat_mount s fs writeable geo res).2 = { s with
        FatfsDrives := Function.update s.FatfsDrives i (some (.mount fs))
        FatFs := Function.update s.FatFs i (some fs)
        mounts := Function.update s.mounts fs
          { s.mounts fs with pdrv := i, fs_mounted := true } }) := by
  unfold fat_mount
  dsimp only
  split
  · exact .inl ⟨(by decide : -ENODEV ≠ 0), _, rfl, rfl⟩
  · split
    · exact .inl ⟨(by decide : -ENODEV ≠ 0), _, rfl, rfl⟩
    · split
      · exact .inl ⟨(by decide : -EACCES ≠ 0), _, rfl, rfl⟩
      · split
        · exact .inl ⟨(by decide : -EPERM ≠ 0), _, rfl, rfl⟩
        · split
          · exact .inl ⟨(by decide : -EBUSY ≠ 0), _, rfl, rfl⟩
          · next i s' hreg =>
            obtain ⟨hi, hfree, rfl⟩ := register_some hreg
            split
            · next hres =>
              -- the registrations are taken back
              refine .inl ⟨fatfs_errno_ne hres,
                { s.mounts fs with pdrv := i, fs_mounted := false }, rfl, ?_⟩
              have hdrives : Function.update s.FatfsDrives i none = s.FatfsDrives := by
                rw [← hfree, Function.update_eq_self]
              have hvolumes : Function.update s.FatFs i none = s.FatFs := by
                rw [← hvol i hfree, Function.update_eq_self]
              simp [State.f_mount, State.f_unmount, State.fatfs_unregister_blkdrv,
                Nat.not_le.mpr hi, hdrives, hvolumes, State.setMount]
            · exact .inr ⟨rfl, i, hi, hfree, rfl⟩

theorem inv_bind (hs : Inv s) {opened : Bool} {fs : Option MountId} {geo : Option Geometry}
    {res : FRESULT} (hfs : ∀ id, fs = some id → (s.mounts id).life = .unused) :
    Inv (fat_bind s opened fs geo res).2 := by
  unfold fat_bind
  split
  · exact hs
  · cases fs with
    | none => exact hs
    | some fs =>
      have hnot : (s.mounts fs).life ≠ .live := by
        rw [hfs fs rfl]
        decide
      have hslot := not_owner_of_not_live hs hnot
      have hnew : Inv (s.setMount fs ⟨.live, false, 0, [], false⟩) := inv_setMount hs hslot rfl
      have hvol : ∀ i, s.FatfsDrives i = none → s.FatFs i = none := by
        intro i hfree
        by_contra hne
        obtain ⟨fs', hfs'⟩ := Option.ne_none_iff_exists'.mp hne
        have := hs.volume i fs' hfs'
        rw [hfree] at this
        cases this
      obtain ⟨hret, m, hm, hst⟩ | ⟨hret, i, hi, hfree, hst⟩ :=
        fat_mount_cases (s.setMount fs ⟨.live, false, 0, [], false⟩) fs true geo res hvol
      · -- the mount is freed again
        dsimp only
        rw [if_pos hret, hst]
        apply inv_setMount (inv_setMount hnew hslot hm) hslot
        simpa using hm
      · dsimp only
        rw [if_neg (not_not.mpr hret), hst]
        have := inv_mounted hnew hslot hi hfree
          (m := ⟨.live, true, i, [], true⟩) rfl rfl
        simpa [State.setMount] using this

/-! ### Unbinds -/

/-- A mount without a registered volume gives up its slot. -/
theorem inv_release (hs : Inv s) {fs : MountId} (hvol : ∀ i, s.FatFs i ≠ some fs) {m : Mountpt}
    (hm : m.fs_mounted = false) :
    Inv ((s.fatfs_unregister_blkdrv (s.mounts fs).pdrv (.mount fs)).setMount fs m) := by
  have hdrives : ∀ i,
      (s.fatfs_unregister_blkdrv (s.mounts fs).pdrv (.mount fs)).FatfsDrives i =
        if s.FatfsDrives i = some (.mount fs) then none else s.FatfsDrives i := by
    intro i
    rw [drives_unregister]
    by_cases hown : s.FatfsDrives i = some (.mount fs)
    · rw [if_pos hown, if_pos ⟨(hs.mount i fs hown).2.symm, hs.bound i _ hown, hown⟩]
    · rw [if_neg hown, if_neg fun h => hown h.2.2]
  rw [unregister_eq]
  generalize (s.fatfs_unregister_blkdrv (s.mounts fs).pdrv (.mount fs)).FatfsDrives = drives
    at hdrives
  -- the slots that are left were there before, and are not those of the mount
  have hold : ∀ i b, drives i = some b → s.FatfsDrives i = some b ∧ b ≠ .mount fs := by
    intro i b h
    rw [hdrives] at h
    split at h
    · cases h
    · next hown => exact ⟨h, fun hb => hown (hb ▸ h)⟩
  have hkeep : ∀ i b, s.FatfsDrives i = some b → b ≠ .mount fs → drives i = some b := by
    intro i b h hb
    rw [hdrives, if_neg, h]
    rw [h]
    exact fun heq => hb (Option.some.inj heq)
  refine ⟨?_, ?_, ?_, ?_, ?_⟩
  · intro i fs' h
    obtain ⟨h, hne⟩ := hold i _ h
    have hne : fs' ≠ fs := fun heq => hne (heq ▸ rfl)
    rw [mounts_setMount, Function.update_of_ne hne]
    exact hs.mount i fs' h
  · intro i id
    constructor
    · intro h
      exact (hs.format i id).mp (hold i _ h).1
    · intro h
      exact hkeep i _ ((hs.format i id).mpr h) (by simp)
  · intro i b h
    exact hs.bound i b (hold i b h).1
  · intro i fs' h
    have hne : fs' ≠ fs := fun heq => hvol i (heq ▸ h)
    exact hkeep i _ (hs.volume i fs' h) (by simpa using hne)
  · intro fs' h
    rw [mounts_setMount] at h ⊢
    by_cases hne : fs' = fs
    · subst hne
      rw [Function.update_self, hm] at h
      cases h
    · rw [Function.update_of_ne hne] at h ⊢
      exact hkeep _ _ (hs.mounted fs' h) (by simpa using hne)

/-- The state between the two parts of an unbind: a mounted file system gives up its volume and
    its slot. -/
def unmounted (s : State) (fs : MountId) : State :=
  if (s.mounts fs).fs_mounted = true then
    ((s.f_unmount (s.mounts fs).pdrv).fatfs_unregister_blkdrv (s.mounts fs).pdrv
      (.mount fs)).setMount fs { s.mounts fs with fs_mounted := false }
  else s

/-- Without its volume, the mount is like one that has none. -/
theorem inv_f_unmount (hs : Inv s) {fs : MountId} (hm : (s.mounts fs).fs_mounted = true) :
    Inv (s.f_unmount (s.mounts fs).pdrv) ∧
      ∀ i, (s.f_unmount (s.mounts fs).pdrv).FatFs i ≠ some fs := by
  have hown := hs.mounted fs hm
  constructor
  · refine ⟨hs.mount, hs.format, hs.bound, ?_, hs.mounted⟩
    intro i fs' h
    simp only [State.f_unmount, Function.update_apply] at h
    split at h
    · cases h
    · exact hs.volume i fs' h
  · intro i h
    simp only [State.f_unmount, Function.update_apply] at h
    split at h
    · cases h
    · next hi => exact hi (hs.mount i fs (hs.volume i fs h)).2.symm

theorem inv_unmounted (hs : Inv s) (fs : MountId) : Inv (unmounted s fs) := by
  unfold unmounted
  split
  · next hm =>
    obtain ⟨hinv, hvol⟩ := inv_f_unmount hs hm
    exact inv_release hinv hvol rfl
  · exact hs

theorem unbind_eq (s : State) (fs : MountId) (flags : BitVec 32) :
    (fat_unbind s fs flags).2 =
      if (s.mounts fs).files ≠ [] ∧ flags &&& MNT_FORCE = 0 then unmounted s fs
      else
        let t := (unmounted s fs).force (s.mounts fs).files
        let t := t.fatfs_unregister_blkdrv (s.mounts fs).pdrv (.mount fs)
        t.setMount fs { t.mounts fs with life := .freed } := by
  unfold fat_unbind unmounted
  dsimp only
  split <;> rfl

theorem pdrv_unmounted (s : State) (fs : MountId) :
    ((unmounted s fs).mounts fs).pdrv = (s.mounts fs).pdrv := by
  unfold unmounted
  split
  · simp
  · rfl

theorem fs_mounted_unmounted (s : State) (fs : MountId) :
    ((unmounted s fs).mounts fs).fs_mounted = false := by
  unfold unmounted
  split
  · simp
  · next h => simpa using h

/-- An unbind that unregisters its volume. -/
theorem inv_unbind (hs : Inv s) {fs : MountId} {flags : BitVec 32}
    (hG : ((s.mounts fs).files = [] ∨ flags &&& MNT_FORCE ≠ 0) →
      (s.mounts fs).fs_mounted = false → s.FatFs (s.mounts fs).pdrv ≠ some fs) :
    Inv (fat_unbind s fs flags).2 := by
  have hinv := inv_unmounted hs fs
  rw [unbind_eq]
  split
  · exact hinv
  · next hfrees =>
    have hfrees : (s.mounts fs).files = [] ∨ flags &&& MNT_FORCE ≠ 0 := by
      rw [not_and_or, not_not] at hfrees
      exact hfrees
    -- no volume is registered for the mount now
    have hvol : ∀ i, (unmounted s fs).FatFs i ≠ some fs := by
      unfold unmounted
      split
      · next hm =>
        rw [unregister_eq]
        exact (inv_f_unmount hs hm).2
      · next hm =>
        intro i h
        have hi := (hs.mount i fs (hs.volume i fs h)).2
        exact hG hfrees (by simpa using hm) (hi ▸ h)
    have hforce := (frame_force (unmounted s fs) (s.mounts fs).files).inv hinv
    have hpdrv : (((unmounted s fs).force (s.mounts fs).files).mounts fs).pdrv =
        (s.mounts fs).pdrv := pdrv_unmounted s fs
    dsimp only
    rw [← hpdrv]
    apply inv_release hforce hvol
    rw [unregister_eq]
    exact fs_mounted_unmounted s fs

/-! ### Formats -/

theorem inv_mkfatfs (hs : Inv s) {id : Nat} (hid : s.formats id = none) (geo : Geometry) :
    Inv (mkfatfs s id geo) := by
  unfold mkfatfs
  split
  · exact hs
  · split
    · exact hs
    · split
      · exact hs
      · next i s' hreg =>
        obtain ⟨hi, hfree, rfl⟩ := register_some hreg
        refine ⟨?_, ?_, ?_, ?_, ?_⟩
        · intro j fs h
          simp only [Function.update_apply] at h
          split at h
          · cases h
          · exact hs.mount j fs h
        · intro j id'
          simp only [Function.update_apply]
          by_cases hj : j = i
          · subst hj
            by_cases hid' : id' = id
            · simp [hid']
            · rw [if_pos rfl, if_neg hid', ← hs.format j id', hfree]
              simp [Ne.symm hid']
          · by_cases hid' : id' = id
            · subst hid'
              rw [if_neg hj, if_pos rfl, hs.format j id', hid]
              simp [Ne.symm hj]
            · rw [if_neg hj, if_neg hid']
              exact hs.format j id'
        · intro j b h
          simp only [Function.update_apply] at h
          split at h
          · next hj => exact hj ▸ hi
          · exact hs.bound j b h
        · intro j fs h
          have hold := hs.volume j fs h
          have hj : j ≠ i := by
            rintro rfl
            rw [hfree] at hold
            cases hold
          simpa [hj] using hold
        · intro fs h
          have hold := hs.mounted fs h
          have hj : (s.mounts fs).pdrv ≠ i := by
            intro heq
            rw [heq, hfree] at hold
            cases hold
          simpa [hj] using hold

theorem inv_formatted (hs : Inv s) {id pdrv : Nat} (hid : s.formats id = some pdrv) :
    Inv { s.fatfs_unregister_blkdrv pdrv (.format id) with
      formats := Function.update (s.fatfs_unregister_blkdrv pdrv (.format id)).formats id none } := by
  have hown := (hs.format pdrv id).mpr hid
  have hdrives : ∀ i, (s.fatfs_unregister_blkdrv pdrv (.format id)).FatfsDrives i =
      if i = pdrv then none else s.FatfsDrives i := by
    intro i
    rw [drives_unregister]
    by_cases hi : i = pdrv
    · subst hi
      rw [if_pos ⟨rfl, hs.bound i _ hown, hown⟩, if_pos rfl]
    · rw [if_neg fun h => hi h.1, if_neg hi]
  rw [unregister_eq]
  generalize (s.fatfs_unregister_blkdrv pdrv (.format id)).FatfsDrives = drives at hdrives
  -- a slot of a mount is not the one that becomes free
  have hmount : ∀ i fs, drives i = some (.mount fs) ↔ s.FatfsDrives i = some (.mount fs) := by
    intro i fs
    rw [hdrives]
    by_cases hi : i = pdrv
    · subst hi
      rw [if_pos rfl, hown]
      simp
    · rw [if_neg hi]
  refine ⟨?_, ?_, ?_, ?_, ?_⟩
  · intro i fs h
    exact hs.mount i fs ((hmount i fs).mp h)
  · intro i id'
    show drives i = _ ↔ Function.update s.formats id none id' = some i
    rw [hdrives, Function.update_apply]
    by_cases hi : i = pdrv
    · subst hi
      by_cases hid' : id' = id
      · simp [hid']
      · rw [if_pos rfl, if_neg hid', ← hs.format i id', hown]
        simp [Ne.symm hid']
    · by_cases hid' : id' = id
      · subst hid'
        rw [if_neg hi, if_pos rfl, hs.format i id', hid]
        simp [Ne.symm hi]
      · rw [if_neg hi, if_neg hid']
        exact hs.format i id'
  · intro i b h
    have h : drives i = some b := h
    rw [hdrives] at h
    split at h
    · cases h
    · exact hs.bound i b h
  · intro i fs h
    exact (hmount i fs).mpr (hs.volume i fs h)
  · intro fs h
    exact (hmount _ fs).mpr (hs.mounted fs h)

/-! ### Runs -/

theorem inv_step (s : State) (a : Action) (s' : State) (hs : Inv s) (hG : Unregisters s a)
    (h : step s a = some s') : Inv s' := by
  cases a with
  | bind opened fs geo res =>
    simp only [step] at h
    split at h
    · next hfs =>
      cases h
      apply inv_bind hs
      rintro id rfl
      simpa using hfs
    · cases h
  | unbind fs flags =>
    simp only [step] at h
    split at h
    · next hlive =>
      cases h
      exact inv_unbind hs (hG fs flags rfl hlive)
    · cases h
  | detach fs =>
    simp only [step] at h
    split at h
    · next hfreed =>
      cases h
      have hnot : (s.mounts fs).life ≠ .live := by
        rw [hfreed]
        decide
      have hslot := not_owner_of_not_live hs hnot
      apply inv_setMount hs hslot
      -- a freed mount is not marked as mounted, since it would hold a slot
      by_contra hne
      exact hslot _ (hs.mounted fs (by simpa using hne))
    · cases h
  | checkmount fs geometry =>
    simp only [step] at h
    split at h
    · cases h
      exact (frame_checkmount s (some fs) geometry).inv hs
    · cases h
  | openFile fs filep append zalloc path io =>
    simp only [step] at h
    split at h
    · cases h
      exact (frame_open s fs filep append zalloc path io).inv hs
    · cases h
  | file filep c io =>
    simp only [step] at h
    split at h
    · cases h
    · next f hf =>
      split at h
      · cases h
        exact ((frame_perform s filep f io c).trans (frame_returned ..)).inv hs
      · cases h
  | mkfatfs id geo =>
    simp only [step] at h
    split at h
    · next hid =>
      cases h
      exact inv_mkfatfs hs hid geo
    · cases h
  | formatted id =>
    simp only [step] at h
    split at h
    · cases h
    · next pdrv hid =>
      cases h
      exact inv_formatted hs hid

/-- An unbind that frees a mount and leaves its volume registered. -/
theorem not_registered_step (s : State) (a : Action) (_ : Inv s) (hG : ¬ Unregisters s a) :
    ∃ s', step s a = some s' ∧ ¬ Registered s' := by
  simp only [Unregisters, Classical.not_imp, not_forall, not_not] at hG
  obtain ⟨fs, flags, rfl, hlive, hfrees, hm, hvol⟩ := hG
  refine ⟨_, if_pos hlive, ?_⟩
  have hbusy : ¬ ((s.mounts fs).files ≠ [] ∧ flags &&& MNT_FORCE = 0) := by
    rw [not_and_or, not_not]
    exact hfrees
  have hsame : unmounted s fs = s := if_neg (by rw [hm]; decide)
  rw [unbind_eq, if_neg hbusy, hsame]
  intro hreg
  have hlife := hreg.volume (s.mounts fs).pdrv fs
  dsimp only at hlife
  rw [unregister_eq] at hlife
  have := hlife hvol
  simp at this

/-- In every state that a run goes through the registrations belong to live mounts and running
    formats exactly if its unbinds unregister the volumes of the mounts that they free. -/
theorem registered_iff (tr : List Action) :
    Always step Registered init tr ↔ Meets step Unregisters init tr :=
  always_iff_meets step (fun _ hs => hs.registered) inv_step not_registered_step inv_init

/-- A card of 512-byte sectors that can be written. -/
def card : Geometry := ⟨true, false, true, 512⟩

/-- The card is pulled before the unmount: the volume keeps the freed mount. -/
theorem registered_fails : ¬ ∀ tr : List Action, Always step Registered init tr := by
  intro h
  have halways := h [.bind true (some 0) (some card) .FR_OK, .checkmount 0 [], .unbind 0 0]
  have hreg : Registered _ := ((halways.2 _ rfl).2 _ rfl).2 _ rfl
  have := hreg.volume 0 0 (by decide)
  revert this
  decide

end Hcrtos.Native.Fat32
