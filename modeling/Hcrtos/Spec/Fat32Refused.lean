import Hcrtos.Spec.Fat32Forced

/-!
# Refused unbinds

`fat_unbind` takes the volume and the disk slot away and marks the mount as not mounted before it
looks for open files. When it then refuses because of them, none of this is undone: the mount stays
in place, but every later call on its files fails.

## Key results

- `refused_iff`: when an unbind is refused
- `atomic_iff`: the refused unbinds after which the mount is as before
- `perform_unmounted`: the calls on the files of a mount that is not mounted fail
- `lost_step`, `calls_refused`: they do so for good after a refused unbind
-/

namespace Hcrtos.Native.Fat32

variable {s : State} {fs : MountId} {flags : BitVec 32}

/-- An unbind is refused if there are open files and it is not forced. -/
theorem refused_iff : (fat_unbind s fs flags).1 ≠ OK ↔
    (s.mounts fs).files ≠ [] ∧ flags &&& MNT_FORCE = 0 := by
  unfold fat_unbind
  dsimp only
  split
  · next h =>
    refine iff_of_true ?_ h
    have hbusy : -EBUSY ≠ OK := by decide
    have hnosys : -ENOSYS ≠ OK := by decide
    split
    · exact hnosys
    · exact hbusy
  · next h => exact iff_of_false (fun hne => hne rfl) h

/-- The mount loses its registrations before it is refused. -/
theorem unbind_refused (h : (fat_unbind s fs flags).1 ≠ OK) :
    (fat_unbind s fs flags).2 = unmounted s fs := by
  rw [unbind_eq, if_pos (refused_iff.mp h)]

/-- The return values of calls on open files, one after the other; a file that is not open has
    none. -/
def replies (s : State) : List (FileId × Call × Io) → List (Option Int)
  | [] => []
  | (filep, c, io) :: cs =>
    match s.files filep with
    | none => none :: replies s cs
    | some f =>
      let (ret, s) := c.perform s filep f io
      some ret :: replies s cs

/-- An unbind that is refused leaves the mount usable: its registrations are as before, and later
    calls on open files return what they would have returned. -/
def Atomic (s : State) (fs : MountId) (flags : BitVec 32) : Prop :=
  (fat_unbind s fs flags).1 ≠ OK →
    (fat_unbind s fs flags).2.FatFs = s.FatFs ∧
    (fat_unbind s fs flags).2.FatfsDrives = s.FatfsDrives ∧
    ((fat_unbind s fs flags).2.mounts fs).fs_mounted = (s.mounts fs).fs_mounted ∧
    ∀ cs, replies (fat_unbind s fs flags).2 cs = replies s cs

/-- Only the refusal of an unbind whose mount was lost before leaves everything as it was. -/
theorem atomic_iff (s : State) (fs : MountId) (flags : BitVec 32) :
    Atomic s fs flags ↔
      ¬ ((s.mounts fs).fs_mounted = true ∧ (s.mounts fs).files ≠ [] ∧
        flags &&& MNT_FORCE = 0) := by
  constructor
  · rintro hatomic ⟨hmounted, hrefused⟩
    have h := refused_iff.mpr hrefused
    obtain ⟨-, -, hmark, -⟩ := hatomic h
    rw [unbind_refused h, fs_mounted_unmounted, hmounted] at hmark
    cases hmark
  · intro hlost h
    have hstate : unmounted s fs = s := if_neg fun hm => hlost ⟨hm, refused_iff.mp h⟩
    rw [unbind_refused h, hstate]
    exact ⟨rfl, rfl, rfl, fun _ => rfl⟩

/-- A file is read before and after an unbind that is refused. -/
theorem atomic_fails : ¬ ∀ (tr : List Action) (s : State) (fs : MountId) (flags : BitVec 32),
    Lts.run step init tr = some s → Atomic s fs flags := by
  intro h
  have hmark := (h [.bind true (some 0) (some card) .FR_OK,
    .openFile 0 0 false true true success] _ 0 0 rfl (by decide)).2.2.1
  revert hmark
  decide

/-! ### Calls on a mount that is not mounted -/

theorem checkmount_unmounted {f : File} (h : (s.mounts f.fs).fs_mounted = false)
    (geometry : List (Option Geometry)) :
    (fat_checkmount s (s.i_private f) geometry).1 = -ENODEV := by
  unfold State.i_private
  split
  · have htouch : ((s.touch f.fs).mounts f.fs).fs_mounted = false := h
    unfold fat_checkmount
    dsimp only
    rw [htouch]
    rfl
  · rfl

/-- Every call fails. -/
theorem perform_unmounted {f : File} (h : (s.mounts f.fs).fs_mounted = false) (filep : FileId)
    (c : Call) (io : Io) : (c.perform s filep f io).1 < 0 := by
  have hcheck := checkmount_unmounted h io.geometry
  have hne : -ENODEV ≠ OK := by decide
  have hnodev : -ENODEV < 0 := by decide
  have hpipe : -EPIPE < 0 := by decide
  have hinval : -EINVAL < 0 := by decide
  have hfault : -EFAULT < 0 := by decide
  cases c with
  | read =>
    simp only [Call.perform, fat_read, hcheck, if_pos hne]
    exact hnodev
  | write =>
    simp only [Call.perform, fat_write, hcheck, if_pos hne]
    split
    · exact hpipe
    · exact hnodev
  | seek offset whence =>
    simp only [Call.perform, fat_seek, hcheck, if_pos hne]
    split
    · exact hpipe
    · split
      · exact hinval
      · split
        · exact hinval
        · exact hnodev
  | sync =>
    simp only [Call.perform, fat_sync, hcheck, if_pos hne]
    split
    · exact hpipe
    · exact hnodev
  | fstat buf =>
    simp only [Call.perform, fat_fstat]
    split
    · exact hfault
    · rw [hcheck]
      exact hnodev
  | dup newp malloc =>
    simp only [Call.perform, fat_dup, hcheck, if_pos hne]
    split
    · exact hpipe
    · exact hnodev
  | close =>
    simp only [Call.perform, fat_close, hcheck, if_neg fun h : -ENODEV = OK ∧ _ => hne h.1]
    exact hnodev

/-! ### Runs -/

/-- A mount that was bound and is not mounted. -/
def Lost (s : State) (fs : MountId) : Prop :=
  (s.mounts fs).life ≠ .unused ∧ (s.mounts fs).fs_mounted = false

theorem Frame.lost {s' : State} (h : Frame s s') (hs : Lost s fs) : Lost s' fs := by
  refine ⟨by rw [h.life]; exact hs.1, ?_⟩
  by_contra hm
  have := h.mounted fs (by simpa using hm)
  rw [hs.2] at this
  cases this

theorem mounts_unregister (s : State) (pdrv : Nat) (b : Blkdrv) :
    (s.fatfs_unregister_blkdrv pdrv b).mounts = s.mounts := by
  rw [unregister_eq]

/-- A mount changes no other one. -/
theorem mounts_fat_mount {id : MountId} (h : fs ≠ id) (writeable : Bool) (geo : Option Geometry)
    (res : FRESULT) : (fat_mount s id writeable geo res).2.mounts fs = s.mounts fs := by
  have hset : ∀ (t : State) (m : Mountpt), t.mounts = s.mounts →
      (t.setMount id m).mounts fs = s.mounts fs := by
    intro t m ht
    rw [mounts_setMount, Function.update_of_ne h, ht]
  unfold fat_mount
  dsimp only
  split
  · exact hset s _ rfl
  · split
    · exact hset s _ rfl
    · split
      · exact hset s _ rfl
      · split
        · exact hset s _ rfl
        · split
          · exact hset s _ rfl
          · next i t hreg =>
            obtain ⟨-, -, rfl⟩ := register_some hreg
            split
            · exact hset _ _ (mounts_unregister ..)
            · exact hset _ _ rfl

theorem lost_bind (hs : Lost s fs) {opened : Bool} {id : Option MountId} {geo : Option Geometry}
    {res : FRESULT} (hid : ∀ x, id = some x → (s.mounts x).life = .unused) :
    Lost (fat_bind s opened id geo res).2 fs := by
  unfold fat_bind
  split
  · exact hs
  · cases id with
    | none => exact hs
    | some id =>
      have hne : fs ≠ id := by
        rintro rfl
        exact hs.1 (hid fs rfl)
      have hkeep : (fat_mount (s.setMount id ⟨.live, false, 0, [], false⟩) id true geo res).2.mounts
          fs = s.mounts fs := by
        rw [mounts_fat_mount hne, mounts_setMount, Function.update_of_ne hne]
      unfold Lost
      dsimp only
      split
      · rw [mounts_setMount, Function.update_of_ne hne, hkeep]
        exact hs
      · rw [mounts_setMount, Function.update_of_ne hne, hkeep]
        exact hs

theorem lost_unmounted (s : State) (fs id : MountId) (hs : Lost s fs) :
    Lost (unmounted s id) fs := by
  unfold unmounted Lost
  split
  · rw [mounts_setMount, Function.update_apply, mounts_unregister]
    split
    · next heq => exact ⟨heq ▸ hs.1, rfl⟩
    · exact hs
  · exact hs

theorem lost_unbind (hs : Lost s fs) (id : MountId) (flags : BitVec 32) :
    Lost (fat_unbind s id flags).2 fs := by
  have h := lost_unmounted s fs id hs
  rw [unbind_eq]
  split
  · exact h
  · unfold Lost
    rw [mounts_setMount, Function.update_apply, mounts_unregister]
    have hfreed : Life.freed ≠ .unused := by decide
    split
    · exact ⟨hfreed, fs_mounted_unmounted s id⟩
    · exact h

/-- A mount that is lost is never mounted again. -/
theorem lost_step (s : State) (a : Action) (s' : State) (hs : Lost s fs)
    (h : step s a = some s') : Lost s' fs := by
  cases a with
  | bind opened id geo res =>
    simp only [step] at h
    split at h
    · next hid =>
      cases h
      apply lost_bind hs
      rintro x rfl
      simpa using hid
    · cases h
  | unbind id flags =>
    simp only [step] at h
    split at h
    · cases h
      exact lost_unbind hs id flags
    · cases h
  | detach id =>
    simp only [step] at h
    split at h
    · cases h
      unfold Lost
      rw [mounts_setMount, Function.update_apply]
      split
      · next heq => exact heq ▸ hs
      · exact hs
    · cases h
  | checkmount id geometry =>
    simp only [step] at h
    split at h
    · cases h
      exact (frame_checkmount s (some id) geometry).lost hs
    · cases h
  | openFile id filep append zalloc path io =>
    simp only [step] at h
    split at h
    · cases h
      exact (frame_open s id filep append zalloc path io).lost hs
    · cases h
  | file filep c io =>
    simp only [step] at h
    split at h
    · cases h
    · next f _ =>
      split at h
      · cases h
        exact ((frame_perform s filep f io c).trans (frame_returned ..)).lost hs
      · cases h
  | mkfatfs id geo =>
    simp only [step] at h
    split at h
    · cases h
      unfold mkfatfs
      split
      · exact hs
      · split
        · exact hs
        · split
          · exact hs
          · next i t hreg =>
            obtain ⟨-, -, rfl⟩ := register_some hreg
            exact hs
    · cases h
  | formatted id =>
    simp only [step] at h
    split at h
    · cases h
    · next pdrv _ =>
      cases h
      unfold Lost
      dsimp only
      rw [mounts_unregister]
      exact hs

/-- After an unbind was refused, every call on a file of the mount fails for good. -/
theorem calls_refused (hlife : (s.mounts fs).life = .live)
    (h : (fat_unbind s fs flags).1 ≠ OK) {tr : List Action} {t : State}
    (hrun : Lts.run step (fat_unbind s fs flags).2 tr = some t) {filep : FileId} {f : File}
    (hf : f.fs = fs) (c : Call) (io : Io) : (c.perform t filep f io).1 < 0 := by
  subst hf
  apply perform_unmounted
  refine (Lts.run_invariant step (I := fun s => Lost s f.fs) lost_step ?_ hrun).2
  rw [unbind_refused h]
  refine ⟨?_, fs_mounted_unmounted s f.fs⟩
  rw [(same_unmounted s f.fs).life, hlife]
  decide

end Hcrtos.Native.Fat32
