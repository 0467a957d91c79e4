import Hcrtos.Spec.Fat32Mounts
import Mathlib.Data.List.Induction
import Mathlib.Data.List.Nodup

/-!
# Open files of a mount that was unbound by force

A write, seek, sync or dup looks at the flag of its file before it looks at the mount. A read and a
stat look at the mount first, and a close takes the file out of the list whose head is in the
mount, so these touch the freed mount until the inode is detached from it, and a close may do so
afterwards.

## Key results

- `prev_eq_none`, `next_eq_none`: the files that are next to the head of the list
- `perform_of_live`, `perform_of_freed`: what a call does for a mount that is live or freed
- `fenced_iff`: the runs along which freed mounts are left alone
- `fenced_fails`: a run along which one is read
-/

namespace Hcrtos.Native.Fat32

open Lts

/-- No freed mount was accessed, and all calls but closes have returned errors for the files of
    freed mounts. -/
def Fenced (s : State) : Prop := s.touched = false ∧ s.unfenced = false

/-- For a file of a freed mount, a read, a stat with a buffer and a close wait until the inode is
    detached, and only files between two others are closed. -/
def Detached (s : State) (a : Action) : Prop :=
  ∀ filep c io f, a = .file filep c io → s.files filep = some f →
    (s.mounts f.fs).life = .freed →
      ((c = .read ∨ c = .fstat true ∨ c = .close) → (s.mounts f.fs).i_private = false) ∧
      (c = .close → (s.mounts f.fs).files.head? ≠ some filep ∧
        (s.mounts f.fs).files.getLast? ≠ some filep)

/-- What holds as long as the calls are detached. -/
structure Listed (s : State) : Prop where
  fenced : Fenced s
  mem : ∀ filep f, s.files filep = some f → filep ∈ (s.mounts f.fs).files
  opened : ∀ fs, ∀ ff ∈ (s.mounts fs).files, ∃ f, s.files ff = some f ∧ f.fs = fs
  nodup : ∀ fs, (s.mounts fs).files.Nodup
  forced : ∀ filep f, s.files filep = some f → (s.mounts f.fs).life = .freed →
    f.ff_bflags &&& UMOUNT_FORCED ≠ 0
  unused : ∀ fs, (s.mounts fs).life = .unused → (s.mounts fs).files = []
  attached : ∀ fs, (s.mounts fs).life = .live → (s.mounts fs).i_private = true

variable {s s' s'' : State}

theorem listed_init : Listed init := by
  refine ⟨⟨rfl, rfl⟩, ?_, ?_, fun _ => .nil, ?_, fun _ _ => rfl, ?_⟩
  · intro filep f h
    cases h
  · intro fs ff h
    cases h
  · intro filep f h
    cases h
  · intro fs h
    cases h

/-! ### Neighbours in the list -/

theorem prev_eq_none {m : Mountpt} {ff : FileId} (h : ff ∈ m.files) :
    m.prev ff = none ↔ m.files.head? = some ff := by
  unfold Mountpt.prev
  rw [List.getLast?_eq_none_iff]
  cases hfiles : m.files with
  | nil =>
    rw [hfiles] at h
    cases h
  | cons g gs =>
    by_cases hg : g = ff
    · simp [hg]
    · simp [hg]

theorem next_eq_none {m : Mountpt} (hnodup : m.files.Nodup) {ff : FileId} (h : ff ∈ m.files) :
    m.next ff = none ↔ m.files.getLast? = some ff := by
  unfold Mountpt.next
  obtain ⟨l, r, hfiles, hl⟩ := List.eq_append_cons_of_mem h
  have hdrop : (l ++ ff :: r).dropWhile (· ≠ ff) = ff :: r := by
    rw [List.dropWhile_append_of_pos]
    · simp
    · intro g hg
      exact decide_eq_true fun heq => hl (heq ▸ hg)
  rw [hfiles, hdrop, List.tail_cons]
  rw [hfiles] at hnodup
  have hr : ff ∉ r := (List.nodup_cons.mp (List.nodup_append.mp hnodup).2.1).1
  cases r using List.reverseRecOn with
  | nil => simp
  | append_singleton r g _ =>
    have hne : g ≠ ff := fun heq => hr (heq ▸ List.mem_append_right r List.mem_cons_self)
    have hconcat : l ++ ff :: (r ++ [g]) = l ++ ff :: r ++ [g] := by simp
    rw [hconcat, List.getLast?_concat]
    simp [hne]

/-! ### What leaves the files alone -/

/-- The two states have the same files, lists and history. -/
structure Same (s s' : State) : Prop where
  files : s'.files = s.files
  touched : s'.touched = s.touched
  unfenced : s'.unfenced = s.unfenced
  life : ∀ fs, (s'.mounts fs).life = (s.mounts fs).life
  list : ∀ fs, (s'.mounts fs).files = (s.mounts fs).files
  i_private : ∀ fs, (s'.mounts fs).i_private = (s.mounts fs).i_private

theorem Same.rfl : Same s s :=
  ⟨.refl _, .refl _, .refl _, fun _ => .refl _, fun _ => .refl _, fun _ => .refl _⟩

theorem Same.trans (h : Same s s') (h' : Same s' s'') : Same s s'' where
  files := h'.files.trans h.files
  touched := h'.touched.trans h.touched
  unfenced := h'.unfenced.trans h.unfenced
  life fs := (h'.life fs).trans (h.life fs)
  list fs := (h'.list fs).trans (h.list fs)
  i_private fs := (h'.i_private fs).trans (h.i_private fs)

theorem Same.listed (h : Same s s') (hs : Listed s) : Listed s' := by
  refine ⟨?_, ?_, ?_, ?_, ?_, ?_, ?_⟩
  · exact ⟨h.touched.trans hs.fenced.1, h.unfenced.trans hs.fenced.2⟩
  · intro filep f hf
    rw [h.files] at hf
    rw [h.list]
    exact hs.mem filep f hf
  · intro fs ff hff
    rw [h.list] at hff
    rw [h.files]
    exact hs.opened fs ff hff
  · intro fs
    rw [h.list]
    exact hs.nodup fs
  · intro filep f hf hlife
    rw [h.files] at hf
    rw [h.life] at hlife
    exact hs.forced filep f hf hlife
  · intro fs hlife
    rw [h.life] at hlife
    rw [h.list]
    exact hs.unused fs hlife
  · intro fs hlife
    rw [h.life] at hlife
    rw [h.i_private]
    exact hs.attached fs hlife

/-- A change of the slots and volumes, or of what the files do not depend on. -/
theorem same_of_eq (hfiles : s'.files = s.files) (htouched : s'.touched = s.touched)
    (hunfenced : s'.unfenced = s.unfenced) (hmounts : s'.mounts = s.mounts) : Same s s' := by
  refine ⟨hfiles, htouched, hunfenced, ?_, ?_, ?_⟩ <;> intro fs <;> rw [hmounts]

theorem same_setMount (h : Same s s') (fs : MountId) {m n : Mountpt} (hlife : n.life = m.life)
    (hlist : n.files = m.files) (hpriv : n.i_private = m.i_private) :
    Same (s.setMount fs m) (s'.setMount fs n) := by
  refine ⟨h.files, h.touched, h.unfenced, ?_, ?_, ?_⟩ <;> intro fs' <;>
    rw [mounts_setMount, mounts_setMount] <;> by_cases hfs : fs' = fs
  · rw [hfs, Function.update_self, Function.update_self, hlife]
  · rw [Function.update_of_ne hfs, Function.update_of_ne hfs, h.life]
  · rw [hfs, Function.update_self, Function.update_self, hlist]
  · rw [Function.update_of_ne hfs, Function.update_of_ne hfs, h.list]
  · rw [hfs, Function.update_self, Function.update_self, hpriv]
  · rw [Function.update_of_ne hfs, Function.update_of_ne hfs, h.i_private]

theorem setMount_self (s : State) (fs : MountId) : s.setMount fs (s.mounts fs) = s := by
  simp [State.setMount]

/-- A change of the mark or the slot of a mount. -/
theorem same_mark (s : State) (fs : MountId) {m : Mountpt} (hlife : m.life = (s.mounts fs).life)
    (hlist : m.files = (s.mounts fs).files) (hpriv : m.i_private = (s.mounts fs).i_private) :
    Same s (s.setMount fs m) := by
  have h := same_setMount (s := s) Same.rfl fs hlife hlist hpriv
  rwa [setMount_self] at h

theorem same_touch {fs : MountId} (h : (s.mounts fs).life ≠ .freed) : Same s (s.touch fs) := by
  refine same_of_eq (.refl _) ?_ (.refl _) (.refl _)
  simp [State.touch, h]

theorem same_registers (s : State) (drives : Nat → Option Blkdrv) (volumes : Nat → Option MountId) :
    Same s { s with FatfsDrives := drives, FatFs := volumes } :=
  same_of_eq (.refl _) (.refl _) (.refl _) (.refl _)

theorem same_unregister (s : State) (pdrv : Nat) (b : Blkdrv) :
    Same s (s.fatfs_unregister_blkdrv pdrv b) := by
  rw [unregister_eq]
  exact same_of_eq (.refl _) (.refl _) (.refl _) (.refl _)

/-- A check of a mount that is not freed. -/
theorem same_checkmount {fs : Option MountId} (geometry : List (Option Geometry))
    (h : ∀ id, fs = some id → (s.mounts id).life ≠ .freed) :
    Same s (fat_checkmount s fs geometry).2 := by
  cases fs with
  | none => exact Same.rfl
  | some fs =>
    have htouch := same_touch (h fs rfl)
    unfold fat_checkmount
    dsimp only
    split
    · split
      · exact htouch
      · exact htouch.trans (same_mark _ fs (.refl _) (.refl _) (.refl _))
    · exact htouch

/-! ### Files -/

/-- A file that moves its position. -/
theorem listed_setFile (hs : Listed s) {filep : FileId} {f f' : File}
    (hf : s.files filep = some f) (hfs : f'.fs = f.fs) (hflags : f'.ff_bflags = f.ff_bflags) :
    Listed (s.setFile filep (some f')) := by
  refine ⟨hs.fenced, ?_, ?_, hs.nodup, ?_, hs.unused, hs.attached⟩
  · intro g f'' h
    simp only [State.setFile, Function.update_apply] at h
    split at h
    · next hg =>
      cases h
      rw [hg]
      show filep ∈ (s.mounts f'.fs).files
      rw [hfs]
      exact hs.mem filep f hf
    · exact hs.mem g f'' h
  · intro fs g hg
    obtain ⟨f'', hf'', hfs''⟩ := hs.opened fs g hg
    simp only [State.setFile, Function.update_apply]
    split
    · next heq =>
      rw [heq, hf] at hf''
      cases hf''
      exact ⟨f', rfl, hfs.trans hfs''⟩
    · exact ⟨f'', hf'', hfs''⟩
  · intro g f'' h hlife
    simp only [State.setFile, Function.update_apply] at h
    split at h
    · cases h
      rw [hflags]
      apply hs.forced filep f hf
      rw [← hfs]
      exact hlife
    · exact hs.forced g f'' h hlife

/-- A new file of a live mount. -/
theorem listed_add (hs : Listed s) {fs : MountId} {ff : FileId} {f : File}
    (hnew : s.files ff = none) (hlive : (s.mounts fs).life = .live) (hfs : f.fs = fs) :
    Listed ((s.setFile ff (some f)).list_add_tail fs ff) := by
  have hnotin : ∀ fs', ff ∉ (s.mounts fs').files := by
    intro fs' hmem
    obtain ⟨g, hg, -⟩ := hs.opened fs' ff hmem
    rw [hnew] at hg
    cases hg
  have hlist : ∀ fs', (((s.setFile ff (some f)).list_add_tail fs ff).mounts fs').files =
      if fs' = fs then (s.mounts fs).files ++ [ff] else (s.mounts fs').files := by
    intro fs'
    simp only [State.list_add_tail, mounts_setMount, Function.update_apply]
    split <;> rfl
  have hlife : ∀ fs', (((s.setFile ff (some f)).list_add_tail fs ff).mounts fs').life =
      (s.mounts fs').life := by
    intro fs'
    simp only [State.list_add_tail, mounts_setMount, Function.update_apply]
    split
    · next h => rw [h]; rfl
    · rfl
  have hpriv : ∀ fs', (((s.setFile ff (some f)).list_add_tail fs ff).mounts fs').i_private =
      (s.mounts fs').i_private := by
    intro fs'
    simp only [State.list_add_tail, mounts_setMount, Function.update_apply]
    split
    · next h => rw [h]; rfl
    · rfl
  have hfiles : ((s.setFile ff (some f)).list_add_tail fs ff).files =
      Function.update s.files ff (some f) := rfl
  refine ⟨⟨?_, hs.fenced.2⟩, ?_, ?_, ?_, ?_, ?_, ?_⟩
  · simp [State.list_add_tail, State.touch, State.setFile, State.setMount, hlive, hs.fenced.1]
  · intro g f' h
    rw [hlist]
    rw [hfiles, Function.update_apply] at h
    split at h
    · next hg =>
      cases h
      rw [if_pos hfs, hg]
      exact List.mem_append_right _ List.mem_cons_self
    · have hmem := hs.mem g f' h
      split
      · next heq => exact List.mem_append_left _ (heq ▸ hmem)
      · exact hmem
  · intro fs' g hg
    rw [hlist] at hg
    rw [hfiles, Function.update_apply]
    split at hg
    · next heq =>
      obtain hg | hg := List.mem_append.mp hg
      · have hne : g ≠ ff := fun h => hnotin fs (h ▸ hg)
        rw [if_neg hne, heq]
        exact hs.opened fs g hg
      · rw [if_pos (List.mem_singleton.mp hg)]
        exact ⟨f, rfl, hfs.trans heq.symm⟩
    · have hne : g ≠ ff := fun h => hnotin fs' (h ▸ hg)
      rw [if_neg hne]
      exact hs.opened fs' g hg
  · intro fs'
    rw [hlist]
    split
    · rw [List.nodup_append]
      refine ⟨hs.nodup fs, List.nodup_singleton ff, ?_⟩
      rintro g hg _ hff rfl
      exact hnotin fs (List.mem_singleton.mp hff ▸ hg)
    · exact hs.nodup fs'
  · intro g f' h hfreed
    rw [hlife] at hfreed
    rw [hfiles, Function.update_apply] at h
    split at h
    · cases h
      rw [hfs, hlive] at hfreed
      cases hfreed
    · exact hs.forced g f' h hfreed
  · intro fs' hunused
    rw [hlife] at hunused
    rw [hlist]
    split
    · next heq =>
      rw [heq, hlive] at hunused
      cases hunused
    · exact hs.unused fs' hunused
  · intro fs' hlive'
    rw [hlife] at hlive'
    rw [hpriv]
    exact hs.attached fs' hlive'

/-- A file that is taken out of the list without an access to a freed mount. -/
theorem listed_close (hs : Listed s) {filep : FileId} {f : File} (hf : s.files filep = some f)
    (htouch : (s.mounts f.fs).life = .freed →
      (s.mounts f.fs).prev filep ≠ none ∧ (s.mounts f.fs).next filep ≠ none) :
    Listed ((s.list_del_init f.fs filep).setFile filep none) := by
  -- only the list of the mount changes
  have hkeep : s.list_del_init f.fs filep =
      s.setMount f.fs { s.mounts f.fs with files := (s.mounts f.fs).files.erase filep } := by
    unfold State.list_del_init
    dsimp only
    split
    · next hhead =>
      have hlife : (s.mounts f.fs).life ≠ .freed := by
        intro hfreed
        obtain ⟨hprev, hnext⟩ := htouch hfreed
        exact hhead.elim hprev hnext
      simp [State.touch, hlife, State.setMount]
    · rfl
  have hlist : ∀ fs', (((s.list_del_init f.fs filep).setFile filep none).mounts fs').files =
      (s.mounts fs').files.erase filep := by
    intro fs'
    rw [hkeep]
    show ((s.setMount f.fs _).mounts fs').files = _
    rw [mounts_setMount, Function.update_apply]
    split
    · next heq => rw [heq]
    · next hne =>
      rw [List.erase_of_not_mem]
      intro hmem
      obtain ⟨g, hg, hfs⟩ := hs.opened fs' filep hmem
      rw [hf] at hg
      cases hg
      exact hne hfs.symm
  have hlife : ∀ fs', (((s.list_del_init f.fs filep).setFile filep none).mounts fs').life =
      (s.mounts fs').life := fun fs' => (frame_list_del_init s f.fs filep).life fs'
  have hpriv : ∀ fs', (((s.list_del_init f.fs filep).setFile filep none).mounts fs').i_private =
      (s.mounts fs').i_private := fun fs' => (frame_list_del_init s f.fs filep).i_private fs'
  have hfiles : ((s.list_del_init f.fs filep).setFile filep none).files =
      Function.update s.files filep none := by
    rw [hkeep]
    rfl
  refine ⟨?_, ?_, ?_, ?_, ?_, ?_, ?_⟩
  · rw [hkeep]
    exact hs.fenced
  · intro g f' h
    rw [hfiles, Function.update_apply] at h
    rw [hlist]
    split at h
    · cases h
    · next hne => exact (List.mem_erase_of_ne hne).mpr (hs.mem g f' h)
  · intro fs' g hg
    rw [hlist, (hs.nodup fs').mem_erase_iff] at hg
    rw [hfiles, Function.update_of_ne hg.1]
    exact hs.opened fs' g hg.2
  · intro fs'
    rw [hlist]
    exact (hs.nodup fs').erase filep
  · intro g f' h hfreed
    rw [hlife] at hfreed
    rw [hfiles, Function.update_apply] at h
    split at h
    · cases h
    · exact hs.forced g f' h hfreed
  · intro fs' hunused
    rw [hlife] at hunused
    rw [hlist, hs.unused fs' hunused]
    rfl
  · intro fs' hlive
    rw [hlife] at hlive
    rw [hpriv]
    exact hs.attached fs' hlive

/-! ### Calls -/

theorem perform_of_live (hs : Listed s) {filep : FileId} {f : File} {c : Call} {io : Io}
    (hf : s.files filep = some f) (hfresh : c.fresh s = true)
    (hlive : (s.mounts f.fs).life = .live) : Listed (c.perform s filep f io).2 := by
  have hcheck : Same s (fat_checkmount s (s.i_private f) io.geometry).2 := by
    apply same_checkmount
    intro id hid
    have hid : f.fs = id := by
      unfold State.i_private at hid
      split at hid
      · exact Option.some.inj hid
      · cases hid
    rw [← hid, hlive]
    decide
  have hinv := hcheck.listed hs
  have hlive' := (hcheck.life f.fs).trans hlive
  have hf' : (fat_checkmount s (s.i_private f) io.geometry).2.files filep = some f := by
    rw [hcheck.files]
    exact hf
  cases c with
  | read =>
    simp only [Call.perform, fat_read]
    split
    · exact hinv
    · split
      · exact hinv
      · split
        · exact hinv
        · exact listed_setFile hinv hf' (.refl _) (.refl _)
  | write =>
    simp only [Call.perform, fat_write]
    split
    · exact hs
    · split
      · exact hinv
      · split
        · exact hinv
        · split
          · exact listed_setFile hinv hf' (.refl _) (.refl _)
          · exact listed_setFile hinv hf' (.refl _) (.refl _)
  | seek offset whence =>
    simp only [Call.perform, fat_seek]
    split
    · exact hs
    · split
      · exact hs
      · split
        · exact hs
        · split
          · exact hinv
          · split
            · exact hinv
            · exact listed_setFile hinv hf' (.refl _) (.refl _)
  | sync =>
    simp only [Call.perform, fat_sync]
    split
    · exact hs
    · split
      · exact hinv
      · exact hinv
  | fstat buf =>
    simp only [Call.perform, fat_fstat]
    split
    · exact hs
    · exact hinv
  | dup newp malloc =>
    have hnew : (fat_checkmount s (s.i_private f) io.geometry).2.files newp = none := by
      rw [hcheck.files]
      simpa [Call.fresh] using hfresh
    simp only [Call.perform, fat_dup]
    split
    · exact hs
    · split
      · exact hinv
      · split
        · exact hinv
        · exact listed_add hinv hnew hlive' (.refl _)
  | close =>
    simp only [Call.perform, fat_close]
    apply listed_close hinv hf'
    intro hfreed
    rw [hlive'] at hfreed
    cases hfreed

theorem listed_open (hs : Listed s) {fs : MountId} {filep : FileId} {append zalloc path : Bool}
    {io : Io} (hlive : (s.mounts fs).life = .live) (hnew : s.files filep = none) :
    Listed (fat_open s fs filep append zalloc path io).2 := by
  have hcheck : Same s (fat_checkmount s (some fs) io.geometry).2 := by
    apply same_checkmount
    rintro id hid
    cases hid
    rw [hlive]
    decide
  have hinv := hcheck.listed hs
  unfold fat_open
  dsimp only
  split
  · exact hinv
  · split
    · exact hinv
    · split
      · exact hinv
      · split
        · exact hinv
        · split
          · exact hinv
          · apply listed_add hinv _ ((hcheck.life fs).trans hlive) rfl
            rw [hcheck.files]
            exact hnew

/-- Without the pointer in the inode there is nothing to check. -/
theorem checkmount_detached {f : File} (h : (s.mounts f.fs).i_private = false)
    (geometry : List (Option Geometry)) :
    fat_checkmount s (s.i_private f) geometry = (-ENODEV, s) := by
  have hnone : s.i_private f = none := by simp [State.i_private, h]
  rw [hnone]
  rfl

theorem perform_of_freed (hs : Listed s) {filep : FileId} {f : File} {c : Call} (io : Io)
    (hf : s.files filep = some f) (hfreed : (s.mounts f.fs).life = .freed)
    (hpriv : (c = .read ∨ c = .fstat true ∨ c = .close) → (s.mounts f.fs).i_private = false)
    (hclose : c = .close → (s.mounts f.fs).files.head? ≠ some filep ∧
      (s.mounts f.fs).files.getLast? ≠ some filep) :
    Listed (c.perform s filep f io).2 ∧ (c ≠ .close → (c.perform s filep f io).1 < 0) := by
  have hforced := hs.forced filep f hf hfreed
  cases c with
  | read =>
    have hcheck := checkmount_detached (hpriv (.inl rfl)) io.geometry
    have hread : fat_read s filep f io = (-ENODEV, s) := by
      simp only [fat_read, hcheck]
      exact if_pos (by decide)
    rw [Call.perform, hread]
    exact ⟨hs, fun _ => (by decide : -ENODEV < 0)⟩
  -- these look at the flag first
  | write =>
    simp only [Call.perform, fat_write, if_pos hforced]
    exact ⟨hs, fun _ => by decide⟩
  | seek offset whence =>
    simp only [Call.perform, fat_seek, if_pos hforced]
    exact ⟨hs, fun _ => by decide⟩
  | sync =>
    simp only [Call.perform, fat_sync, if_pos hforced]
    exact ⟨hs, fun _ => by decide⟩
  | dup newp malloc =>
    simp only [Call.perform, fat_dup, if_pos hforced]
    exact ⟨hs, fun _ => by decide⟩
  | fstat buf =>
    cases buf with
    | false => exact ⟨hs, fun _ => (by decide : -EFAULT < 0)⟩
    | true =>
      have hstat : fat_fstat s f true io = (-ENODEV, s) :=
        checkmount_detached (hpriv (.inr (.inl rfl))) io.geometry
      rw [Call.perform, hstat]
      exact ⟨hs, fun _ => (by decide : -ENODEV < 0)⟩
  | close =>
    have hcheck := checkmount_detached (hpriv (.inr (.inr rfl))) io.geometry
    have hmem := hs.mem filep f hf
    obtain ⟨hhead, hlast⟩ := hclose rfl
    simp only [Call.perform, fat_close, hcheck]
    refine ⟨listed_close hs hf fun _ => ⟨?_, ?_⟩, fun h => absurd rfl h⟩
    · exact fun h => hhead ((prev_eq_none hmem).mp h)
    · exact fun h => hlast ((next_eq_none (hs.nodup f.fs) hmem).mp h)

/-- The return value of a call for a freed mount has to be an error. -/
theorem listed_returned (hs : Listed s) {f : File} {c : Call} {ret : Int}
    (h : (s.mounts f.fs).life = .freed → c ≠ .close → ret < 0) :
    Listed (s.returned f c ret) := by
  have hnot : ¬ (c ≠ .close ∧ (s.mounts f.fs).life = .freed ∧ 0 ≤ ret) := by
    rintro ⟨hc, hfreed, hret⟩
    exact absurd (h hfreed hc) (Int.not_lt.mpr hret)
  apply (same_of_eq (.refl _) (.refl _) ?_ (.refl _) : Same s (s.returned f c ret)).listed hs
  simp only [State.returned, decide_eq_false hnot, Bool.or_false]

/-! ### Binds and unbinds -/

/-- A new mount. -/
theorem listed_new (hs : Listed s) {fs : MountId} (hunused : (s.mounts fs).life = .unused)
    {m : Mountpt} (hfiles : m.files = []) (hpriv : m.life = .live → m.i_private = true)
    (hlife : m.life ≠ .unused) : Listed (s.setMount fs m) := by
  -- no file was opened on it
  have hne : ∀ filep f, s.files filep = some f → f.fs ≠ fs := by
    rintro filep f hf rfl
    have hmem := hs.mem filep f hf
    rw [hs.unused f.fs hunused] at hmem
    cases hmem
  refine ⟨hs.fenced, ?_, ?_, ?_, ?_, ?_, ?_⟩
  · intro filep f hf
    rw [mounts_setMount, Function.update_of_ne (hne filep f hf)]
    exact hs.mem filep f hf
  all_goals intro fs'
  · intro ff hff
    rw [mounts_setMount, Function.update_apply] at hff
    split at hff
    · rw [hfiles] at hff
      cases hff
    · exact hs.opened fs' ff hff
  · rw [mounts_setMount, Function.update_apply]
    split
    · rw [hfiles]
      exact .nil
    · exact hs.nodup fs'
  · intro f hf hfreed
    rw [mounts_setMount, Function.update_of_ne (hne fs' f hf)] at hfreed
    exact hs.forced fs' f hf hfreed
  · rw [mounts_setMount, Function.update_apply]
    split
    · exact fun h => absurd h hlife
    · exact hs.unused fs'
  · rw [mounts_setMount, Function.update_apply]
    split
    · exact hpriv
    · exact hs.attached fs'

theorem same_fat_mount (s : State) (fs : MountId) (writeable : Bool) (geo : Option Geometry)
    (res : FRESULT) : Same s (fat_mount s fs writeable geo res).2 := by
  unfold fat_mount
  dsimp only
  split
  · exact same_mark s fs (.refl _) (.refl _) (.refl _)
  · split
    · exact same_mark s fs (.refl _) (.refl _) (.refl _)
    · split
      · exact same_mark s fs (.refl _) (.refl _) (.refl _)
      · split
        · exact same_mark s fs (.refl _) (.refl _) (.refl _)
        · split
          · exact same_mark s fs (.refl _) (.refl _) (.refl _)
          · next i s' hreg =>
            obtain ⟨-, -, rfl⟩ := register_some hreg
            split
            · have hreg : Same s ((({ s with
                  FatfsDrives := Function.update s.FatfsDrives i (some (.mount fs)) }.f_mount
                    fs i).f_unmount i).fatfs_unregister_blkdrv i (.mount fs)) :=
                (same_registers s _ _).trans (same_unregister ..)
              have hmark := same_setMount hreg fs (m := s.mounts fs)
                (n := { s.mounts fs with pdrv := i, fs_mounted := false })
                (.refl _) (.refl _) (.refl _)
              rwa [setMount_self] at hmark
            · have hmark := same_setMount (same_registers s
                (Function.update s.FatfsDrives i (some (.mount fs)))
                (Function.update s.FatFs i (some fs))) fs (m := s.mounts fs)
                (n := { s.mounts fs with pdrv := i, fs_mounted := true })
                (.refl _) (.refl _) (.refl _)
              rwa [setMount_self] at hmark

theorem listed_bind (hs : Listed s) {opened : Bool} {fs : Option MountId} {geo : Option Geometry}
    {res : FRESULT} (hfs : ∀ id, fs = some id → (s.mounts id).life = .unused) :
    Listed (fat_bind s opened fs geo res).2 := by
  unfold fat_bind
  split
  · exact hs
  · cases fs with
    | none => exact hs
    | some fs =>
      have hsame := same_fat_mount (s.setMount fs ⟨.live, false, 0, [], false⟩) fs true geo res
      have hlife := hsame.life fs
      have hlist := hsame.list fs
      have hpriv := hsame.i_private fs
      rw [mounts_setMount, Function.update_self] at hlife hlist hpriv
      dsimp only
      split
      · -- the mount is freed again
        have hnew : Listed (s.setMount fs ⟨.freed, false, 0, [], false⟩) :=
          listed_new hs (hfs fs rfl) rfl (by simp) (by simp)
        have h := same_setMount hsame fs (m := ⟨.freed, false, 0, [], false⟩)
          (n := { (fat_mount (s.setMount fs ⟨.live, false, 0, [], false⟩) fs true geo res).2.mounts
            fs with life := .freed }) rfl hlist hpriv
        simp only [State.setMount, Function.update_idem] at h hnew ⊢
        exact h.listed hnew
      · have hnew : Listed (s.setMount fs ⟨.live, false, 0, [], true⟩) :=
          listed_new hs (hfs fs rfl) rfl (by simp) (by simp)
        have h := same_setMount hsame fs (m := ⟨.live, false, 0, [], true⟩)
          (n := { (fat_mount (s.setMount fs ⟨.live, false, 0, [], false⟩) fs true geo res).2.mounts
            fs with i_private := true }) hlife hlist rfl
        simp only [State.setMount, Function.update_idem] at h hnew ⊢
        exact h.listed hnew

theorem same_unmounted (s : State) (fs : MountId) : Same s (unmounted s fs) := by
  unfold unmounted
  split
  · have hreg : Same s ((s.f_unmount (s.mounts fs).pdrv).fatfs_unregister_blkdrv
        (s.mounts fs).pdrv (.mount fs)) :=
      (same_registers s s.FatfsDrives _).trans (same_unregister ..)
    have hmark := same_setMount hreg fs (m := s.mounts fs)
      (n := { s.mounts fs with fs_mounted := false }) (.refl _) (.refl _) (.refl _)
    rwa [setMount_self] at hmark
  · exact Same.rfl

/-- The files of a mount that is freed have their flag. -/
theorem listed_force (hs : Listed s) (fs : MountId) {m : Mountpt} (hlife : m.life = .freed)
    (hlist : m.files = (s.mounts fs).files) :
    Listed ((s.force (s.mounts fs).files).setMount fs m) := by
  have hmap : ∀ filep f', (s.force (s.mounts fs).files).files filep = some f' →
      ∃ f, s.files filep = some f ∧ f'.fs = f.fs ∧
        (filep ∈ (s.mounts fs).files → f'.ff_bflags = f.ff_bflags ||| UMOUNT_FORCED) ∧
        (filep ∉ (s.mounts fs).files → f' = f) := by
    intro filep f' h
    simp only [State.force] at h
    split at h
    · next hmem =>
      obtain ⟨f, hf, rfl⟩ := Option.map_eq_some_iff.mp h
      exact ⟨f, hf, rfl, fun _ => rfl, fun hnot => absurd hmem hnot⟩
    · next hnot => exact ⟨f', h, rfl, fun hmem => absurd hmem hnot, fun _ => rfl⟩
  have hfiles : ∀ fs', (((s.force (s.mounts fs).files).setMount fs m).mounts fs').files =
      (s.mounts fs').files := by
    intro fs'
    rw [mounts_setMount, Function.update_apply]
    split
    · next heq => rw [hlist, heq]
    · rfl
  refine ⟨hs.fenced, ?_, ?_, ?_, ?_, ?_, ?_⟩
  · intro filep f' h
    obtain ⟨f, hf, hfs, -⟩ := hmap filep f' h
    rw [hfiles, hfs]
    exact hs.mem filep f hf
  · intro fs' ff hff
    rw [hfiles] at hff
    obtain ⟨f, hf, hfs⟩ := hs.opened fs' ff hff
    show ∃ f', (s.force (s.mounts fs).files).files ff = some f' ∧ f'.fs = fs'
    simp only [State.force, hf]
    split
    · exact ⟨_, rfl, hfs⟩
    · exact ⟨f, rfl, hfs⟩
  · intro fs'
    rw [hfiles]
    exact hs.nodup fs'
  · intro filep f' h hfreed
    obtain ⟨f, hf, hfs, hin, hout⟩ := hmap filep f' h
    by_cases hmem : filep ∈ (s.mounts fs).files
    · rw [hin hmem]
      intro hzero
      have hbit := congrArg (fun b : BitVec 8 => b.getLsbD 3) hzero
      simp [UMOUNT_FORCED] at hbit
    · -- the mount of the file is another one
      have hne : f'.fs ≠ fs := by
        intro heq
        apply hmem
        rw [← heq, hfs]
        exact hs.mem filep f hf
      rw [mounts_setMount, Function.update_of_ne hne] at hfreed
      have := hout hmem
      subst this
      exact hs.forced filep f' hf hfreed
  · intro fs' hunused
    rw [hfiles]
    rw [mounts_setMount, Function.update_apply] at hunused
    split at hunused
    · rw [hlife] at hunused
      cases hunused
    · exact hs.unused fs' hunused
  · intro fs' hlive'
    rw [mounts_setMount, Function.update_apply] at hlive' ⊢
    split at hlive'
    · rw [hlife] at hlive'
      cases hlive'
    · next hne =>
      rw [if_neg hne]
      exact hs.attached fs' hlive'

theorem listed_unbind (hs : Listed s) (fs : MountId) (flags : BitVec 32) :
    Listed (fat_unbind s fs flags).2 := by
  have hsame := same_unmounted s fs
  have hinv := hsame.listed hs
  rw [unbind_eq]
  split
  · exact hinv
  · have hfreed := listed_force hinv fs
      (m := { (unmounted s fs).mounts fs with life := .freed }) rfl rfl
    have hlist := hsame.list fs
    rw [hlist] at hfreed
    dsimp only
    rw [unregister_eq]
    apply Same.listed _ hfreed
    apply same_setMount
    · exact same_registers _ _ _
    all_goals rfl

/-! ### Runs -/

theorem listed_step (s : State) (a : Action) (s' : State) (hs : Listed s) (hG : Detached s a)
    (h : step s a = some s') : Listed s' := by
  cases a with
  | bind opened fs geo res =>
    simp only [step] at h
    split at h
    · next hfs =>
      cases h
      apply listed_bind hs
      rintro id rfl
      simpa using hfs
    · cases h
  | unbind fs flags =>
    simp only [step] at h
    split at h
    · cases h
      exact listed_unbind hs fs flags
    · cases h
  | detach fs =>
    simp only [step] at h
    split at h
    · next hfreed =>
      cases h
      refine ⟨hs.fenced, ?_, ?_, ?_, ?_, ?_, ?_⟩
      -- the inode matters to live mounts only
      all_goals simp only [mounts_setMount, Function.update_apply]
      · intro filep f hf
        have hmem := hs.mem filep f hf
        split
        · next heq => exact heq ▸ hmem
        · exact hmem
      · intro fs' ff hff
        apply hs.opened fs' ff
        split at hff
        · next heq => exact heq ▸ hff
        · exact hff
      · intro fs'
        split
        · exact hs.nodup fs
        · exact hs.nodup fs'
      · intro filep f hf hlife
        apply hs.forced filep f hf
        split at hlife
        · next heq => rw [heq]; exact hlife
        · exact hlife
      · intro fs' hunused
        split at hunused
        · rw [if_pos ‹_›]
          exact hs.unused fs hunused
        · rw [if_neg ‹_›]
          exact hs.unused fs' hunused
      · intro fs' hlive
        split at hlive
        · next heq =>
          rw [hfreed] at hlive
          cases hlive
        · rw [if_neg ‹_›]
          exact hs.attached fs' hlive
    · cases h
  | checkmount fs geometry =>
    simp only [step] at h
    split at h
    · next hlive =>
      cases h
      apply (same_checkmount geometry _).listed hs
      rintro id hid
      cases hid
      rw [hlive]
      decide
    · cases h
  | openFile fs filep append zalloc path io =>
    simp only [step] at h
    split at h
    · next hopen =>
      cases h
      exact listed_open hs hopen.1 hopen.2
    · cases h
  | file filep c io =>
    simp only [step] at h
    split at h
    · cases h
    · next f hf =>
      split at h
      · next hfresh =>
        cases h
        have hlife := (frame_perform s filep f io c).life f.fs
        cases hcase : (s.mounts f.fs).life with
        | unused =>
          have hmem := hs.mem filep f hf
          rw [hs.unused f.fs hcase] at hmem
          cases hmem
        | live =>
          apply listed_returned (perform_of_live hs hf hfresh hcase)
          intro hfreed
          rw [hlife, hcase] at hfreed
          cases hfreed
        | freed =>
          obtain ⟨hpriv, hclose⟩ := hG filep c io f rfl hf hcase
          obtain ⟨hinv, herr⟩ := perform_of_freed hs io hf hcase hpriv hclose
          exact listed_returned hinv fun _ => herr
      · cases h
  | mkfatfs id geo =>
    simp only [step] at h
    split at h
    · cases h
      apply Same.listed _ hs
      unfold mkfatfs
      split
      · exact Same.rfl
      · split
        · exact Same.rfl
        · split
          · exact Same.rfl
          · next i s' hreg =>
            obtain ⟨-, -, rfl⟩ := register_some hreg
            exact same_of_eq (.refl _) (.refl _) (.refl _) (.refl _)
    · cases h
  | formatted id =>
    simp only [step] at h
    split at h
    · cases h
    · next pdrv hid =>
      cases h
      apply Same.listed _ ((same_unregister s pdrv (.format id)).listed hs)
      exact same_of_eq (.refl _) (.refl _) (.refl _) (.refl _)

/-- A check through the inode accesses the mount. -/
theorem touched_checkmount {f : File} (hfreed : (s.mounts f.fs).life = .freed)
    (hpriv : (s.mounts f.fs).i_private = true) (geometry : List (Option Geometry)) :
    (fat_checkmount s (s.i_private f) geometry).2.touched = true := by
  have hsome : s.i_private f = some f.fs := if_pos hpriv
  have htouch : (s.touch f.fs).touched = true := by simp [State.touch, hfreed]
  rw [hsome]
  unfold fat_checkmount
  dsimp only
  split
  · split
    · exact htouch
    · exact htouch
  · exact htouch

/-- What was touched stays so when a file is taken out of its list. -/
theorem touched_list_del_init {fs : MountId} {ff : FileId} (h : s.touched = true) :
    (s.list_del_init fs ff).touched = true := by
  unfold State.list_del_init
  dsimp only
  split
  · simp [State.touch, State.setMount, h]
  · exact h

/-- A call that is not detached accesses a freed mount. -/
theorem not_fenced_step (s : State) (a : Action) (hs : Listed s) (hG : ¬ Detached s a) :
    ∃ s', step s a = some s' ∧ ¬ Fenced s' := by
  simp only [Detached, not_forall] at hG
  obtain ⟨filep, c, io, f, rfl, hf, hfreed, hcall⟩ := hG
  suffices h : c.fresh s = true ∧ (c.perform s filep f io).2.touched = true by
    refine ⟨(c.perform s filep f io).2.returned f c (c.perform s filep f io).1, ?_, ?_⟩
    · simp only [step, hf, if_pos h.1]
    · intro hfenced
      have hnot : (c.perform s filep f io).2.touched = false := hfenced.1
      rw [h.2] at hnot
      cases hnot
  by_cases hpriv : (s.mounts f.fs).i_private = true
  · have htouch := touched_checkmount hfreed hpriv io.geometry
    have hc : c = .read ∨ c = .fstat true ∨ c = .close := by
      by_contra hno
      exact hcall ⟨fun h => absurd h hno, fun h => absurd (.inr (.inr h)) hno⟩
    obtain rfl | rfl | rfl := hc
    · refine ⟨rfl, ?_⟩
      simp only [Call.perform, fat_read]
      split
      · exact htouch
      · split
        · exact htouch
        · split
          · exact htouch
          · exact htouch
    · exact ⟨rfl, htouch⟩
    · exact ⟨rfl, touched_list_del_init htouch⟩
  · -- the file that is closed is next to the head of the list
    have hpriv : (s.mounts f.fs).i_private = false := by simpa using hpriv
    have hc : c = .close ∧ ¬ ((s.mounts f.fs).files.head? ≠ some filep ∧
        (s.mounts f.fs).files.getLast? ≠ some filep) := by
      rw [not_and_or] at hcall
      obtain hno | hends := hcall
      · exact absurd (fun _ => hpriv) hno
      · exact Classical.not_imp.mp hends
    obtain ⟨rfl, hends⟩ := hc
    refine ⟨rfl, ?_⟩
    have hmem := hs.mem filep f hf
    have hhead : (s.mounts f.fs).prev filep = none ∨ (s.mounts f.fs).next filep = none := by
      rw [prev_eq_none hmem, next_eq_none (hs.nodup f.fs) hmem]
      rw [not_and_or, not_not, not_not] at hends
      exact hends
    simp only [Call.perform, fat_close, checkmount_detached hpriv, State.list_del_init,
      if_pos hhead]
    simp [State.setFile, State.setMount, State.touch, hfreed]

/-- The freed mounts are left alone along a run exactly if its calls are detached. -/
theorem fenced_iff (tr : List Action) :
    Always step Fenced init tr ↔ Meets step Detached init tr :=
  always_iff_meets step (fun _ hs => hs.fenced) listed_step not_fenced_step listed_init

/-- All calls outside succeed. -/
def success : Io := ⟨[some card], .FR_OK, 0, .FR_OK, 0, 0, 0⟩

/-- A read after an unmount by force. -/
theorem fenced_fails : ¬ ∀ tr : List Action, Always step Fenced init tr := by
  intro h
  have halways := h [.bind true (some 0) (some card) .FR_OK,
    .openFile 0 0 false true true success, .unbind 0 MNT_FORCE, .file 0 .read success]
  have hfenced : Fenced _ := (((halways.2 _ rfl).2 _ rfl).2 _ rfl).2 _ rfl
  have := hfenced.1
  revert this
  decide

end Hcrtos.Native.Fat32
