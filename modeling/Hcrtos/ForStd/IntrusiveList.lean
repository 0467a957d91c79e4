import Mathlib.Data.Set.Basic
import Hcrtos.ForStd.Memory

/-!
# Doubly linked lists in memory

A node is a pair of words, `next` at its address and `prev` behind it. A list hangs off a head
node and ends with a null pointer; the head has no use for its `prev` word.

Writes to one node must not reach into another. `Cells A` says so for a set `A` of addresses,
and under it the memory reads like a pair of functions on `A`.

## Key results

- `dlist_insertAfter`: linking a node behind a given one
- `dlist_unlink`: cutting out consecutive nodes
- `dlist_walk`: following the links
-/

namespace Hcrtos.IntrusiveList

open Memory

def next (m : Mem) (a : Nat) : Nat := load32 m a

def prev (m : Mem) (a : Nat) : Nat := load32 m (a + 4)

def setNext (m : Mem) (a v : Nat) : Mem := store32 m a v

def setPrev (m : Mem) (a v : Nat) : Mem := store32 m (a + 4) v

/-- Addresses of nodes: they are not null, and no two nodes overlap. -/
structure Cells (A : Set Nat) : Prop where
  pos : ∀ u ∈ A, u ≠ 0
  lt : ∀ u ∈ A, u < 2 ^ 32
  apart : ∀ u ∈ A, ∀ v ∈ A, u ≠ v → u + 8 ≤ v ∨ v + 8 ≤ u

section Cells

variable {A : Set Nat} (hA : Cells A) {m : Mem} {u v w : Nat}
include hA

theorem Cells.next_setNext (hu : u ∈ A) (hv : v ∈ A) (hw : w < 2 ^ 32) :
    next (setNext m v w) u = if u = v then w else next m u := by
  split
  · next h => subst h; exact load32_store32_self hw
  · next h =>
    have := hA.apart u hu v hv h
    exact load32_store32_of_disjoint (by omega)

theorem Cells.next_setPrev (hu : u ∈ A) (hv : v ∈ A) : next (setPrev m v w) u = next m u := by
  apply load32_store32_of_disjoint
  by_cases h : u = v
  · omega
  · have := hA.apart u hu v hv h
    omega

theorem Cells.prev_setNext (hu : u ∈ A) (hv : v ∈ A) : prev (setNext m v w) u = prev m u := by
  apply load32_store32_of_disjoint
  by_cases h : u = v
  · omega
  · have := hA.apart u hu v hv h
    omega

theorem Cells.prev_setPrev (hu : u ∈ A) (hv : v ∈ A) (hw : w < 2 ^ 32) :
    prev (setPrev m v w) u = if u = v then w else prev m u := by
  split
  · next h => subst h; exact load32_store32_self hw
  · next h =>
    have := hA.apart u hu v hv h
    exact load32_store32_of_disjoint (by omega)

end Cells

/-- The list at the head `h` has the nodes `xs`. -/
def DList (m : Mem) : Nat → List Nat → Prop
  | h, [] => next m h = 0
  | h, x :: xs => next m h = x ∧ prev m x = h ∧ DList m x xs

/-- The node behind the first `xs` nodes of a list. -/
def lastOf (h : Nat) (xs : List Nat) : Nat := xs.getLastD h

@[simp] theorem lastOf_nil (h : Nat) : lastOf h [] = h := rfl

@[simp] theorem lastOf_cons (h x : Nat) (xs : List Nat) : lastOf h (x :: xs) = lastOf x xs := by
  cases xs <;> rfl

theorem lastOf_mem (h : Nat) (xs : List Nat) : lastOf h xs ∈ h :: xs := by
  induction xs generalizing h with
  | nil => simp
  | cons x xs ih =>
    rw [lastOf_cons]
    exact List.mem_cons_of_mem _ (ih x)

/-- A list is made of the `next` words of all nodes and the `prev` words of all but the head. -/
theorem DList.congr {m m' : Mem} {h : Nat} {xs : List Nat} (hl : DList m h xs)
    (hnext : ∀ u ∈ h :: xs, next m' u = next m u) (hprev : ∀ u ∈ xs, prev m' u = prev m u) :
    DList m' h xs := by
  induction xs generalizing h with
  | nil => exact (hnext h (by simp)).trans hl
  | cons x xs ih =>
    obtain ⟨hx, hxp, htail⟩ := hl
    refine ⟨(hnext h (by simp)).trans hx, (hprev x (by simp)).trans hxp, ih htail ?_ ?_⟩
    · intro u hu
      exact hnext u (List.mem_cons_of_mem _ hu)
    · intro u hu
      exact hprev u (List.mem_cons_of_mem _ hu)

/-- The links from `h` through `xs`, in both directions. -/
def Path (m : Mem) : Nat → List Nat → Prop
  | _, [] => True
  | h, x :: xs => next m h = x ∧ prev m x = h ∧ Path m x xs

/-- A list is a path through its first nodes with the list of the others behind it. -/
theorem dlist_append {m : Mem} {h : Nat} {xs ys : List Nat} :
    DList m h (xs ++ ys) ↔ Path m h xs ∧ DList m (lastOf h xs) ys := by
  induction xs generalizing h with
  | nil => simp [Path]
  | cons x xs ih =>
    rw [lastOf_cons]
    show (_ ∧ _ ∧ DList m x (xs ++ ys)) ↔ (_ ∧ _ ∧ Path m x xs) ∧ _
    rw [ih]
    tauto

theorem DList.drop {m : Mem} {h : Nat} {xs ys : List Nat} (hl : DList m h (xs ++ ys)) :
    DList m (lastOf h xs) ys :=
  (dlist_append.mp hl).2

/-- A path has no use for the `next` word of its last node. -/
theorem Path.congr {m m' : Mem} {h : Nat} {xs : List Nat} (hp : Path m h xs)
    (hnodup : (h :: xs).Nodup)
    (hnext : ∀ u ∈ h :: xs, u ≠ lastOf h xs → next m' u = next m u)
    (hprev : ∀ u ∈ xs, prev m' u = prev m u) : Path m' h xs := by
  induction xs generalizing h with
  | nil => trivial
  | cons x xs ih =>
    obtain ⟨hx, hxp, htail⟩ := hp
    rw [lastOf_cons] at hnext
    have hne : h ≠ lastOf x xs := by
      rintro rfl
      exact (List.nodup_cons.mp hnodup).1 (lastOf_mem x xs)
    refine ⟨(hnext h (by simp) hne).trans hx, (hprev x (by simp)).trans hxp,
      ih htail hnodup.of_cons ?_ ?_⟩
    · intro u hu
      exact hnext u (List.mem_cons_of_mem _ hu)
    · intro u hu
      exact hprev u (List.mem_cons_of_mem _ hu)

theorem DList.next_eq {m : Mem} {h : Nat} {xs : List Nat} (hl : DList m h xs) :
    next m h = xs.headD 0 := by
  cases xs with
  | nil => exact hl
  | cons x xs => exact hl.1

theorem DList.prev_eq {m : Mem} {h x : Nat} {xs ys : List Nat} (hl : DList m h (xs ++ x :: ys)) :
    prev m x = lastOf h xs :=
  hl.drop.2.1

/-- `k` times `p = p->next`. -/
def walk (m : Mem) : Nat → Nat → Nat
  | 0, a => a
  | k + 1, a => walk m k (next m a)

/-- One step more than there are nodes in `xs` leads behind them. -/
theorem dlist_walk {m : Mem} {h : Nat} {xs ys : List Nat} (hl : DList m h (xs ++ ys)) :
    walk m (xs.length + 1) h = ys.headD 0 := by
  induction xs generalizing h with
  | nil => exact hl.next_eq
  | cons x xs ih =>
    obtain ⟨hx, -, htail⟩ := hl
    show walk m (xs.length + 1) (next m h) = _
    rw [hx]
    exact ih htail

/-! ### Linking a node in -/

/-- Links the node `x` behind the node `y`. -/
def insertAfter (m : Mem) (y x : Nat) : Mem :=
  let m := setNext m x (next m y)
  let m := setPrev m x y
  let m := setNext m y x
  if next m x ≠ 0 then setPrev m (next m x) x else m

section

variable {A : Set Nat} (hA : Cells A) {m : Mem} {x y u : Nat}
include hA

/-- The `next` words after linking `x` behind `y`. -/
theorem Cells.next_insertAfter (hx : x ∈ A) (hy : y ∈ A) (hn : next m y ≠ 0 → next m y ∈ A)
    (hxy : x ≠ y) (hu : u ∈ A) :
    next (insertAfter m y x) u = if u = y then x else if u = x then next m y else next m u := by
  have hx32 := hA.lt x hx
  have hn32 : next m y < 2 ^ 32 := by
    by_cases h : next m y = 0
    · omega
    · exact hA.lt _ (hn h)
  have hself : next (setNext (setPrev (setNext m x (next m y)) x y) y x) x = next m y := by
    rw [hA.next_setNext hx hy hx32, if_neg hxy, hA.next_setPrev hx hx,
      hA.next_setNext hx hx hn32, if_pos rfl]
  have hbase : next (setNext (setPrev (setNext m x (next m y)) x y) y x) u =
      if u = y then x else if u = x then next m y else next m u := by
    rw [hA.next_setNext hu hy hx32, hA.next_setPrev hu hx, hA.next_setNext hu hx hn32]
  unfold insertAfter
  simp only [hself]
  split
  · next h => rw [hA.next_setPrev hu (hn h), hbase]
  · exact hbase

/-- The `prev` words after linking `x` behind `y`. -/
theorem Cells.prev_insertAfter (hx : x ∈ A) (hy : y ∈ A) (hn : next m y ≠ 0 → next m y ∈ A)
    (hxy : x ≠ y) (hu : u ∈ A) :
    prev (insertAfter m y x) u =
      if u = next m y then x else if u = x then y else prev m u := by
  have hx32 := hA.lt x hx
  have hy32 := hA.lt y hy
  have hn32 : next m y < 2 ^ 32 := by
    by_cases h : next m y = 0
    · omega
    · exact hA.lt _ (hn h)
  have hself : next (setNext (setPrev (setNext m x (next m y)) x y) y x) x = next m y := by
    rw [hA.next_setNext hx hy hx32, if_neg hxy, hA.next_setPrev hx hx,
      hA.next_setNext hx hx hn32, if_pos rfl]
  have hbase : prev (setNext (setPrev (setNext m x (next m y)) x y) y x) u =
      if u = x then y else prev m u := by
    rw [hA.prev_setNext hu hy, hA.prev_setPrev hu hx hy32, hA.prev_setNext hu hx]
  unfold insertAfter
  simp only [hself]
  split
  · next h => rw [hA.prev_setPrev hu (hn h) hx32, hbase]
  · next h =>
    have hu0 := hA.pos u hu
    rw [hbase, if_neg (show u ≠ next m y by omega)]

end

/-- Linking a node in writes to three nodes only. -/
theorem Cells.insertAfter_apply {A : Set Nat} (hA : Cells A) {m : Mem} {x y a : Nat} (hx : x ∈ A)
    (hy : y ∈ A) (hn : next m y ≠ 0 → next m y ∈ A) (hxy : x ≠ y)
    (hout : ∀ u, u = x ∨ u = y ∨ (u = next m y ∧ u ≠ 0) → a < u ∨ u + 8 ≤ a) :
    insertAfter m y x a = m a := by
  have hx32 := hA.lt x hx
  have hn32 : next m y < 2 ^ 32 := by
    by_cases h : next m y = 0
    · omega
    · exact hA.lt _ (hn h)
  have hself : next (setNext (setPrev (setNext m x (next m y)) x y) y x) x = next m y := by
    rw [hA.next_setNext hx hy hx32, if_neg hxy, hA.next_setPrev hx hx,
      hA.next_setNext hx hx hn32, if_pos rfl]
  have houtx := hout x (.inl rfl)
  have houty := hout y (.inr (.inl rfl))
  have hbase : setNext (setPrev (setNext m x (next m y)) x y) y x a = m a := by
    unfold setNext setPrev
    rw [store32_apply_of_outside (by omega), store32_apply_of_outside (by omega),
      store32_apply_of_outside (by omega)]
  unfold insertAfter
  simp only [hself]
  split
  · next h =>
    have houtn := hout (next m y) (.inr (.inr ⟨rfl, h⟩))
    unfold setPrev at hbase ⊢
    rw [store32_apply_of_outside (by omega)]
    exact hbase
  · exact hbase

/-- A node that is linked in behind the first nodes of a list. -/
theorem dlist_insertAfter {A : Set Nat} (hA : Cells A) {m : Mem} {h x : Nat} {xs ys : List Nat}
    (hl : DList m h (xs ++ ys)) (hmem : ∀ u ∈ x :: h :: (xs ++ ys), u ∈ A)
    (hnodup : (x :: h :: (xs ++ ys)).Nodup) :
    DList (insertAfter m (lastOf h xs) x) h (xs ++ x :: ys) := by
  obtain ⟨hpath, hrest⟩ := dlist_append.mp hl
  have hlast : lastOf h xs ∈ h :: xs := lastOf_mem h xs
  have hsplit : (h :: xs ++ ys).Nodup := hnodup.of_cons
  have hxnot : x ∉ h :: xs ++ ys := (List.nodup_cons.mp hnodup).1
  have hmem' : ∀ u ∈ h :: xs ++ ys, u ∈ A := fun u hu => hmem u (List.mem_cons_of_mem _ hu)
  have hapart : ∀ u ∈ h :: xs, ∀ v ∈ ys, u ≠ v := (List.nodup_append.mp hsplit).2.2
  generalize hyd : lastOf h xs = y at *
  have hx : x ∈ A := hmem x (by simp)
  have hy : y ∈ A := hmem' y (List.mem_append_left _ hlast)
  have hxy : x ≠ y := by
    rintro rfl
    exact hxnot (List.mem_append_left _ hlast)
  have hn : next m y ≠ 0 → next m y ∈ A := by
    rw [hrest.next_eq]
    cases ys with
    | nil => simp
    | cons z ys => exact fun _ => hmem' z (by simp)
  have hnext := fun u hu => hA.next_insertAfter (m := m) (u := u) hx hy hn hxy hu
  have hprev := fun u hu => hA.prev_insertAfter (m := m) (u := u) hx hy hn hxy hu
  have hfresh : ∀ u ∈ h :: xs ++ ys, u ≠ x := fun u hu hux => hxnot (hux ▸ hu)
  have hne : ∀ u ∈ h :: xs, u ≠ next m y := by
    rw [hrest.next_eq]
    cases ys with
    | nil => exact fun u hu => hA.pos u (hmem' u (List.mem_append_left _ hu))
    | cons z ys => exact fun u hu => hapart u hu z (by simp)
  rw [dlist_append, hyd]
  constructor
  · -- Up to `y` only its own `next` word changes.
    apply hpath.congr (List.nodup_append.mp hsplit).1
    · intro u hu huy
      have huA := List.mem_append_left ys hu
      rw [hnext u (hmem' u huA), if_neg (hyd ▸ huy), if_neg (hfresh u huA)]
    · intro u hu
      have huA : u ∈ h :: xs ++ ys := List.mem_append_left ys (List.mem_cons_of_mem _ hu)
      rw [hprev u (hmem' u huA), if_neg (hne u (List.mem_cons_of_mem _ hu)),
        if_neg (hfresh u huA)]
  · refine ⟨by rw [hnext y hy, if_pos rfl], ?_, ?_⟩
    · have hxn : x ≠ next m y := by
        rw [hrest.next_eq]
        cases ys with
        | nil => exact hA.pos x hx
        | cons z ys => exact fun h => hfresh z (by simp) h.symm
      rw [hprev x hx, if_neg hxn, if_pos rfl]
    · have hnextx : next (insertAfter m y x) x = next m y := by rw [hnext x hx, if_neg hxy, if_pos rfl]
      cases ys with
      | nil => exact hnextx.trans hrest
      | cons z ys =>
        obtain ⟨hz, hzp, htail⟩ := hrest
        have hzA : z ∈ A := hmem' z (by simp)
        refine ⟨hnextx.trans hz, by rw [hprev z hzA, if_pos hz.symm], htail.congr ?_ ?_⟩
        · intro u hu
          have huA : u ∈ h :: xs ++ z :: ys := List.mem_append_right _ hu
          rw [hnext u (hmem' u huA), if_neg (fun huy => hapart y hlast u hu huy.symm),
            if_neg (hfresh u huA)]
        · intro u hu
          have huA : u ∈ h :: xs ++ z :: ys :=
            List.mem_append_right _ (List.mem_cons_of_mem _ hu)
          have huz : u ≠ z := by
            rintro rfl
            exact (List.nodup_cons.mp (List.nodup_append.mp hsplit).2.1).1 hu
          rw [hprev u (hmem' u huA), hz, if_neg huz, if_neg (hfresh u huA)]

/-- Linking a node in leaves the other lists alone. -/
theorem DList.insertAfter_other {A : Set Nat} (hA : Cells A) {m : Mem} {h x y : Nat} {zs : List Nat}
    (hl : DList m h zs) (hmem : ∀ u ∈ h :: zs, u ∈ A) (hx : x ∈ A) (hy : y ∈ A)
    (hn : next m y ≠ 0 → next m y ∈ A) (hxy : x ≠ y) (hxz : x ∉ h :: zs) (hyz : y ∉ h :: zs)
    (hnz : next m y ∉ zs) : DList (insertAfter m y x) h zs := by
  have hne : ∀ u ∈ h :: zs, u ≠ x ∧ u ≠ y := fun u hu =>
    ⟨fun hux => hxz (hux ▸ hu), fun huy => hyz (huy ▸ hu)⟩
  apply hl.congr
  · intro u hu
    rw [hA.next_insertAfter hx hy hn hxy (hmem u hu), if_neg (hne u hu).2, if_neg (hne u hu).1]
  · intro u hu
    have hu' := List.mem_cons_of_mem h hu
    have hun : u ≠ next m y := fun hun => hnz (hun ▸ hu)
    rw [hA.prev_insertAfter hx hy hn hxy (hmem u hu'), if_neg hun, if_neg (hne u hu').1]

/-! ### Cutting nodes out -/

/-- Cuts out the nodes from `x` up to the one before `after`, which may be null. -/
def unlink (m : Mem) (x after : Nat) : Mem :=
  let m := setNext m (prev m x) after
  if after ≠ 0 then setPrev m after (prev m x) else m

section

variable {A : Set Nat} (hA : Cells A) {m : Mem} {x after u : Nat}
include hA

/-- The `next` words after cutting out the nodes from `x` up to `after`. -/
theorem Cells.next_unlink (hp : prev m x ∈ A) (ha : after ≠ 0 → after ∈ A) (hu : u ∈ A) :
    next (unlink m x after) u = if u = prev m x then after else next m u := by
  have ha32 : after < 2 ^ 32 := by
    by_cases h : after = 0
    · omega
    · exact hA.lt _ (ha h)
  unfold unlink
  split
  · next h => rw [hA.next_setPrev hu (ha h), hA.next_setNext hu hp ha32]
  · rw [hA.next_setNext hu hp ha32]

/-- The `prev` words after cutting out the nodes from `x` up to `after`. -/
theorem Cells.prev_unlink (hx : x ∈ A) (hp : prev m x ∈ A) (ha : after ≠ 0 → after ∈ A)
    (hu : u ∈ A) : prev (unlink m x after) u = if u = after then prev m x else prev m u := by
  unfold unlink
  split
  · next h =>
    dsimp only
    rw [hA.prev_setNext hx hp, hA.prev_setPrev hu (ha h) (hA.lt _ hp), hA.prev_setNext hu hp]
  · next h =>
    have hu0 := hA.pos u hu
    rw [hA.prev_setNext hu hp, if_neg (by omega)]

end

/-- A list without some of its nodes. -/
theorem dlist_unlink {A : Set Nat} (hA : Cells A) {m : Mem} {h x : Nat} {xs run ys : List Nat}
    (hl : DList m h (xs ++ (x :: run ++ ys))) (hmem : ∀ u ∈ h :: (xs ++ (x :: run ++ ys)), u ∈ A)
    (hnodup : (h :: (xs ++ (x :: run ++ ys))).Nodup) :
    DList (unlink m x (ys.headD 0)) h (xs ++ ys) := by
  obtain ⟨hpath, hrest⟩ := dlist_append.mp hl
  have hprevx : prev m x = lastOf h xs := hrest.2.1
  have hys : DList m (lastOf x run) ys := hrest.2.2.drop
  have hlast : lastOf h xs ∈ h :: xs := lastOf_mem h xs
  have hsplit : (h :: xs ++ (x :: run ++ ys)).Nodup := hnodup
  have hsplit' : (x :: run ++ ys).Nodup := (List.nodup_append.mp hsplit).2.1
  have hmem' : ∀ u ∈ h :: xs ++ (x :: run ++ ys), u ∈ A := hmem
  have hapart : ∀ u ∈ h :: xs, ∀ v ∈ ys, u ≠ v := fun u hu v hv =>
    (List.nodup_append.mp hsplit).2.2 u hu v (List.mem_append_right _ hv)
  have hp : prev m x ∈ A := hprevx ▸ hmem' _ (List.mem_append_left _ hlast)
  have ha : ys.headD 0 ≠ 0 → ys.headD 0 ∈ A := by
    cases ys with
    | nil => simp
    | cons z ys => exact fun _ => hmem' z (by simp)
  have hne : ∀ u ∈ h :: xs, u ≠ ys.headD 0 := by
    cases ys with
    | nil => exact fun u hu => hA.pos u (hmem' u (List.mem_append_left _ hu))
    | cons z ys => exact fun u hu => hapart u hu z (by simp)
  have hnext := fun u hu => hA.next_unlink (m := m) (u := u) hp ha hu
  have hprev := fun u hu => hA.prev_unlink (m := m) (u := u) (hmem' x (by simp)) hp ha hu
  generalize hafter : ys.headD 0 = after at *
  rw [hprevx] at hnext hprev
  rw [dlist_append]
  constructor
  · apply hpath.congr (List.nodup_append.mp hsplit).1
    · intro u hu hul
      rw [hnext u (hmem' u (List.mem_append_left _ hu)), if_neg hul]
    · intro u hu
      rw [hprev u (hmem' u (List.mem_append_left _ (List.mem_cons_of_mem _ hu))),
        if_neg (hne u (List.mem_cons_of_mem _ hu))]
  · have hnextl : next (unlink m x after) (lastOf h xs) = after := by
      rw [hnext _ (hmem' _ (List.mem_append_left _ hlast)), if_pos rfl]
    cases ys with
    | nil => exact hnextl.trans hafter.symm
    | cons z ys =>
      obtain ⟨-, -, htail⟩ := hys
      have hz : z = after := hafter
      refine ⟨hnextl.trans hz.symm, by rw [hprev z (hmem' z (by simp)), if_pos hz],
        htail.congr ?_ ?_⟩
      · intro u hu
        rw [hnext u (hmem' u (by simp at hu ⊢; tauto)),
          if_neg fun hul => hapart _ hlast u hu hul.symm]
      · intro u hu
        have huz : u ≠ z := by
          rintro rfl
          exact (List.nodup_cons.mp (List.nodup_append.mp hsplit').2.1).1 hu
        rw [hprev u (hmem' u (by simp; tauto)), if_neg (hz ▸ huz)]

/-- Cutting nodes out writes to the node before them and to the one behind them only. -/
theorem unlink_apply {m : Mem} {x after a : Nat}
    (hout : ∀ u, u = prev m x ∨ (u = after ∧ u ≠ 0) → a < u ∨ u + 8 ≤ a) :
    unlink m x after a = m a := by
  have houtp := hout _ (.inl rfl)
  have hbase : setNext m (prev m x) after a = m a := by
    unfold setNext
    exact store32_apply_of_outside (by omega)
  unfold unlink
  split
  · next h =>
    have houta := hout after (.inr ⟨rfl, h⟩)
    unfold setPrev
    rw [store32_apply_of_outside (by omega)]
    exact hbase
  · exact hbase

/-- Cutting nodes out leaves the other lists alone. -/
theorem DList.unlink_other {A : Set Nat} (hA : Cells A) {m : Mem} {h x after : Nat} {zs : List Nat}
    (hl : DList m h zs) (hmem : ∀ u ∈ h :: zs, u ∈ A) (hx : x ∈ A) (hp : prev m x ∈ A)
    (ha : after ≠ 0 → after ∈ A) (hpz : prev m x ∉ h :: zs) (haz : after ∉ zs) :
    DList (unlink m x after) h zs := by
  apply hl.congr
  · intro u hu
    have hup : u ≠ prev m x := fun hup => hpz (hup ▸ hu)
    rw [hA.next_unlink hp ha (hmem u hu), if_neg hup]
  · intro u hu
    have hua : u ≠ after := fun hua => haz (hua ▸ hu)
    rw [hA.prev_unlink hx hp ha (hmem u (List.mem_cons_of_mem h hu)), if_neg hua]

end Hcrtos.IntrusiveList
