import Mathlib.Data.List.Basic
import Hcrtos.ForStd.Lts
import Hcrtos.Native.Mmz

/-!
# Pools and their ids

`OsKMmzInit` puts the pool of a node into the slot with the number of the node, and the other
functions look for it in the slot with its id. `mmz_create` looks at ten slots however many the
table has.

## Key results

- `initNodes_gMM`, `initNodes_owned`: the table after the start
- `createFrom_spec`: the slots that `mmz_create` looks at
- `always_sound_iff`: when every id leads to the pool it stands for, along a run
- `sound_fails`: a node that replaces the system heap
-/

namespace Hcrtos.Native.Mmz

variable {NR_POOL_MMZ : Nat}

/-- Every id leads to the pool that was built for it, no index outside of the table was used,
    the system heap has its slot, and ids of `mmz_create` are accepted. -/
structure Sound (NR_POOL_MMZ : Nat) (sysmem : PoolHead) (s : State) : Prop where
  used : ∀ e ∈ s.owned, mmz_pool NR_POOL_MMZ s e.1 = some e.2
  inside : ∀ i ∈ s.touched, i < NR_POOL NR_POOL_MMZ
  sysmem : s.gMM (ID_SYSMEM NR_POOL_MMZ) = some sysmem
  accepted : ∀ i ∈ s.returned, (mmz_pool NR_POOL_MMZ s i).isSome

/-- The id of every node that gets a pool is its number. -/
def NodesNumbered (NR_POOL_MMZ : Nat) (tree : Nat → Option Node) : Prop :=
  ∀ i < 10, ∀ node, tree i = some node → node.valid NR_POOL_MMZ → node.idOf.toNat = i

/-- `mmz_create` finds a free slot, or the ten it looks at are in the table. -/
def CreateFits (NR_POOL_MMZ : Nat) (s : State) : Action → Prop
  | .create _ _ => 9 ≤ NR_POOL_MMZ ∨ ∃ i < NR_POOL_MMZ, s.gMM i = none
  | .delete _ => True

/-- The invariant: the ids are slots of the table, with the pools they were built for. -/
structure Inv (NR_POOL_MMZ : Nat) (sysmem : PoolHead) (s : State) : Prop where
  owned : ∀ e ∈ s.owned, e.1 < NR_POOL_MMZ ∧ s.gMM e.1 = some e.2
  inside : ∀ i ∈ s.touched, i ≤ NR_POOL_MMZ
  sysmem : s.gMM NR_POOL_MMZ = some sysmem
  returned : ∀ i ∈ s.returned, i < NR_POOL_MMZ

theorem mmz_pool_eq {s : State} {i : Nat} (hi : i < NR_POOL_MMZ) :
    mmz_pool NR_POOL_MMZ s i = (s.gMM i).or (s.gMM NR_POOL_MMZ) := by
  unfold mmz_pool
  rw [if_neg (by omega), Int.toNat_natCast]
  cases s.gMM i <;> rfl

theorem Inv.sound {sysmem : PoolHead} {s : State} (h : Inv NR_POOL_MMZ sysmem s) :
    Sound NR_POOL_MMZ sysmem s where
  used := by
    intro e he
    obtain ⟨hlt, hslot⟩ := h.owned e he
    rw [mmz_pool_eq hlt, hslot]
    rfl
  inside i hi := Nat.lt_succ_of_le (h.inside i hi)
  sysmem := h.sysmem
  accepted := by
    intro i hi
    rw [mmz_pool_eq (h.returned i hi), h.sysmem]
    cases s.gMM i <;> rfl

/-! ### The start -/

/-- The id and the pool of the node `mmz<i>`, if it gets one. -/
def nodePool (NR_POOL_MMZ : Nat) (tree : Nat → Option Node) (i : Nat) : Option (Nat × PoolHead) :=
  (tree i).bind fun node =>
    if node.valid NR_POOL_MMZ then some (node.idOf.toNat, node.pool i) else none

section

variable {tree : Nat → Option Node} {s : State} {n i : Nat} {e : Nat × PoolHead}

theorem initNode_eq : initNode NR_POOL_MMZ tree s i =
    match nodePool NR_POOL_MMZ tree i with
    | none => s
    | some e => s.put i e.1 e.2 := by
  unfold initNode nodePool
  cases tree i with
  | none => rfl
  | some node =>
    by_cases hvalid : node.valid NR_POOL_MMZ = true
    · simp [hvalid]
    · simp [hvalid]

theorem nodePool_eq_some (h : nodePool NR_POOL_MMZ tree i = some e) :
    e.1 < NR_POOL_MMZ ∧ e.2.origin = .node i ∧
      ∃ node, tree i = some node ∧ node.valid NR_POOL_MMZ ∧ e.1 = node.idOf.toNat := by
  unfold nodePool at h
  obtain ⟨node, htree, h⟩ := Option.bind_eq_some_iff.mp h
  split at h
  · rename_i hvalid
    cases h
    have hlt := hvalid
    rw [Node.valid, Bool.and_eq_true, decide_eq_true_eq, decide_eq_true_eq] at hlt
    exact ⟨hlt.2, rfl, node, htree, hvalid, rfl⟩
  · cases h

theorem nodesNumbered_iff : NodesNumbered NR_POOL_MMZ tree ↔
    ∀ i < 10, ∀ e, nodePool NR_POOL_MMZ tree i = some e → e.1 = i := by
  constructor
  · intro h i hi e he
    obtain ⟨-, -, node, htree, hvalid, hid⟩ := nodePool_eq_some he
    rw [hid]
    exact h i hi node htree hvalid
  · intro h i hi node htree hvalid
    apply h i hi (node.idOf.toNat, node.pool i)
    simp [nodePool, htree, hvalid]

/-- The first `n` rounds of `OsKMmzInit`. -/
def initNodes (NR_POOL_MMZ : Nat) (tree : Nat → Option Node) (s : State) (n : Nat) : State :=
  (List.range n).foldl (initNode NR_POOL_MMZ tree) s

theorem initNodes_succ : initNodes NR_POOL_MMZ tree s (n + 1) =
    initNode NR_POOL_MMZ tree (initNodes NR_POOL_MMZ tree s n) n := by
  unfold initNodes
  rw [List.range_succ, List.foldl_append]
  rfl

/-- A slot has the pool of the node with its number, or is as before. -/
theorem initNodes_gMM : (initNodes NR_POOL_MMZ tree s n).gMM i =
    if i < n then ((nodePool NR_POOL_MMZ tree i).map Prod.snd).or (s.gMM i) else s.gMM i := by
  induction n with
  | zero => rfl
  | succ n ih =>
    rw [initNodes_succ, initNode_eq]
    cases hpool : nodePool NR_POOL_MMZ tree n with
    | none =>
      rw [ih]
      by_cases hi : i = n
      · simp [hi, hpool]
      · have hiff : i < n + 1 ↔ i < n := by omega
        simp only [hiff]
    | some e =>
      show Function.update (initNodes NR_POOL_MMZ tree s n).gMM n (some e.2) i = _
      by_cases hi : i = n
      · subst hi
        simp [hpool]
      · have hiff : i < n + 1 ↔ i < n := by omega
        rw [Function.update_of_ne hi, ih]
        simp only [hiff]

theorem initNodes_owned : e ∈ (initNodes NR_POOL_MMZ tree s n).owned ↔
    e ∈ s.owned ∨ ∃ i < n, nodePool NR_POOL_MMZ tree i = some e := by
  induction n with
  | zero => simp [initNodes]
  | succ n ih =>
    have hsplit : (∃ i < n + 1, nodePool NR_POOL_MMZ tree i = some e) ↔
        nodePool NR_POOL_MMZ tree n = some e ∨ ∃ i < n, nodePool NR_POOL_MMZ tree i = some e := by
      constructor
      · rintro ⟨i, hi, he⟩
        obtain hlt | rfl := Nat.lt_succ_iff_lt_or_eq.mp hi
        · exact .inr ⟨i, hlt, he⟩
        · exact .inl he
      · rintro (he | ⟨i, hi, he⟩)
        · exact ⟨n, Nat.lt_succ_self n, he⟩
        · exact ⟨i, Nat.lt_succ_of_lt hi, he⟩
    rw [initNodes_succ, initNode_eq, hsplit]
    cases hpool : nodePool NR_POOL_MMZ tree n with
    | none =>
      rw [ih]
      simp
    | some d =>
      show e ∈ (d.1, d.2) :: _ ↔ _
      rw [List.mem_cons, ih, Option.some.injEq]
      tauto

theorem initNodes_touched {j : Nat} (hj : j ∈ (initNodes NR_POOL_MMZ tree s n).touched) :
    j ∈ s.touched ∨ (j < n ∧ (nodePool NR_POOL_MMZ tree j).isSome) := by
  induction n with
  | zero => exact .inl hj
  | succ n ih =>
    rw [initNodes_succ, initNode_eq] at hj
    cases hpool : nodePool NR_POOL_MMZ tree n with
    | none =>
      rw [hpool] at hj
      exact (ih hj).imp_right fun h => ⟨Nat.lt_succ_of_lt h.1, h.2⟩
    | some d =>
      rw [hpool] at hj
      obtain rfl | hj := List.mem_cons.mp hj
      · exact .inr ⟨Nat.lt_succ_self j, by rw [hpool]; rfl⟩
      · exact (ih hj).imp_right fun h => ⟨Nat.lt_succ_of_lt h.1, h.2⟩

theorem initNodes_returned : (initNodes NR_POOL_MMZ tree s n).returned = s.returned := by
  induction n with
  | zero => rfl
  | succ n ih =>
    rw [initNodes_succ, initNode_eq]
    cases nodePool NR_POOL_MMZ tree n with
    | none => exact ih
    | some e => exact ih

end

/-- The table after `OsKHeapInit` and `OsKMmzInit`. -/
def started (NR_POOL_MMZ : Nat) (start size blklog : UInt32) (rest : Nat → Option PoolHead)
    (tree : Nat → Option Node) : State :=
  OsKMmzInit NR_POOL_MMZ tree (OsKHeapInit NR_POOL_MMZ start size blklog rest)

section

variable {start size blklog : UInt32} {rest : Nat → Option PoolHead} {tree : Nat → Option Node}

theorem OsKHeapInit_sysmem : (OsKHeapInit NR_POOL_MMZ start size blklog rest).gMM NR_POOL_MMZ =
    some ⟨.sysmem, start, size, blklog⟩ := if_pos rfl

theorem OsKHeapInit_free {i : Nat} (hi : i < NR_POOL_MMZ) :
    (OsKHeapInit NR_POOL_MMZ start size blklog rest).gMM i = none := by
  show (if i = NR_POOL_MMZ then _ else if i < NR_POOL_MMZ + 1 then none else rest i) = none
  rw [if_neg (by omega), if_pos (by omega)]

theorem inv_started (h : NodesNumbered NR_POOL_MMZ tree) :
    Inv NR_POOL_MMZ ⟨.sysmem, start, size, blklog⟩
      (started NR_POOL_MMZ start size blklog rest tree) := by
  rw [nodesNumbered_iff] at h
  change Inv NR_POOL_MMZ _ (initNodes NR_POOL_MMZ tree _ 10)
  constructor
  · intro e he
    obtain hnil | ⟨i, hi, he⟩ := initNodes_owned.mp he
    · cases hnil
    · obtain ⟨hlt, -⟩ := nodePool_eq_some he
      obtain rfl := h i hi e he
      refine ⟨hlt, ?_⟩
      rw [initNodes_gMM, if_pos hi, he]
      rfl
  · intro i hi
    obtain hnil | ⟨hlt, hsome⟩ := initNodes_touched hi
    · cases hnil
    · obtain ⟨e, he⟩ := Option.isSome_iff_exists.mp hsome
      have := h i hlt e he
      have := (nodePool_eq_some he).1
      omega
  · have hnone : NR_POOL_MMZ < 10 → nodePool NR_POOL_MMZ tree NR_POOL_MMZ = none := by
      intro hlt
      rw [Option.eq_none_iff_forall_ne_some]
      intro e he
      have := h _ hlt e he
      have := (nodePool_eq_some he).1
      omega
    rw [initNodes_gMM]
    split
    · rename_i hlt
      rw [hnone hlt, OsKHeapInit_sysmem]
      rfl
    · exact OsKHeapInit_sysmem
  · rw [initNodes_returned]
    simp [OsKHeapInit]

/-- The pool of a node whose number is not its id is in another slot. -/
theorem not_sound_started (h : ¬ NodesNumbered NR_POOL_MMZ tree) :
    ¬ Sound NR_POOL_MMZ ⟨.sysmem, start, size, blklog⟩
      (started NR_POOL_MMZ start size blklog rest tree) := by
  rw [nodesNumbered_iff] at h
  push Not at h
  obtain ⟨i, hi, e, he, hne⟩ := h
  obtain ⟨hlt, horigin, -⟩ := nodePool_eq_some he
  change ¬ Sound NR_POOL_MMZ _ (initNodes NR_POOL_MMZ tree _ 10)
  intro hsound
  have hused := hsound.used e (initNodes_owned.mpr (.inr ⟨i, hi, he⟩))
  have hslot : ∀ j p, (initNodes NR_POOL_MMZ tree
      (OsKHeapInit NR_POOL_MMZ start size blklog rest) 10).gMM j = some p → j < NR_POOL_MMZ →
        p.origin = .node j := by
    intro j p hp hj
    rw [initNodes_gMM, OsKHeapInit_free hj] at hp
    split at hp
    · cases hpool : nodePool NR_POOL_MMZ tree j with
      | none =>
        rw [hpool] at hp
        cases hp
      | some d =>
        rw [hpool] at hp
        cases hp
        exact (nodePool_eq_some hpool).2.1
    · cases hp
  rw [mmz_pool_eq hlt] at hused
  -- the slot with the id has the pool of another node, or of the system heap
  have hsysmem := hsound.sysmem
  change (initNodes NR_POOL_MMZ tree _ 10).gMM NR_POOL_MMZ = _ at hsysmem
  cases hid : (initNodes NR_POOL_MMZ tree
      (OsKHeapInit NR_POOL_MMZ start size blklog rest) 10).gMM e.1 with
  | none =>
    rw [hid, Option.none_or, hsysmem] at hused
    rw [← Option.some.inj hused] at horigin
    cases horigin
  | some p =>
    rw [hid, Option.some_or] at hused
    have hnode := hslot e.1 p hid hlt
    rw [Option.some.inj hused, horigin] at hnode
    exact hne (Origin.node.inj hnode).symm

end

/-! ### Calls -/

section

variable {start size : UInt32} {sysmem : PoolHead} {s : State}

/-- `mmz_create` looks at the slots up to the first free one. -/
theorem createFrom_spec (start size : UInt32) (s : State) (rounds i : Nat) :
    (∃ j, i ≤ j ∧ j < i + rounds ∧ s.gMM j = none ∧ (∀ k, i ≤ k → k < j → s.gMM k ≠ none) ∧
      ∃ pool touched, createFrom start size s rounds i =
        (⟨Function.update s.gMM j (some pool), touched, (j, pool) :: s.owned, j :: s.returned⟩,
          some j) ∧ ∀ k, k ∈ touched ↔ k ∈ s.touched ∨ (i ≤ k ∧ k ≤ j)) ∨
    ((∀ k, i ≤ k → k < i + rounds → s.gMM k ≠ none) ∧
      ∃ touched, createFrom start size s rounds i = ({ s with touched := touched }, none) ∧
        ∀ k, k ∈ touched ↔ k ∈ s.touched ∨ (i ≤ k ∧ k < i + rounds)) := by
  induction rounds generalizing i s with
  | zero =>
    refine .inr ⟨fun k hk hlt => by omega, s.touched, rfl, ?_⟩
    intro k
    have hnone : ¬ (i ≤ k ∧ k < i + 0) := by omega
    simp only [hnone, or_false]
  | succ rounds ih =>
    have hmem : ∀ hi, i < hi → ∀ k, (k ∈ i :: s.touched ∨ (i + 1 ≤ k ∧ k < hi)) ↔
        k ∈ s.touched ∨ (i ≤ k ∧ k < hi) := by
      intro hi hlt k
      rw [List.mem_cons]
      grind
    cases hslot : s.gMM i with
    | none =>
      refine .inl ⟨i, Nat.le_refl i, by omega, hslot, fun k hk hlt => by omega, ?_⟩
      simp only [createFrom, hslot]
      refine ⟨_, i :: i :: s.touched, rfl, ?_⟩
      intro k
      rw [List.mem_cons, List.mem_cons]
      grind
    | some p =>
      simp only [createFrom, hslot]
      obtain ⟨j, hij, hjr, hfree, hfull, pool, touched, hresult, htouched⟩ |
        ⟨hfull, touched, hresult, htouched⟩ := ih { s with touched := i :: s.touched } (i + 1)
      · refine .inl ⟨j, by omega, by omega, hfree, ?_, pool, touched, hresult, ?_⟩
        · intro k hk hlt
          obtain rfl | hgt := Nat.eq_or_lt_of_le hk
          · rw [hslot]
            simp
          · exact hfull k hgt hlt
        · intro k
          rw [htouched]
          simpa only [Nat.lt_succ_iff] using hmem (j + 1) (by omega) k
      · refine .inr ⟨?_, touched, hresult, ?_⟩
        · intro k hk hlt
          obtain rfl | hgt := Nat.eq_or_lt_of_le hk
          · rw [hslot]
            simp
          · exact hfull k hgt (by omega)
        · intro k
          rw [htouched, show i + 1 + rounds = i + (rounds + 1) by omega]
          exact hmem (i + (rounds + 1)) (by omega) k

theorem Inv.create (h : Inv NR_POOL_MMZ sysmem s)
    (hfits : CreateFits NR_POOL_MMZ s (.create start size)) :
    Inv NR_POOL_MMZ sysmem (mmz_create s start size).1 := by
  have hfull := h.sysmem
  unfold mmz_create
  obtain ⟨j, -, hj, hfree, hbefore, pool, touched, hresult, htouched⟩ |
    ⟨hnone, touched, hresult, htouched⟩ := createFrom_spec start size s 10 0
  · rw [hresult]
    -- the first free slot is in front of the one of the system heap
    have hlt : j < NR_POOL_MMZ := by
      by_contra hge
      have hne : j ≠ NR_POOL_MMZ := by
        rintro rfl
        rw [hfull] at hfree
        cases hfree
      rcases hfits with hnine | ⟨k, hk, hkfree⟩
      · omega
      · exact hbefore k (Nat.zero_le k) (by omega) hkfree
    constructor
    · intro e he
      obtain rfl | he := List.mem_cons.mp he
      · exact ⟨hlt, Function.update_self ..⟩
      · obtain ⟨helt, hslot⟩ := h.owned e he
        have hne : e.1 ≠ j := by
          intro heq
          rw [heq, hfree] at hslot
          cases hslot
        exact ⟨helt, (Function.update_of_ne hne _ _).trans hslot⟩
    · intro i hi
      obtain hi | hi := (htouched i).mp hi
      · exact h.inside i hi
      · omega
    · exact (Function.update_of_ne (by omega) _ _).trans hfull
    · intro i hi
      obtain rfl | hi := List.mem_cons.mp hi
      · exact hlt
      · exact h.returned i hi
  · rw [hresult]
    refine ⟨h.owned, ?_, hfull, h.returned⟩
    intro i hi
    obtain hi | hi := (htouched i).mp hi
    · exact h.inside i hi
    · rcases hfits with hnine | ⟨k, hk, hkfree⟩
      · omega
      · have hge : 10 ≤ k := by
          by_contra hlt
          exact hnone k (Nat.zero_le k) (by omega) hkfree
        omega

/-- In a full table of fewer slots, `mmz_create` looks behind its end. -/
theorem Inv.create_outside (h : Inv NR_POOL_MMZ sysmem s)
    (hfits : ¬ CreateFits NR_POOL_MMZ s (.create start size)) :
    ¬ Sound NR_POOL_MMZ sysmem (mmz_create s start size).1 := by
  intro hsound
  have hfull := h.sysmem
  simp only [CreateFits, not_or, not_exists, not_and] at hfits
  obtain ⟨hnine, hslots⟩ := hfits
  have hbehind : NR_POOL_MMZ + 1 ∈ (mmz_create s start size).1.touched := by
    unfold mmz_create
    obtain ⟨j, -, hj, hfree, hbefore, pool, touched, hresult, htouched⟩ |
      ⟨hnone, touched, hresult, htouched⟩ := createFrom_spec start size s 10 0
    · rw [hresult]
      have hge : NR_POOL_MMZ < j := by
        by_contra hle
        obtain rfl | hlt := Nat.eq_or_lt_of_le (Nat.le_of_not_lt hle)
        · rw [hfull] at hfree
          cases hfree
        · exact hslots j hlt hfree
      exact (htouched _).mpr (.inr ⟨Nat.zero_le _, hge⟩)
    · rw [hresult]
      exact (htouched _).mpr (.inr ⟨Nat.zero_le _, by omega⟩)
  have := hsound.inside _ hbehind
  unfold NR_POOL at this
  omega

theorem Inv.delete {id : Int} (h : Inv NR_POOL_MMZ sysmem s) :
    Inv NR_POOL_MMZ sysmem (mmz_delete NR_POOL_MMZ s id).1 := by
  unfold mmz_delete
  split
  · exact h
  · rename_i hid
    have hinside : ∀ i ∈ id.toNat :: s.touched, i ≤ NR_POOL_MMZ := by
      intro i hi
      obtain rfl | hi := List.mem_cons.mp hi
      · omega
      · exact h.inside i hi
    dsimp only
    split
    · exact ⟨h.owned, hinside, h.sysmem, h.returned⟩
    · refine ⟨?_, hinside, ?_, h.returned⟩
      · intro e he
        obtain ⟨he, hne⟩ := List.mem_filter.mp he
        obtain ⟨hlt, hslot⟩ := h.owned e he
        refine ⟨hlt, ?_⟩
        exact (Function.update_of_ne (of_decide_eq_true hne) _ _).trans hslot
      · exact (Function.update_of_ne (by omega) _ _).trans h.sysmem

theorem inv_step (s : State) (a : Action) (s' : State) (h : Inv NR_POOL_MMZ sysmem s)
    (hfits : CreateFits NR_POOL_MMZ s a) (hstep : step NR_POOL_MMZ s a = some s') :
    Inv NR_POOL_MMZ sysmem s' := by
  cases a with
  | create start size =>
    cases hstep
    exact h.create hfits
  | delete id =>
    cases hstep
    exact h.delete

theorem not_sound_of_not_fits (s : State) (a : Action) (h : Inv NR_POOL_MMZ sysmem s)
    (hfits : ¬ CreateFits NR_POOL_MMZ s a) :
    ∃ s', step NR_POOL_MMZ s a = some s' ∧ ¬ Sound NR_POOL_MMZ sysmem s' := by
  cases a with
  | create start size => exact ⟨_, rfl, h.create_outside hfits⟩
  | delete id => exact absurd trivial hfits

end

/-- The table is sound all along a run exactly when every node that gets a pool has its number
    as its id, and every `mmz_create` finds a free slot or has a table that is long enough. -/
theorem always_sound_iff (NR_POOL_MMZ : Nat) (start size blklog : UInt32)
    (rest : Nat → Option PoolHead) (tree : Nat → Option Node) (tr : List Action) :
    Lts.Always (step NR_POOL_MMZ) (Sound NR_POOL_MMZ ⟨.sysmem, start, size, blklog⟩)
        (started NR_POOL_MMZ start size blklog rest tree) tr ↔
      NodesNumbered NR_POOL_MMZ tree ∧ Lts.Meets (step NR_POOL_MMZ) (CreateFits NR_POOL_MMZ)
        (started NR_POOL_MMZ start size blklog rest tree) tr := by
  by_cases hnodes : NodesNumbered NR_POOL_MMZ tree
  · have hinv : Inv NR_POOL_MMZ ⟨.sysmem, start, size, blklog⟩
        (started NR_POOL_MMZ start size blklog rest tree) := inv_started hnodes
    rw [Lts.always_iff_meets (step NR_POOL_MMZ) (fun _ h => h.sound) inv_step
      not_sound_of_not_fits hinv]
    exact ⟨fun h => ⟨hnodes, h⟩, And.right⟩
  · constructor
    · intro h
      exact absurd (h.head (step NR_POOL_MMZ)) (not_sound_started hnodes)
    · intro h
      exact absurd h.1 hnodes

/-- With one slot for pools, the pool of the node `mmz1` with the id 0 takes the slot of the
    system heap. -/
theorem sound_fails : ¬ Lts.Always (step 1) (Sound 1 ⟨.sysmem, 0x80400000, 0x400000, 12⟩)
    (started 1 0x80400000 0x400000 12 (fun _ => none) fun i =>
      if i = 1 then some ⟨some 0x800000, some 0x100000, some 0, none⟩ else none) [] := by
  intro h
  have hsysmem := (h.head (step 1)).sysmem
  revert hsysmem
  decide

end Hcrtos.Native.Mmz
