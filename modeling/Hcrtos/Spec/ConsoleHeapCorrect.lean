import Hcrtos.Spec.ConsoleHeapDelete

/-!
# The command tree in memory: runs

Every edit keeps the memory a tree of commands, so in every heap of a run the links lead to nodes
that are live, a node is on the list of its parent only, and the current level is a whole level.

## Key results

- `Represents.enter`, `Represents.exit`: the current level
- `Represents.perform`: an edit ends, and keeps the tree
- `Represents.wellLinked`: what the tree says about the links
- `tree_well_linked`: every run
-/

namespace Hcrtos.Native.Console

open CString Chain Hcrtos.Loop

/-! ### The links -/

/-- What the links lead to from the root list and from the current level. -/
inductive Reachable (h : Heap) : Addr → Prop where
  | root {a : Addr} : h.cmds_root = some a → Reachable h a
  | current {a : Addr} : h.cmds_current = some a → Reachable h a
  | next {a b : Addr} {n : Node} : Reachable h a → h.nodes a = some n → n.next = some b →
      Reachable h b
  | children {a b : Addr} {n : Node} : Reachable h a → h.nodes a = some n →
      n.children = some b → Reachable h b
  | parent {a b : Addr} {n : Node} : Reachable h a → h.nodes a = some n →
      n.cmd.parent = some b → Reachable h b

/-- The pointer to the commands with one parent. -/
def Heap.level (h : Heap) : Option Addr → Option (Option Addr)
  | none => some h.cmds_root
  | some p => (h.nodes p).map Node.children

/-- No link leads to a node that is not live, the list of a level has the commands with its parent
    and no command twice, and the current level is one of the levels. -/
structure WellLinked (h : Heap) : Prop where
  live : ∀ a, Reachable h a → (h.nodes a).isSome
  lists : ∀ parent start, h.level parent = some start →
    ∃ l, l.head? = start ∧ Seg h.next l none ∧ l.Nodup ∧
      ∀ a n, h.nodes a = some n → (a ∈ l ↔ n.cmd.parent = parent)
  parents : ∀ a n p, h.nodes a = some n → n.cmd.parent = some p → (h.nodes p).isSome
  current : h.cmds_current = h.cmds_root ∨
    ∃ p n, h.nodes p = some n ∧ n.children.isSome ∧ h.cmds_current = n.children

section

variable {h : Heap} {s : Console}

theorem Represents.node_eq (hr : Represents h s) {a : Addr} {n : Node} (hn : h.nodes a = some n) :
    n.cmd ∈ s.cmds ∧ n.cmd.addr = a ∧ n.children = (addrs s (some a)).head? := by
  obtain ⟨c, hc, rfl⟩ := hr.live a (by simp [hn])
  obtain ⟨next, hn'⟩ := hr.node c hc
  obtain rfl := Option.some.inj (hn.symm.trans hn')
  exact ⟨hc, rfl, rfl⟩

theorem Represents.isSome_of_mem (hr : Represents h s) {parent : Option Addr} {a : Addr}
    (ha : a ∈ addrs s parent) : (h.nodes a).isSome := by
  obtain ⟨c, hc, rfl, -⟩ := mem_addrs.mp ha
  obtain ⟨next, hn⟩ := hr.node c hc
  simp [hn]

theorem Represents.live_of_reachable (hr : Represents h s) {a : Addr} (ha : Reachable h a) :
    (h.nodes a).isSome := by
  induction ha with
  | root ha => exact hr.isSome_of_mem (List.mem_of_head? (hr.root.symm.trans ha))
  | current ha => exact hr.isSome_of_mem (List.mem_of_head? (hr.current.symm.trans ha))
  | @next a b n _ hn hb _ =>
    obtain ⟨hc, rfl, -⟩ := hr.node_eq hn
    -- the next command is on the same list
    have hmem : n.cmd.addr ∈ addrs s n.cmd.parent := mem_addrs.mpr ⟨_, hc, rfl, rfl⟩
    obtain ⟨l₁, l₂, hl⟩ := List.append_of_mem hmem
    have hnext := (hl ▸ hr.links n.cmd.parent : Seg h.next (l₁ ++ n.cmd.addr :: l₂) none).next_eq
    rw [Heap.next, hn, Option.map_some, hb, Option.or_none, Option.some.injEq] at hnext
    have hb' : b ∈ addrs s n.cmd.parent := by
      rw [hl]
      exact List.mem_append_right _ (List.mem_cons_of_mem _ (List.mem_of_head? hnext.symm))
    exact hr.isSome_of_mem hb'
  | children _ hn hb _ =>
    obtain ⟨-, -, hchildren⟩ := hr.node_eq hn
    exact hr.isSome_of_mem (List.mem_of_head? (hchildren.symm.trans hb))
  | parent _ hn hb _ =>
    obtain ⟨hc, -, -⟩ := hr.node_eq hn
    obtain ⟨d, hd, rfl⟩ := hr.ordered.parent_mem hc hb
    exact hr.isSome_of_mem (mem_addrs.mpr ⟨d, hd, rfl, rfl⟩)

theorem Represents.level_eq (hr : Represents h s) {parent start : Option Addr}
    (hstart : h.level parent = some start) : start = (addrs s parent).head? := by
  cases parent with
  | none => exact (Option.some.inj hstart).symm.trans hr.root
  | some p =>
    obtain ⟨n, hn, rfl⟩ := Option.map_eq_some_iff.mp hstart
    exact (hr.node_eq hn).2.2

theorem Represents.wellLinked (hr : Represents h s) : WellLinked h where
  live _ ha := hr.live_of_reachable ha
  lists := by
    intro parent start hstart
    refine ⟨addrs s parent, (hr.level_eq hstart).symm, hr.links parent,
      hr.ordered.addrs_nodup parent, ?_⟩
    intro a n hn
    obtain ⟨hc, rfl, -⟩ := hr.node_eq hn
    rw [mem_addrs]
    constructor
    · rintro ⟨d, hd, haddr, hparent⟩
      obtain rfl := hr.ordered.unaliased.eq hd hc haddr
      exact hparent
    · intro hparent
      exact ⟨_, hc, rfl, hparent⟩
  parents := by
    intro a n p hn hp
    obtain ⟨hc, -, -⟩ := hr.node_eq hn
    obtain ⟨d, hd, rfl⟩ := hr.ordered.parent_mem hc hp
    exact hr.isSome_of_mem (mem_addrs.mpr ⟨d, hd, rfl, rfl⟩)
  current := by
    cases hcurrent : s.current with
    | none =>
      left
      rw [hr.current, hr.root, hcurrent]
    | some p =>
      right
      obtain ⟨b, l, hl⟩ := List.exists_cons_of_ne_nil (hr.inside p hcurrent)
      obtain ⟨d, hd, -, hparent⟩ := mem_addrs.mp (hl ▸ List.mem_cons_self : b ∈ addrs s (some p))
      obtain ⟨c, hc, rfl⟩ := hr.ordered.parent_mem hd hparent
      obtain ⟨next, hn⟩ := hr.node c hc
      refine ⟨c.addr, _, hn, ?_, ?_⟩
      · simp [hl]
      · rw [hr.current, hcurrent]

/-! ### The current level -/

/-- Another level with commands becomes the current one. -/
theorem Represents.moved (hr : Represents h s) {h' : Heap} {q : Option Addr}
    (hnodes : h'.nodes = h.nodes) (hroot : h'.cmds_root = h.cmds_root)
    (hcurrent : h'.cmds_current = (addrs s q).head?)
    (hinside : ∀ a, q = some a → addrs s (some a) ≠ []) : Represents h' ⟨s.cmds, q⟩ where
  ordered := ⟨hr.ordered.unaliased, hr.ordered.above⟩
  live := hnodes ▸ hr.live
  node := hnodes ▸ hr.node
  links := by
    have hnext : h'.next = h.next := by
      funext a
      rw [Heap.next, hnodes, Heap.next]
    exact hnext ▸ hr.links
  root := hroot.trans hr.root
  current := hcurrent
  inside := hinside

theorem Represents.enter (hr : Represents h s) {c : ConsoleCmd} (hc : c ∈ s.cmds) :
    ∃ h' s', (∀ fuel, s.cmds.length < fuel → enter fuel h c.addr = some h') ∧
      Represents h' s' := by
  obtain ⟨next, hn⟩ := hr.node c hc
  cases hstart : (addrs s (some c.addr)).head? with
  | none =>
    refine ⟨h, s, fun fuel _ => ?_, hr⟩
    simp [Console.enter, hn, hstart]
  | some start =>
    obtain ⟨name, hname⟩ := hr.names.name_settles hr.ordered (q := some c.addr)
      fun a ha => ⟨c, hc, Option.some.inj ha⟩
    refine ⟨{ h with cmds_current := some start, promptstr := some name },
      ⟨s.cmds, some c.addr⟩, fun fuel hfuel => ?_, ?_⟩
    · simp [Console.enter, hn, hstart, enterLevel, hname fuel hfuel]
    · refine hr.moved rfl rfl hstart.symm ?_
      rintro a ha hempty
      obtain rfl := Option.some.inj ha
      simp [hempty] at hstart

theorem Represents.exit (hr : Represents h s) (hcurrent : h.cmds_current.isSome) :
    ∃ h' s', (∀ fuel, s.cmds.length < fuel → console_exit fuel h = some h') ∧
      Represents h' s' := by
  obtain ⟨current, hcur⟩ := Option.isSome_iff_exists.mp hcurrent
  obtain ⟨d, hd, rfl, hparent⟩ := mem_addrs.mp (List.mem_of_head? (hr.current.symm.trans hcur))
  obtain ⟨next, hn⟩ := hr.node d hd
  cases hq : d.parent with
  | none =>
    refine ⟨h, s, fun fuel _ => ?_, hr⟩
    simp [console_exit, hcur, hn, hq]
  | some p =>
    obtain ⟨cp, hcp, rfl⟩ := hr.ordered.parent_mem hd hq
    have hchildren : ∀ q, cp.parent = some q → ∃ n, h.nodes q = some n ∧
        n.children = (addrs s (some q)).head? := by
      intro q hq
      obtain ⟨e, he, rfl⟩ := hr.ordered.parent_mem hcp hq
      obtain ⟨enext, hen⟩ := hr.node e he
      exact ⟨_, hen, rfl⟩
    obtain ⟨h', hh', hnodes, hroot, hcurrent'⟩ := hr.names.leaveLevel hr.ordered hcp hchildren
    refine ⟨h', ⟨s.cmds, cp.parent⟩, fun fuel hfuel => ?_, hr.moved hnodes hroot ?_ ?_⟩
    · simp [console_exit, hcur, hn, hq, hh' fuel hfuel]
    · rw [hcurrent']
      split
      · rename_i hnone
        rw [hr.root, hnone]
      · rfl
    · -- the parent itself is in the level above
      intro a ha
      exact List.ne_nil_of_mem (mem_addrs.mpr ⟨cp, hcp, rfl, ha⟩)

/-! ### Runs -/

/-- An edit ends, and keeps the tree. -/
theorem Represents.perform (hr : Represents h s) {e : Edit} (he : e.Allowed h) :
    ∃ h' s', Performs h e h' ∧ Represents h' s' := by
  cases e with
  | register parent cmd callback mode help node =>
    obtain ⟨hparent, hnode⟩ := he
    obtain ⟨h', hh', hr'⟩ := hr.register cmd callback mode help hnode hparent
    exact ⟨h', _, ⟨s.cmds.length + 1, hh'⟩, hr'⟩
  | delete cmd =>
    obtain ⟨c, hc, rfl⟩ := hr.live cmd he
    obtain ⟨h', s', hh', hr', -⟩ := hr.delete hc
    exact ⟨h', s', ⟨s.cmds.length + 1, fun fuel hfuel => hh' fuel fuel hfuel hfuel⟩, hr'⟩
  | enter cmd =>
    obtain ⟨c, hc, rfl⟩ := hr.live cmd he
    obtain ⟨h', s', hh', hr'⟩ := hr.enter hc
    exact ⟨h', s', ⟨s.cmds.length + 1, hh'⟩, hr'⟩
  | exit =>
    obtain ⟨h', s', hh', hr'⟩ := hr.exit he
    exact ⟨h', s', ⟨s.cmds.length + 1, hh'⟩, hr'⟩

end

theorem Performs.unique {h h₁ h₂ : Heap} {e : Edit} (h₁' : Performs h e h₁)
    (h₂' : Performs h e h₂) : h₁ = h₂ := by
  obtain ⟨n₁, hn₁⟩ := h₁'
  obtain ⟨n₂, hn₂⟩ := h₂'
  have hsame := (hn₁ (max n₁ n₂) (Nat.le_max_left _ _)).symm.trans
    (hn₂ (max n₁ n₂) (Nat.le_max_right _ _))
  exact Option.some.inj hsame

theorem Reaches.represents {h : Heap} (hreach : Reaches h) : ∃ s, Represents h s := by
  induction hreach with
  | refl => exact ⟨init, represents_init⟩
  | tail _ hlast ih =>
    obtain ⟨s, hr⟩ := ih
    obtain ⟨e, he, hperforms⟩ := hlast
    obtain ⟨h', s', hperforms', hr'⟩ := hr.perform he
    exact ⟨s', hperforms.unique hperforms' ▸ hr'⟩

/-- In every run the tree is well linked, and every edit ends without an access to a freed node. -/
theorem tree_well_linked {h : Heap} (hreach : Reaches h) :
    WellLinked h ∧ ∀ e : Edit, e.Allowed h → ∃ h', Performs h e h' := by
  obtain ⟨s, hr⟩ := hreach.represents
  refine ⟨hr.wellLinked, fun e he => ?_⟩
  obtain ⟨h', s', hperforms, -⟩ := hr.perform he
  exact ⟨h', hperforms⟩

/-- The level of two commands is entered, and the command above it is deleted. -/
def exampleEdits : List Edit :=
  [.register none [97] none 0 none (some 16), .register none [98] none 0 none (some 32),
    .register (some 32) [99] none 0 none (some 48), .register (some 32) [100] none 0 none (some 64),
    .enter 32, .delete 32]

/-- The heap that the edits give. -/
def exampleHeap : Heap := (exampleEdits.foldlM (Edit.perform 8) Heap.init).getD Heap.init

theorem reaches_edit {h h' : Heap} (hreach : Reaches h) (e : Edit) (n : Nat) (he : e.Allowed h)
    (hperform : ∀ fuel, e.perform (fuel + n) h = some h') : Reaches h' := by
  refine hreach.tail ⟨e, he, n, fun fuel hfuel => ?_⟩
  obtain ⟨k, rfl⟩ := Nat.exists_eq_add_of_le' hfuel
  exact hperform k

theorem reaches_exampleHeap : Reaches exampleHeap := by
  have h₀ : Reaches Heap.init := .refl
  have h₁ := reaches_edit h₀ (.register none [97] none 0 none (some 16)) 5 (by decide +kernel)
    fun _ => rfl
  have h₂ := reaches_edit h₁ (.register none [98] none 0 none (some 32)) 5 (by decide +kernel)
    fun _ => rfl
  have h₃ := reaches_edit h₂ (.register (some 32) [99] none 0 none (some 48)) 5 (by decide +kernel)
    fun _ => rfl
  have h₄ := reaches_edit h₃ (.register (some 32) [100] none 0 none (some 64)) 5 (by decide +kernel)
    fun _ => rfl
  have h₅ := reaches_edit h₄ (.enter 32) 5 (by decide +kernel) fun _ => rfl
  exact reaches_edit h₅ (.delete 32) 5 (by decide +kernel) fun _ => rfl

theorem tree_well_linked_exampleHeap :
    WellLinked exampleHeap ∧ ∀ e : Edit, e.Allowed exampleHeap → ∃ h', Performs exampleHeap e h' :=
  tree_well_linked reaches_exampleHeap

end Hcrtos.Native.Console
