import Hcrtos.Native.ConsoleHeap
import Hcrtos.Spec.ConsoleTree

/-!
# The command tree in memory: what the nodes stand for

The nodes in memory represent a tree of commands when the links of every level spell the commands
with one parent in the order of their registration. A command without children can be taken out of
such a tree.

## Key results

- `Represents`: the memory and the tree
- `Ordered.without`: the tree without a command that has no children
- `Represents.register`: a registration
-/

namespace Hcrtos.Native.Console

open CString Chain Hcrtos.Loop

/-! ### Trees -/

/-- The position of a command. -/
def pos (s : Console) (a : Addr) : Nat := (s.cmds.map ConsoleCmd.addr).idxOf a

theorem Ordered.pos_eq {s : Console} (h : Ordered s) {i : Nat} {c : ConsoleCmd}
    (hc : s.cmds[i]? = some c) : pos s c.addr = i := by
  obtain ⟨hlt, rfl⟩ := List.getElem?_eq_some_iff.mp hc
  have hidx := h.unaliased.idxOf_getElem i (by simpa using hlt)
  simpa [pos] using hidx

theorem Ordered.pos_lt {s : Console} (h : Ordered s) {d : ConsoleCmd} (hd : d ∈ s.cmds) {a : Addr}
    (ha : d.parent = some a) : pos s a < pos s d.addr := by
  obtain ⟨j, hj⟩ := List.mem_iff_getElem?.mp hd
  obtain ⟨i, c, hlt, hc, rfl⟩ := h.above j d hj a ha
  rw [h.pos_eq hj, h.pos_eq hc]
  exact hlt

theorem Ordered.parent_mem {s : Console} (h : Ordered s) {d : ConsoleCmd} (hd : d ∈ s.cmds)
    {a : Addr} (ha : d.parent = some a) : ∃ c ∈ s.cmds, c.addr = a := by
  obtain ⟨j, hj⟩ := List.mem_iff_getElem?.mp hd
  obtain ⟨i, c, -, hc, haddr⟩ := h.above j d hj a ha
  exact ⟨c, List.mem_of_getElem? hc, haddr⟩

/-- An order by what stands behind what. -/
theorem ordered_of_pairwise {s : Console} (hnodup : Unaliased s)
    (hmem : ∀ d ∈ s.cmds, ∀ a, d.parent = some a → ∃ c ∈ s.cmds, c.addr = a)
    (hself : ∀ d ∈ s.cmds, d.parent ≠ some d.addr)
    (hbehind : s.cmds.Pairwise fun c d => c.parent ≠ some d.addr) : Ordered s where
  unaliased := hnodup
  above := by
    intro j d hd a ha
    obtain ⟨c, hc, rfl⟩ := hmem d (List.mem_of_getElem? hd) a ha
    obtain ⟨i, hi⟩ := List.mem_iff_getElem?.mp hc
    obtain ⟨hj', hget⟩ := List.getElem?_eq_some_iff.mp hd
    obtain ⟨hi', hget'⟩ := List.getElem?_eq_some_iff.mp hi
    refine ⟨i, c, ?_, hi, rfl⟩
    rcases Nat.lt_trichotomy i j with hlt | rfl | hlt
    · exact hlt
    · obtain rfl : d = c := by rw [← hget, ← hget']
      exact absurd ha (hself d (List.mem_of_getElem? hd))
    · have hne := List.pairwise_iff_getElem.mp hbehind j i hj' hi' hlt
      rw [hget, hget'] at hne
      exact absurd ha hne

theorem Ordered.pairwise {s : Console} (h : Ordered s) :
    s.cmds.Pairwise fun c d => c.parent ≠ some d.addr := by
  rw [List.pairwise_iff_getElem]
  intro i j hi hj hlt hparent
  obtain ⟨k, c, hk, hc, haddr⟩ := h.above i _ (List.getElem?_eq_getElem hi) _ hparent
  have hkj : k = j := by
    rw [← h.pos_eq hc, haddr]
    exact h.pos_eq (List.getElem?_eq_getElem hj)
  omega

/-- The commands of a tree without the command at an address. -/
def others (s : Console) (a : Addr) : List ConsoleCmd := s.cmds.filter fun d => d.addr ≠ a

theorem mem_others {s : Console} {a : Addr} {d : ConsoleCmd} :
    d ∈ others s a ↔ d ∈ s.cmds ∧ d.addr ≠ a := by
  simp [others]

/-- A command without children can be taken out. -/
theorem Ordered.without {s : Console} (h : Ordered s) {a : Addr} (hleaf : s.level (some a) = [])
    (current : Option Addr) : Ordered ⟨others s a, current⟩ := by
  have hsub : (others s a).Sublist s.cmds := List.filter_sublist
  apply ordered_of_pairwise
  · exact h.unaliased.sublist (hsub.map _)
  · intro d hd b hb
    have hds := (mem_others.mp hd).1
    obtain ⟨c, hc, rfl⟩ := h.parent_mem hds hb
    refine ⟨c, mem_others.mpr ⟨hc, ?_⟩, rfl⟩
    rintro rfl
    have hmem : d ∈ s.level (some c.addr) := mem_level.mpr ⟨hds, hb⟩
    rw [hleaf] at hmem
    cases hmem
  · intro d hd hself
    have hlt := h.pos_lt (mem_others.mp hd).1 hself
    omega
  · exact h.pairwise.sublist hsub

/-- The addresses of a level. -/
def addrs (s : Console) (parent : Option Addr) : List Addr := (s.level parent).map ConsoleCmd.addr

theorem mem_addrs {s : Console} {parent : Option Addr} {a : Addr} :
    a ∈ addrs s parent ↔ ∃ c ∈ s.cmds, c.addr = a ∧ c.parent = parent := by
  simp only [addrs, List.mem_map, mem_level]
  constructor
  · rintro ⟨c, ⟨hc, hparent⟩, haddr⟩
    exact ⟨c, hc, haddr, hparent⟩
  · rintro ⟨c, hc, haddr, hparent⟩
    exact ⟨c, ⟨hc, hparent⟩, haddr⟩

theorem Ordered.addrs_nodup {s : Console} (h : Ordered s) (parent : Option Addr) :
    (addrs s parent).Nodup :=
  h.unaliased.sublist (List.filter_sublist.map _)

theorem addrs_others (s : Console) (a : Addr) (current parent : Option Addr) :
    addrs ⟨others s a, current⟩ parent = (addrs s parent).filter fun b => b ≠ a := by
  simp only [addrs, Console.level, others, List.filter_map, List.filter_filter, Bool.and_comm,
    Function.comp_def]

/-! ### The nodes of a tree -/

/-- The nodes in memory are the commands of the tree, and the links spell its levels. -/
structure Represents (h : Heap) (s : Console) : Prop where
  ordered : Ordered s
  live : ∀ a, (h.nodes a).isSome → ∃ c ∈ s.cmds, c.addr = a
  node : ∀ c ∈ s.cmds, ∃ next,
    h.nodes c.addr = some ⟨c, (addrs s (some c.addr)).head?, next⟩
  links : ∀ parent, Seg h.next (addrs s parent) none
  root : h.cmds_root = (addrs s none).head?
  current : h.cmds_current = (addrs s s.current).head?
  inside : ∀ a, s.current = some a → addrs s (some a) ≠ []

theorem represents_init : Represents Heap.init init where
  ordered := ordered_init
  live := by simp [Heap.init]
  node := by simp [init]
  links := by simp [addrs, Console.level, init, Seg]
  root := rfl
  current := rfl
  inside := by simp [init]

@[simp] theorem Heap.nodes_set (h : Heap) (a b : Addr) (n : Option Node) :
    (h.set a n).nodes b = if b = a then n else h.nodes b := by
  simp [Heap.set, Function.update_apply]

theorem Heap.next_set (h : Heap) (a b : Addr) (n : Option Node) :
    (h.set a n).next b = if b = a then n.map Node.next else h.next b := by
  rw [Heap.next, Heap.next, Heap.nodes_set]
  split <;> rfl

/-- Nothing is below an address that is not in use. -/
theorem Represents.addrs_free {h : Heap} {s : Console} (hr : Represents h s) {a : Addr}
    (ha : h.nodes a = none) : addrs s (some a) = [] := by
  rw [List.eq_nil_iff_forall_not_mem]
  intro b hb
  obtain ⟨d, hd, -, hparent⟩ := mem_addrs.mp hb
  obtain ⟨c, hc, rfl⟩ := hr.ordered.parent_mem hd hparent
  obtain ⟨n, hn⟩ := hr.node c hc
  rw [ha] at hn
  cases hn

theorem Represents.addr_ne {h : Heap} {s : Console} (hr : Represents h s) {a : Addr}
    (ha : h.nodes a = none) {c : ConsoleCmd} (hc : c ∈ s.cmds) : c.addr ≠ a := by
  rintro rfl
  obtain ⟨n, hn⟩ := hr.node c hc
  rw [ha] at hn
  cases hn

theorem addrs_length {s : Console} (parent : Option Addr) :
    (addrs s parent).length ≤ s.cmds.length := by
  rw [addrs, List.length_map]
  exact List.length_filter_le _ _

/-! ### Registration -/

section

variable {h : Heap} {s : Console} {parent : Option Addr} {cmd : CStr} {callback : Option UInt32}
  {mode : Nat} {help : Option CStr} {a : Addr}

theorem addrs_register (q : Option Addr) :
    addrs (console_register_cmd2 s parent cmd callback mode help (some a)) q =
      addrs s q ++ if parent = q then [a] else [] := by
  simp only [addrs, Console.level, console_register_cmd2, List.filter_append, List.map_append]
  congr 1
  by_cases hq : parent = q <;> simp [hq]

theorem ordered_register (hr : Represents h s) (ha : h.nodes a = none)
    (hparent : ∀ p, parent = some p → (h.nodes p).isSome) :
    Ordered (console_register_cmd2 s parent cmd callback mode help (some a)) := by
  have hfresh : ∀ c ∈ s.cmds, c.addr ≠ a := fun c hc => hr.addr_ne ha hc
  have hlive : ∀ p, parent = some p → ∃ c ∈ s.cmds, c.addr = p :=
    fun p hp => hr.live p (hparent p hp)
  have hreg : Ordered (_console_register_cmd s parent cmd callback mode help (some a)) :=
    hr.ordered.register hfresh hlive
  -- the abbreviations do not matter
  rw [ordered_iff] at hreg ⊢
  have hcores : (console_register_cmd2 s parent cmd callback mode help
      (some a)).cmds.map ConsoleCmd.core = (_console_register_cmd s parent cmd callback mode help
      (some a)).cmds.map ConsoleCmd.core := by
    simp [_console_register_cmd, console_build_shortest, ConsoleCmd.core, Function.comp_def]
  rwa [hcores]

variable (cmd callback mode help) in
/-- The new command is linked behind the last one of its level. -/
theorem represents_appendTo (hr : Represents h s) (ha : h.nodes a = none)
    (hparent : ∀ p, parent = some p → (h.nodes p).isSome) {start : Addr}
    (hstart : (addrs s parent).head? = some start) :
    ∃ h', (∀ fuel, s.cmds.length < fuel →
        appendTo fuel (h.set a (some ⟨newCmd parent cmd callback mode help a, none, none⟩))
          start a = some h') ∧
      Represents h' (console_register_cmd2 s parent cmd callback mode help (some a)) := by
  obtain ⟨l, b, hl⟩ : ∃ l b, addrs s parent = l ++ [b] := by
    rcases List.eq_nil_or_concat (addrs s parent) with hnil | ⟨l, b, hl⟩
    · rw [hnil] at hstart
      cases hstart
    · exact ⟨l, b, by rw [hl, List.concat_eq_append]⟩
  have hne : ∀ c ∈ s.cmds, c.addr ≠ a := fun c hc => hr.addr_ne ha hc
  have hbmem : b ∈ addrs s parent := by simp [hl]
  obtain ⟨cb, hcb, rfl, hcbparent⟩ := mem_addrs.mp hbmem
  obtain ⟨nb, hnb⟩ := hr.node cb hcb
  generalize hh₁ : h.set a (some ⟨newCmd parent cmd callback mode help a, none, none⟩) = h₁
  have hnodes₁ : ∀ d, h₁.nodes d =
      if d = a then some ⟨newCmd parent cmd callback mode help a, none, none⟩ else h.nodes d := by
    intro d
    rw [← hh₁, Heap.nodes_set]
  have hnext₁ : ∀ d, d ≠ a → h₁.next d = h.next d := by
    intro d hd
    rw [Heap.next, hnodes₁, if_neg hd, Heap.next]
  -- the walk finds the last command of the level
  have hseg : Seg h₁.next (l ++ [cb.addr]) none := by
    rw [← hl]
    refine (hr.links parent).congr fun d hd => hnext₁ d ?_
    obtain ⟨c, hc, rfl, -⟩ := mem_addrs.mp hd
    exact hne c hc
  have hlen : l.length < s.cmds.length := by
    have := addrs_length (s := s) parent
    rw [hl, List.length_append, List.length_singleton] at this
    omega
  generalize hh₂ : h₁.set cb.addr (some ⟨cb, (addrs s (some cb.addr)).head?, some a⟩) = h₂
  have happend : ∀ fuel, s.cmds.length < fuel → appendTo fuel h₁ start a = some h₂ := by
    intro fuel hfuel
    have hlast := last_loop hseg (hl ▸ hstart) (Nat.lt_trans hlen hfuel)
    rw [appendTo, hlast, Option.join_some, Option.bind_some, hnodes₁, if_neg (hne cb hcb), hnb,
      Option.map_some, hh₂]
  have hnodes₂ : ∀ d, h₂.nodes d =
      if d = cb.addr then some ⟨cb, (addrs s (some cb.addr)).head?, some a⟩
      else if d = a then some ⟨newCmd parent cmd callback mode help a, none, none⟩
      else h.nodes d := by
    intro d
    rw [← hh₂, Heap.nodes_set, hnodes₁]
  have hnext₂ : ∀ d, h₂.next d =
      if d = cb.addr then some (some a) else if d = a then some none else h.next d := by
    intro d
    rw [Heap.next, hnodes₂]
    split
    · rfl
    · split <;> rfl
  have hhead : ∀ q, addrs s q ≠ [] ∨ parent ≠ q →
      (addrs (console_register_cmd2 s parent cmd callback mode help (some a)) q).head? =
        (addrs s q).head? := by
    intro q hq
    rw [addrs_register]
    by_cases hsame : parent = q
    · have hnonempty := hq.resolve_right (not_not.mpr hsame)
      rw [List.head?_append_of_ne_nil _ hnonempty]
    · simp [hsame]
  have hnonempty : addrs s parent ≠ [] := by simp [hl]
  have hcmds : (console_register_cmd2 s parent cmd callback mode help (some a)).cmds =
      s.cmds ++ [newCmd parent cmd callback mode help a] := rfl
  have hcurrent : (console_register_cmd2 s parent cmd callback mode help (some a)).current =
      s.current := by
    have hroot : ¬ (parent = none ∧ s.cmds_root = []) := by
      rintro ⟨rfl, hroot⟩
      apply hnonempty
      rw [addrs, ← Console.cmds_root, hroot]
      rfl
    simp [console_register_cmd2, hroot]
  refine ⟨h₂, happend, ordered_register hr ha hparent, ?_, ?_, ?_, ?_, ?_, ?_⟩
  · intro d hd
    rw [hcmds]
    rw [hnodes₂] at hd
    split at hd
    · rename_i hdb
      exact ⟨cb, List.mem_append_left _ hcb, hdb.symm⟩
    · split at hd
      · rename_i hda
        exact ⟨_, List.mem_append_right _ (List.mem_singleton_self _), hda.symm⟩
      · obtain ⟨c, hc, rfl⟩ := hr.live d hd
        exact ⟨c, List.mem_append_left _ hc, rfl⟩
  · intro c hc
    rw [hcmds, List.mem_append, List.mem_singleton] at hc
    rcases hc with hc | rfl
    · rw [hhead (some c.addr)]
      · rw [hnodes₂]
        split
        · rename_i hcb'
          obtain rfl := hr.ordered.unaliased.eq hc hcb hcb'
          exact ⟨_, rfl⟩
        · rw [if_neg (hne c hc)]
          exact hr.node c hc
      · by_cases hsame : parent = some c.addr
        · exact .inl (hsame ▸ hnonempty)
        · exact .inr hsame
    · -- nothing is below the new command
      have hself : parent ≠ some a := by
        rintro rfl
        have := hparent a rfl
        rw [ha] at this
        cases this
      have hnew : (addrs (console_register_cmd2 s parent cmd callback mode help (some a))
          (some a)).head? = none := by
        rw [addrs_register, hr.addrs_free ha, if_neg hself]
        rfl
      have hnode : h₂.nodes a = some ⟨newCmd parent cmd callback mode help a,
          (addrs (console_register_cmd2 s parent cmd callback mode help (some a))
            (some a)).head?, none⟩ := by
        rw [hnodes₂, if_neg (hne cb hcb).symm, if_pos rfl, hnew]
      exact ⟨none, hnode⟩
  · intro q
    rw [addrs_register]
    by_cases hq : parent = q
    · subst hq
      rw [if_pos rfl, hl]
      refine (hl ▸ hr.links parent).concat ?_ ?_ ?_
      · rw [hnext₂, if_pos rfl]
      · rw [hnext₂, if_neg (hne cb hcb).symm, if_pos rfl]
      · intro d hd
        have hnodup := hr.ordered.addrs_nodup parent
        rw [hl, List.nodup_append] at hnodup
        have hdb : d ≠ cb.addr := hnodup.2.2 d hd cb.addr (List.mem_singleton_self _)
        obtain ⟨c, hc, rfl, -⟩ := mem_addrs.mp (hl ▸ List.mem_append_left _ hd : d ∈ addrs s parent)
        rw [hnext₂, if_neg hdb, if_neg (hne c hc)]
    · rw [if_neg hq, List.append_nil]
      refine (hr.links q).congr fun d hd => ?_
      obtain ⟨c, hc, rfl, hcq⟩ := mem_addrs.mp hd
      have hdb : c.addr ≠ cb.addr := by
        intro hcb'
        obtain rfl := hr.ordered.unaliased.eq hc hcb hcb'
        exact hq (hcbparent.symm.trans hcq)
      rw [hnext₂, if_neg hdb, if_neg (hne c hc)]
  · have hroot : h₂.cmds_root = h.cmds_root := by
      rw [← hh₂, ← hh₁]
      rfl
    rw [hroot, hr.root, hhead none]
    by_cases hsame : parent = none
    · exact .inl (hsame ▸ hnonempty)
    · exact .inr hsame
  · have hcur : h₂.cmds_current = h.cmds_current := by
      rw [← hh₂, ← hh₁]
      rfl
    rw [hcur, hr.current, hcurrent, hhead s.current]
    by_cases hsame : parent = s.current
    · exact .inl (hsame ▸ hnonempty)
    · exact .inr hsame
  · intro d hd
    rw [hcurrent] at hd
    rw [addrs_register]
    simp [hr.inside d hd]

/-- The new command is the first one of its level. -/
theorem represents_first (hr : Represents h s) (ha : h.nodes a = none)
    (hparent : ∀ p, parent = some p → (h.nodes p).isSome) (hempty : addrs s parent = []) {h' : Heap}
    (hnodes : ∀ d, h'.nodes d =
      if d = a then some ⟨newCmd parent cmd callback mode help a, none, none⟩
      else if parent = some d then (h.nodes d).map fun n => { n with children := some a }
      else h.nodes d)
    (hroot : h'.cmds_root = if parent = none then some a else h.cmds_root)
    (hcurrent : h'.cmds_current = if parent = none then some a else h.cmds_current) :
    Represents h' (console_register_cmd2 s parent cmd callback mode help (some a)) := by
  have hne : ∀ c ∈ s.cmds, c.addr ≠ a := fun c hc => hr.addr_ne ha hc
  have hcmds : (console_register_cmd2 s parent cmd callback mode help (some a)).cmds =
      s.cmds ++ [newCmd parent cmd callback mode help a] := rfl
  have hself : parent ≠ some a := by
    rintro rfl
    have := hparent a rfl
    rw [ha] at this
    cases this
  have hnext : ∀ d, d ≠ a → h'.next d = h.next d := by
    intro d hd
    rw [Heap.next, hnodes, if_neg hd, Heap.next]
    split
    · rw [Option.map_map]
      rfl
    · rfl
  have hcurrent' : parent = none →
      (console_register_cmd2 s parent cmd callback mode help (some a)).current = none := by
    rintro rfl
    have hroots : s.cmds_root = [] := by
      rw [addrs, List.map_eq_nil_iff] at hempty
      exact hempty
    simp [console_register_cmd2, hroots]
  have hcurrent'' : parent ≠ none →
      (console_register_cmd2 s parent cmd callback mode help (some a)).current = s.current := by
    intro hnone
    simp [console_register_cmd2, hnone]
  refine ⟨ordered_register hr ha hparent, ?_, ?_, ?_, ?_, ?_, ?_⟩
  · intro d hd
    rw [hcmds]
    rw [hnodes] at hd
    by_cases hda : d = a
    · exact ⟨_, List.mem_append_right _ (List.mem_singleton_self _), hda.symm⟩
    · have hlive : (h.nodes d).isSome := by
        rw [if_neg hda] at hd
        split at hd
        · simpa using hd
        · exact hd
      obtain ⟨c, hc, rfl⟩ := hr.live d hlive
      exact ⟨c, List.mem_append_left _ hc, rfl⟩
  · intro c hc
    rw [hcmds, List.mem_append, List.mem_singleton] at hc
    rcases hc with hc | rfl
    · obtain ⟨n, hn⟩ := hr.node c hc
      refine ⟨n, ?_⟩
      rw [hnodes, if_neg (hne c hc), hn, addrs_register]
      by_cases hsame : parent = some c.addr
      · rw [if_pos hsame, if_pos hsame, ← hsame, hempty]
        rfl
      · rw [if_neg hsame, if_neg hsame, List.append_nil]
    · refine ⟨none, ?_⟩
      have hnew : addrs (console_register_cmd2 s parent cmd callback mode help (some a))
          (some a) = [] := by
        rw [addrs_register, hr.addrs_free ha, if_neg hself]
        rfl
      have hnode := hnodes a
      rw [if_pos rfl] at hnode
      rw [show (newCmd parent cmd callback mode help a).addr = a from rfl, hnew]
      exact hnode
  · intro q
    rw [addrs_register]
    by_cases hq : parent = q
    · subst hq
      rw [if_pos rfl, hempty]
      refine ⟨?_, trivial⟩
      rw [Heap.next, hnodes, if_pos rfl]
      rfl
    · rw [if_neg hq, List.append_nil]
      refine (hr.links q).congr fun d hd => hnext d ?_
      obtain ⟨c, hc, rfl, -⟩ := mem_addrs.mp hd
      exact hne c hc
  · rw [hroot, addrs_register]
    by_cases hnone : parent = none
    · subst hnone
      rw [hempty]
      rfl
    · rw [if_neg hnone, if_neg hnone, List.append_nil, hr.root]
  · rw [hcurrent]
    by_cases hnone : parent = none
    · subst hnone
      rw [hcurrent' rfl, addrs_register, hempty]
      rfl
    · rw [if_neg hnone, hcurrent'' hnone, hr.current, addrs_register, if_neg, List.append_nil]
      -- the current level has a command
      rintro rfl
      obtain ⟨p, hp⟩ := Option.ne_none_iff_exists'.mp hnone
      exact hr.inside p hp (hp ▸ hempty)
  · intro d hd
    by_cases hnone : parent = none
    · rw [hcurrent' hnone] at hd
      cases hd
    · rw [hcurrent'' hnone] at hd
      rw [addrs_register]
      simp [hr.inside d hd]

variable (cmd callback mode help) in
/-- `console_register_cmd2` in memory is the one on the list of the commands. -/
theorem Represents.register (hr : Represents h s) {node : Option Addr}
    (hnode : ∀ a ∈ node, h.nodes a = none)
    (hparent : ∀ p ∈ parent, (h.nodes p).isSome) :
    ∃ h', (∀ fuel, s.cmds.length < fuel →
        h.console_register_cmd2 fuel parent cmd callback mode help node = some h') ∧
      Represents h' (console_register_cmd2 s parent cmd callback mode help node) := by
  cases node with
  | none => exact ⟨h, fun _ _ => rfl, hr⟩
  | some a =>
    have ha := hnode a rfl
    have hne : ∀ c ∈ s.cmds, c.addr ≠ a := fun c hc => hr.addr_ne ha hc
    cases parent with
    | none =>
      cases hstart : (addrs s none).head? with
      | some start =>
        obtain ⟨h', hh', hr'⟩ :=
          represents_appendTo cmd callback mode help hr ha hparent hstart
        refine ⟨h', ?_, hr'⟩
        have hroot : (h.set a (some ⟨newCmd none cmd callback mode help a, none,
            none⟩)).cmds_root = some start := hr.root.trans hstart
        rw [newCmd] at hroot hh'
        simp only [Heap.console_register_cmd2, hroot]
        exact hh'
      | none =>
        have hempty : addrs s none = [] := by simpa using hstart
        have hroot : (h.set a (some ⟨newCmd none cmd callback mode help a, none,
            none⟩)).cmds_root = none := hr.root.trans hstart
        rw [newCmd] at hroot
        simp only [Heap.console_register_cmd2, hroot]
        refine ⟨_, fun _ _ => rfl, represents_first hr ha hparent hempty ?_ rfl rfl⟩
        intro d
        rw [Heap.nodes_set]
        simp [newCmd]
    | some p =>
      obtain ⟨c, hc, rfl⟩ := hr.live p (hparent p rfl)
      obtain ⟨n, hn⟩ := hr.node c hc
      have hp : (h.set a (some ⟨newCmd (some c.addr) cmd callback mode help a, none,
          none⟩)).nodes c.addr = some ⟨c, (addrs s (some c.addr)).head?, n⟩ := by
        rw [Heap.nodes_set, if_neg (hne c hc), hn]
      cases hstart : (addrs s (some c.addr)).head? with
      | some start =>
        obtain ⟨h', hh', hr'⟩ :=
          represents_appendTo cmd callback mode help hr ha hparent hstart
        refine ⟨h', ?_, hr'⟩
        rw [newCmd] at hp hh'
        simp only [Heap.console_register_cmd2, hp, hstart]
        exact hh'
      | none =>
        have hempty : addrs s (some c.addr) = [] := by simpa using hstart
        rw [newCmd] at hp
        simp only [Heap.console_register_cmd2, hp, hstart]
        refine ⟨_, fun _ _ => rfl, represents_first hr ha hparent hempty ?_ rfl rfl⟩
        intro d
        rw [Heap.nodes_set, Heap.nodes_set]
        by_cases hdc : d = c.addr
        · subst hdc
          rw [if_pos rfl, if_neg (hne c hc), if_pos rfl, hn]
          rfl
        · have hdc' : some c.addr ≠ some d := fun heq => hdc (Option.some.inj heq).symm
          rw [if_neg hdc, if_neg hdc']
          rfl

end

end Hcrtos.Native.Console
