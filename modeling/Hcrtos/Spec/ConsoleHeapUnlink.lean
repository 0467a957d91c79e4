import Hcrtos.Spec.ConsoleHeapTree

/-!
# The command tree in memory: taking a command out

The end of `console_delete_cmd`, when the command has no children any more: the loop over its
level takes it out of the links, and its node is freed. When it is the first command of the
current level, the level above becomes the current one.

## Key results

- `unlink_skip`, `unlink_behind`: the loop over the level
- `Represents.unlinkFirst`: the first command of a level
- `Represents.unlink`: the tree without the command
-/

namespace Hcrtos.Native.Console

open CString Chain Hcrtos.Loop

/-! ### The loop over the level -/

section

variable {h : Heap} {fuel limit : Nat} {cmd : Addr} {start : Option Addr}

/-- Behind the command the loop changes nothing. -/
theorem unlink_skip : ∀ {fuel : Nat} {l : List Addr}, Seg h.next l none → cmd ∉ l →
    l.length < fuel →
    loop (unlinkBody limit cmd start) fuel (h, l.head?) = some (some h) := by
  intro fuel
  induction fuel with
  | zero =>
    intro l _ _ hfuel
    omega
  | succ fuel ih =>
    intro l hseg hcmd hfuel
    cases l with
    | nil => rfl
    | cons t l =>
      obtain ⟨hnext, hrest⟩ := hseg
      obtain ⟨n, hn, hnl⟩ := Option.map_eq_some_iff.mp hnext
      rw [Option.or_none] at hnl
      rw [List.mem_cons, not_or] at hcmd
      have ht : ¬ (t = cmd ∧ some t = start) := fun heq => hcmd.1 heq.1.symm
      have hl : n.next ≠ some cmd := by
        rw [hnl]
        exact fun hhead => hcmd.2 (List.mem_of_head? hhead)
      have hloop := ih hrest hcmd.2 (by simpa using hfuel)
      simp only [List.head?_cons, loop, unlinkBody, hn, ht, if_false, hl]
      rw [hnl]
      exact hloop

/-- The command in front of the one that is deleted is linked past it. -/
theorem unlink_behind {b : Addr} {l₂ : List Addr} : ∀ {fuel : Nat} {l₁ : List Addr},
    Seg h.next (l₁ ++ b :: cmd :: l₂) none → (l₁ ++ b :: cmd :: l₂).Nodup →
    (l₁ ++ b :: cmd :: l₂).length < fuel → ∃ nb, h.nodes b = some nb ∧
      loop (unlinkBody limit cmd start) fuel (h, (l₁ ++ b :: cmd :: l₂).head?) =
        some (some (h.set b (some { nb with next := l₂.head? }))) := by
  intro fuel
  induction fuel with
  | zero =>
    intro l₁ _ _ hfuel
    omega
  | succ fuel ih =>
    intro l₁ hseg hnodup hfuel
    cases l₁ with
    | nil =>
      rw [List.nil_append] at hseg hnodup hfuel ⊢
      obtain ⟨hnext, hcnext, hrest⟩ := hseg
      obtain ⟨n, hn, hnl⟩ := Option.map_eq_some_iff.mp hnext
      obtain ⟨c, hc, hcl⟩ := Option.map_eq_some_iff.mp hcnext
      rw [Option.or_none] at hcl
      rw [List.head?_cons, Option.some_or] at hnl
      simp only [List.nodup_cons, List.mem_cons, not_or] at hnodup
      have hb : ¬ (b = cmd ∧ some b = start) := fun heq => hnodup.1.1 heq.1
      refine ⟨n, hn, ?_⟩
      simp only [List.head?_cons, loop, unlinkBody, hn, hb, if_false, hnl, if_true, hc]
      rw [hcl]
      refine unlink_skip (hrest.congr ?_) hnodup.2.1 (by simp at hfuel; omega)
      intro d hd
      have hdb : d ≠ b := by
        rintro rfl
        exact hnodup.1.2 hd
      rw [Heap.next_set, if_neg hdb]
    | cons t l₁ =>
      obtain ⟨hnext, hrest⟩ := hseg
      obtain ⟨n, hn, hnl⟩ := Option.map_eq_some_iff.mp hnext
      rw [List.append_eq, Option.or_none] at hnl
      rw [List.cons_append, List.nodup_cons] at hnodup
      have ht : ¬ (t = cmd ∧ some t = start) := by
        rintro ⟨rfl, -⟩
        exact hnodup.1 (by simp)
      -- the next command stands in front of the one that is deleted
      have hl : n.next ≠ some cmd := by
        rw [hnl]
        intro hhead
        cases l₁ with
        | nil =>
          obtain rfl : b = cmd := by simpa using hhead
          simp at hnodup
        | cons d l₁ =>
          obtain rfl : d = cmd := by simpa using hhead
          simp at hnodup
      obtain ⟨nb, hnb, hloop⟩ := ih hrest hnodup.2 (by simpa using hfuel)
      refine ⟨nb, hnb, ?_⟩
      simp only [List.cons_append, List.head?_cons, loop, unlinkBody, hn, ht, if_false, hl]
      rw [hnl]
      exact hloop

end

/-! ### Names -/

/-- The nodes of the commands hold their commands, whatever their links are. -/
def Names (h : Heap) (s : Console) : Prop := ∀ c ∈ s.cmds, ∃ n, h.nodes c.addr = some n ∧ n.cmd = c

theorem Represents.names {h : Heap} {s : Console} (hr : Represents h s) : Names h s := by
  intro c hc
  obtain ⟨next, hn⟩ := hr.node c hc
  exact ⟨_, hn, rfl⟩

/-- The walk to the root ends, and all its nodes are commands. -/
theorem Names.name_settles {h : Heap} {s : Console} (hnames : Names h s) (hs : Ordered s)
    {q : Option Addr} (hq : ∀ a, q = some a → ∃ c ∈ s.cmds, c.addr = a) :
    ∃ name, ∀ fuel, s.cmds.length < fuel → console_cmd_name2 fuel h q = some name := by
  let μ : Option Addr × CStr → Nat := fun s' => s'.1.elim 0 fun a => pos s a + 1
  have hμ : ∀ {c : ConsoleCmd}, c ∈ s.cmds → ∀ name, μ (some c.addr, name) ≤ s.cmds.length := by
    intro c hc name
    have hlt : pos s c.addr < (s.cmds.map ConsoleCmd.addr).length :=
      List.idxOf_lt_length_of_mem (List.mem_map_of_mem hc)
    rw [List.length_map] at hlt
    exact hlt
  obtain ⟨b, hb, hsome⟩ := @loop_spec _ _ (nameBody h)
    (fun s' => ∀ a, s'.1 = some a → ∃ c ∈ s.cmds, c.addr = a) (fun r => r.isSome) μ
    (by
      rintro ⟨_ | a, name⟩ r hI hbody
      · obtain rfl : some name = r := by simpa [nameBody] using hbody
        rfl
      · obtain ⟨c, hc, rfl⟩ := hI a rfl
        obtain ⟨n, hn, rfl⟩ := hnames c hc
        simp [nameBody, hn] at hbody)
    (by
      rintro ⟨_ | a, name⟩ s' hI hbody
      · cases hbody
      · obtain ⟨c, hc, rfl⟩ := hI a rfl
        obtain ⟨n, hn, rfl⟩ := hnames c hc
        simp only [nameBody, hn, Sum.inr.injEq] at hbody
        subst hbody
        refine ⟨fun p hp => hs.parent_mem hc hp, ?_⟩
        -- a parent stands in front of its children
        cases hparent : n.cmd.parent with
        | none => simp [μ]
        | some p =>
          have hlt := hs.pos_lt hc hparent
          simpa [μ] using hlt)
    (s.cmds.length + 1) (q, []) hq
    (by
      cases q with
      | none => exact Nat.succ_pos _
      | some a =>
        obtain ⟨c, hc, rfl⟩ := hq a rfl
        exact Nat.lt_succ_of_le (hμ hc []))
  obtain ⟨name, rfl⟩ := Option.isSome_iff_exists.mp hsome
  refine ⟨name, fun fuel hfuel => ?_⟩
  rw [console_cmd_name2, loop_mono hb hfuel, Option.join_some]

/-! ### The first command of a level -/

/-- The level that is the current one when a command is gone. -/
def currentWithout (s : Console) (c : ConsoleCmd) : Option Addr :=
  if (addrs s s.current).head? = some c.addr then (above s c.parent).join else s.current

/-- The tree without a command. -/
def without (s : Console) (c : ConsoleCmd) : Console := ⟨others s c.addr, currentWithout s c⟩

section

variable {h : Heap} {s : Console} {c : ConsoleCmd}

theorem addrs_without (q : Option Addr) :
    addrs (without s c) q = (addrs s q).filter fun b => b ≠ c.addr :=
  addrs_others s c.addr _ q

theorem addrs_without_of_ne (hs : Ordered s) (hc : c ∈ s.cmds) {q : Option Addr}
    (hq : c.parent ≠ q) : addrs (without s c) q = addrs s q := by
  rw [addrs_without, List.filter_eq_self]
  intro b hb
  obtain ⟨d, hd, rfl, hdq⟩ := mem_addrs.mp hb
  have hne : d.addr ≠ c.addr := by
    intro heq
    obtain rfl := hs.unaliased.eq hd hc heq
    exact hq hdq
  simpa using hne

theorem addrs_without_self (hs : Ordered s) {l₁ l₂ : List Addr}
    (hl : addrs s c.parent = l₁ ++ c.addr :: l₂) : addrs (without s c) c.parent = l₁ ++ l₂ := by
  have hnodup := hs.addrs_nodup c.parent
  rw [hl, List.nodup_append] at hnodup
  have hfront : l₁.filter (fun b => b ≠ c.addr) = l₁ := by
    rw [List.filter_eq_self]
    intro b hb
    simpa using hnodup.2.2 b hb c.addr List.mem_cons_self
  have hback : l₂.filter (fun b => b ≠ c.addr) = l₂ := by
    rw [List.filter_eq_self]
    intro b hb
    have hne : b ≠ c.addr := by
      rintro rfl
      exact (List.nodup_cons.mp hnodup.2.1).1 hb
    simpa using hne
  rw [addrs_without, hl, List.filter_append, List.filter_cons_of_neg (by simp), hfront, hback]

/-- The level above the children of a command, found through pointers of the levels. -/
theorem Names.leaveLevel (hnames : Names h s) (hs : Ordered s) {p : ConsoleCmd} (hp : p ∈ s.cmds)
    (hchildren : ∀ q, p.parent = some q → ∃ n, h.nodes q = some n ∧
      n.children = (addrs s (some q)).head?) :
    ∃ h', (∀ fuel, s.cmds.length < fuel → leaveLevel fuel h p.addr = some h') ∧
      h'.nodes = h.nodes ∧ h'.cmds_root = h.cmds_root ∧
      h'.cmds_current = if p.parent = none then h.cmds_root else (addrs s p.parent).head? := by
  obtain ⟨pn, hpn, hpcmd⟩ := hnames p hp
  simp only [Console.leaveLevel, hpn, Option.bind_some, hpcmd]
  cases hparent : p.parent with
  | none => exact ⟨_, fun _ _ => rfl, rfl, rfl, rfl⟩
  | some q =>
    obtain ⟨n, hn, hhead⟩ := hchildren q hparent
    -- the command itself is in the level
    have hmem : p.addr ∈ addrs s (some q) := mem_addrs.mpr ⟨p, hp, rfl, hparent⟩
    obtain ⟨current, hcurrent⟩ : ∃ current, (addrs s (some q)).head? = some current :=
      Option.isSome_iff_exists.mp (by
        rw [List.isSome_head?]
        exact List.ne_nil_of_mem hmem)
    obtain ⟨d, hd, rfl, hdq⟩ := mem_addrs.mp (List.mem_of_head? hcurrent)
    obtain ⟨dn, hdn, hdcmd⟩ := hnames d hd
    obtain ⟨name, hname⟩ := hnames.name_settles hs fun a ha => hs.parent_mem hd ha
    refine ⟨{ h with cmds_current := some d.addr, promptstr := some name }, ?_, rfl, rfl,
      by simp [hcurrent]⟩
    intro fuel hfuel
    dsimp only
    rw [hn, Option.bind_some, hhead, hcurrent, Option.bind_some, hdn, Option.bind_some, hdcmd,
      enterLevel, hname fuel hfuel, Option.map_some]

theorem Represents.unlinkFirst (hr : Represents h s) (hc : c ∈ s.cmds) {l₂ : List Addr}
    (hl : addrs s c.parent = c.addr :: l₂) {n : Node} (hn : h.nodes c.addr = some n) :
    ∃ h', (∀ fuel, s.cmds.length < fuel →
        unlinkFirst fuel h c.addr n (some c.addr) = some h') ∧
      (∀ d, h'.nodes d =
        if c.parent = some d then (h.nodes d).map fun m => { m with children := l₂.head? }
        else h.nodes d) ∧
      h'.cmds_root = (if c.parent = none then l₂.head? else h.cmds_root) ∧
      h'.cmds_current = (addrs (without s c) (currentWithout s c)).head? := by
  have hs := hr.ordered
  have hcmd : n.cmd = c := by
    obtain ⟨next, hn'⟩ := hr.node c hc
    rw [hn, Option.some.injEq] at hn'
    rw [hn']
  have hnext : n.next = l₂.head? := by
    have hseg := hr.links c.parent
    rw [hl] at hseg
    have hnl := hseg.1
    rw [Heap.next, hn, Option.or_none] at hnl
    exact Option.some.inj hnl
  -- the pointer to the level
  obtain ⟨h₁, hh₁, hnodes, hroot, hcurrent⟩ : ∃ h₁,
      (if some c.addr = h.cmds_root then some { h with cmds_root := n.next }
        else n.cmd.parent.bind fun p =>
          (h.nodes p).map fun pn => h.set p (some { pn with children := n.next })) = some h₁ ∧
      (∀ d, h₁.nodes d =
        if c.parent = some d then (h.nodes d).map fun m => { m with children := l₂.head? }
        else h.nodes d) ∧
      h₁.cmds_root = (if c.parent = none then l₂.head? else h.cmds_root) ∧
      h₁.cmds_current = h.cmds_current := by
    rw [hcmd, hnext]
    cases hparent : c.parent with
    | none =>
      have hstart : some c.addr = h.cmds_root := by
        rw [hr.root, ← hparent, hl]
        rfl
      rw [if_pos hstart]
      exact ⟨_, rfl, fun d => by simp, by simp, rfl⟩
    | some p =>
      have hstart : some c.addr ≠ h.cmds_root := by
        rw [hr.root]
        intro hhead
        obtain ⟨d, hd, hdc, hdroot⟩ := mem_addrs.mp (List.mem_of_head? hhead.symm)
        obtain rfl := hs.unaliased.eq hd hc hdc
        rw [hparent] at hdroot
        cases hdroot
      obtain ⟨cp, hcp, rfl⟩ := hs.parent_mem hc hparent
      obtain ⟨np, hnp⟩ := hr.node cp hcp
      rw [if_neg hstart, Option.bind_some, hnp, Option.map_some]
      refine ⟨_, rfl, ?_, by simp [Heap.set], rfl⟩
      intro d
      rw [Heap.nodes_set]
      by_cases hd : d = cp.addr
      · subst hd
        simp [hnp]
      · have hd' : some cp.addr ≠ some d := fun heq => hd (Option.some.inj heq).symm
        rw [if_neg hd, if_neg hd']
  have hnames : Names h₁ s := by
    intro d hd
    obtain ⟨m, hm, hmd⟩ := hr.names d hd
    rw [hnodes]
    split
    · exact ⟨{ m with children := l₂.head? }, by rw [hm]; rfl, hmd⟩
    · exact ⟨m, hm, hmd⟩
  simp only [Console.unlinkFirst, hh₁, Option.bind_some]
  by_cases hfirst : h.cmds_current = some c.addr
  · -- the level above becomes the current one
    have hwithout : currentWithout s c = (above s c.parent).join :=
      if_pos (hr.current.symm.trans hfirst)
    have hcur : h₁.cmds_current = some c.addr := hcurrent.trans hfirst
    simp only [hcur, if_true, hwithout, hcmd]
    cases hparent : c.parent with
    | none =>
      have hself := @addrs_without_self _ _ hs [] _ hl
      simp only [hparent] at hnodes hroot hself
      refine ⟨_, fun _ _ => rfl, hnodes, hroot, ?_⟩
      rw [List.nil_append] at hself
      exact hroot.trans (congrArg List.head? hself.symm)
    | some p =>
      obtain ⟨cp, hcp, rfl⟩ := hs.parent_mem hc hparent
      have habove : above s (some cp.addr) = some cp.parent :=
        hs.unaliased.above_eq (mem_level.mpr ⟨hcp, rfl⟩)
      have hne : c.parent ≠ cp.parent := by
        rw [hparent]
        intro hloop
        have hlt := hs.pos_lt hcp hloop.symm
        omega
      have hchildren : ∀ q, cp.parent = some q → ∃ n, h₁.nodes q = some n ∧
          n.children = (addrs s (some q)).head? := by
        intro q hq
        obtain ⟨d, hd, rfl⟩ := hs.parent_mem hcp hq
        obtain ⟨next, hnode⟩ := hr.node d hd
        rw [hnodes, if_neg (hq ▸ hne), hnode]
        exact ⟨_, rfl, rfl⟩
      obtain ⟨h', hh', hnodes', hroot', hcurrent'⟩ := hnames.leaveLevel hs hcp hchildren
      rw [habove, Option.join_some]
      refine ⟨h', hh', ?_, ?_, ?_⟩
      · intro d
        rw [hnodes', hnodes]
        simp only [hparent]
      · rw [hroot', hroot]
        simp only [hparent]
      · have hroot₁ : h₁.cmds_root = h.cmds_root := by
          rw [hroot, if_neg]
          rw [hparent]
          exact Option.some_ne_none _
        rw [addrs_without_of_ne hs hc hne, hcurrent']
        by_cases hnone : cp.parent = none
        · rw [if_pos hnone, hroot₁, hr.root, hnone]
        · rw [if_neg hnone]
  · have hwithout : currentWithout s c = s.current :=
      if_neg fun hhead => hfirst (hr.current.trans hhead)
    have hcur : ¬ h₁.cmds_current = some c.addr := fun h => hfirst (hcurrent.symm.trans h)
    simp only [hcur, if_false, hwithout]
    refine ⟨h₁, fun _ _ => rfl, hnodes, hroot, ?_⟩
    rw [hcurrent, hr.current, addrs_without_of_ne hs hc]
    -- the command is the first one of its level
    intro hsame
    apply hfirst
    rw [hr.current, ← hsame, hl]
    rfl

/-! ### The tree without the command -/

/-- The current level keeps a command. -/
theorem Represents.inside_without (hr : Represents h s) (hc : c ∈ s.cmds) {q : Addr}
    (hq : currentWithout s c = some q) : addrs (without s c) (some q) ≠ [] := by
  have hs := hr.ordered
  rw [currentWithout] at hq
  split at hq
  · -- the parent of the command is in the level above
    obtain ⟨p, hp⟩ : ∃ p, c.parent = some p := by
      cases hparent : c.parent with
      | none =>
        rw [hparent] at hq
        cases hq
      | some p => exact ⟨p, rfl⟩
    obtain ⟨cp, hcp, rfl⟩ := hs.parent_mem hc hp
    have habove : above s (some cp.addr) = some cp.parent :=
      hs.unaliased.above_eq (mem_level.mpr ⟨hcp, rfl⟩)
    rw [hp, habove, Option.join_some] at hq
    have hne : cp.addr ≠ c.addr := by
      have := hs.pos_lt hc hp
      rintro heq
      rw [heq] at this
      omega
    apply List.ne_nil_of_mem (a := cp.addr)
    rw [addrs_without, List.mem_filter]
    exact ⟨mem_addrs.mpr ⟨cp, hcp, rfl, hq⟩, by simpa using hne⟩
  · rename_i hhead
    obtain ⟨b, l, hl⟩ := List.exists_cons_of_ne_nil (hr.inside q hq)
    rw [hq, hl] at hhead
    apply List.ne_nil_of_mem (a := b)
    rw [addrs_without, hl, List.mem_filter]
    refine ⟨List.mem_cons_self, ?_⟩
    simpa using hhead

theorem Represents.live_others (hr : Represents h s) {h' : Heap}
    (hlive : ∀ d, (h'.nodes d).isSome → (h.nodes d).isSome) :
    ∀ d, ((h'.set c.addr none).nodes d).isSome → ∃ e ∈ (without s c).cmds, e.addr = d := by
  intro d hd
  rw [Heap.nodes_set] at hd
  by_cases hdc : d = c.addr
  · rw [if_pos hdc] at hd
    cases hd
  · rw [if_neg hdc] at hd
    obtain ⟨e, he, rfl⟩ := hr.live d (hlive d hd)
    exact ⟨e, mem_others.mpr ⟨he, hdc⟩, rfl⟩

/-- The first command of a level is taken out. -/
theorem Represents.unlink_first (hr : Represents h s) (hc : c ∈ s.cmds)
    (hleaf : addrs s (some c.addr) = []) {l₂ : List Addr} (hl : addrs s c.parent = c.addr :: l₂) :
    ∃ h', (∀ fuel, s.cmds.length < fuel →
        loop (unlinkBody fuel c.addr (some c.addr)) fuel (h, some c.addr) = some (some h')) ∧
      Represents (h'.set c.addr none) (without s c) := by
  have hs := hr.ordered
  obtain ⟨next, hn⟩ := hr.node c hc
  obtain ⟨h', hh', hnodes, hroot, hcurrent⟩ := hr.unlinkFirst hc hl hn
  have hself : c.parent ≠ some c.addr := by
    intro hself
    have := hs.pos_lt hc hself
    omega
  have hnodup := hs.addrs_nodup c.parent
  rw [hl, List.nodup_cons] at hnodup
  have hseg := hr.links c.parent
  rw [hl] at hseg
  have hnl : next = l₂.head? := by
    have hnl := hseg.1
    rw [Heap.next, hn, Option.or_none] at hnl
    exact Option.some.inj hnl
  have hnext : ∀ d, h'.next d = h.next d := by
    intro d
    rw [Heap.next, hnodes, Heap.next]
    split
    · rw [Option.map_map]
      rfl
    · rfl
  have hwithout : addrs (without s c) c.parent = l₂ := @addrs_without_self _ _ hs [] _ hl
  have hlen : l₂.length < s.cmds.length := by
    have := addrs_length (s := s) c.parent
    rw [hl, List.length_cons] at this
    omega
  refine ⟨h', ?_, hs.without (by simpa [addrs] using hleaf) _, ?_, ?_, ?_, ?_, hcurrent,
    fun q hq => hr.inside_without hc hq⟩
  · intro fuel hfuel
    obtain ⟨fuel', rfl⟩ : ∃ fuel', fuel = fuel' + 1 := ⟨fuel - 1, by omega⟩
    have hskip := @unlink_skip _ (fuel' + 1) c.addr (some c.addr) fuel' _
      (hseg.2.congr fun d _ => hnext d) hnodup.1 (by omega)
    have hn' : h'.nodes c.addr = some ⟨c, (addrs s (some c.addr)).head?, next⟩ := by
      rw [hnodes, if_neg hself, hn]
    have hne : next ≠ some c.addr := by
      rw [hnl]
      exact fun hhead => hnodup.1 (List.mem_of_head? hhead)
    simp only [loop, unlinkBody, hn, true_and, if_true, hh' _ hfuel, hn', hne, if_false]
    rw [hnl]
    exact hskip
  · apply hr.live_others
    intro d hd
    rw [hnodes] at hd
    split at hd
    · simpa using hd
    · exact hd
  · intro e he
    obtain ⟨he, hne⟩ := mem_others.mp he
    obtain ⟨enext, hen⟩ := hr.node e he
    refine ⟨enext, ?_⟩
    rw [Heap.nodes_set, if_neg hne, hnodes, hen]
    by_cases hsame : c.parent = some e.addr
    · rw [if_pos hsame, ← hsame, hwithout]
      rfl
    · rw [if_neg hsame, addrs_without_of_ne hs hc hsame]
  · intro q
    by_cases hq : c.parent = q
    · subst hq
      rw [hwithout]
      refine hseg.2.congr fun d hd => ?_
      have hne : d ≠ c.addr := by
        rintro rfl
        exact hnodup.1 hd
      rw [Heap.next_set, if_neg hne, hnext]
    · rw [addrs_without_of_ne hs hc hq]
      refine (hr.links q).congr fun d hd => ?_
      have hne : d ≠ c.addr := by
        obtain ⟨e, he, rfl, heq⟩ := mem_addrs.mp hd
        intro haddr
        obtain rfl := hs.unaliased.eq he hc haddr
        exact hq heq
      rw [Heap.next_set, if_neg hne, hnext]
  · rw [show (h'.set c.addr none).cmds_root = h'.cmds_root from rfl, hroot]
    by_cases hnone : c.parent = none
    · rw [if_pos hnone, ← hnone, hwithout]
    · rw [if_neg hnone, addrs_without_of_ne hs hc hnone, hr.root]

/-- A later command of a level is taken out. -/
theorem Represents.unlink_later (hr : Represents h s) (hc : c ∈ s.cmds)
    (hleaf : addrs s (some c.addr) = []) {l₁ l₂ : List Addr} {b : Addr}
    (hl : addrs s c.parent = l₁ ++ b :: c.addr :: l₂) {start : Option Addr} :
    ∃ h', (∀ fuel, s.cmds.length < fuel →
        loop (unlinkBody fuel c.addr start) fuel (h, (addrs s c.parent).head?) =
          some (some h')) ∧
      Represents (h'.set c.addr none) (without s c) := by
  have hs := hr.ordered
  have hnodup := hs.addrs_nodup c.parent
  have hlen := addrs_length (s := s) c.parent
  have hseg := hr.links c.parent
  have hwithout : addrs (without s c) c.parent = l₁ ++ b :: l₂ := by
    have hl' : addrs s c.parent = (l₁ ++ [b]) ++ c.addr :: l₂ := by simp [hl]
    rw [addrs_without_self hs hl', List.append_assoc, List.singleton_append]
  -- no level loses its first command
  have hhead : ∀ q, (addrs (without s c) q).head? = (addrs s q).head? := by
    intro q
    by_cases hq : c.parent = q
    · subst hq
      rw [hwithout, hl]
      cases l₁ <;> rfl
    · rw [addrs_without_of_ne hs hc hq]
  rw [hl] at hseg hnodup hlen
  obtain ⟨nb, hnb, hloop⟩ : ∃ nb, h.nodes b = some nb ∧ ∀ fuel, s.cmds.length < fuel →
      loop (unlinkBody fuel c.addr start) fuel (h, (l₁ ++ b :: c.addr :: l₂).head?) =
        some (some (h.set b (some { nb with next := l₂.head? }))) := by
    obtain ⟨d, hd, rfl, -⟩ := mem_addrs.mp (hl ▸ (by simp) : b ∈ addrs s c.parent)
    obtain ⟨next, hn⟩ := hr.node d hd
    refine ⟨_, hn, fun fuel hfuel => ?_⟩
    obtain ⟨nb, hnb, hloop⟩ := @unlink_behind _ fuel _ start _ _ _ _ hseg hnodup
      (Nat.lt_of_le_of_lt hlen hfuel)
    rw [hn, Option.some.injEq] at hnb
    rw [hloop, ← hnb]
  have hbc : b ≠ c.addr := by
    rintro rfl
    rw [List.nodup_append] at hnodup
    simp at hnodup
  obtain ⟨cb, hcb, rfl, hcbparent⟩ := mem_addrs.mp (hl ▸ (by simp) : b ∈ addrs s c.parent)
  obtain ⟨next, hnb'⟩ := hr.node cb hcb
  obtain rfl : nb = ⟨cb, (addrs s (some cb.addr)).head?, next⟩ := by
    rw [hnb, Option.some.injEq] at hnb'
    exact hnb'
  generalize hh' : h.set cb.addr (some ⟨cb, (addrs s (some cb.addr)).head?, l₂.head?⟩) = h'
  have hnodes : ∀ d, h'.nodes d =
      if d = cb.addr then some ⟨cb, (addrs s (some cb.addr)).head?, l₂.head?⟩ else h.nodes d := by
    intro d
    rw [← hh', Heap.nodes_set]
  have hcurrent : currentWithout s c = s.current := by
    rw [currentWithout, if_neg]
    intro hfirst
    -- the command is not the first one of its level
    obtain ⟨e, he, hec, heq⟩ := mem_addrs.mp (List.mem_of_head? hfirst)
    obtain rfl := hs.unaliased.eq he hc hec
    rw [← heq, hl] at hfirst
    cases l₁ with
    | nil => exact hbc (by simpa using hfirst)
    | cons d l₁ =>
      obtain rfl : d = e.addr := by simpa using hfirst
      simp at hnodup
  refine ⟨h', fun fuel hfuel => by rw [hl, hloop fuel hfuel, hh'],
    hs.without (by simpa [addrs] using hleaf) _, ?_, ?_, ?_, ?_, ?_, fun q hq => hr.inside_without hc hq⟩
  · apply hr.live_others
    intro d hd
    rw [hnodes] at hd
    split at hd
    · rename_i hdb
      rw [hdb, hnb]
      rfl
    · exact hd
  · intro e he
    obtain ⟨he, hne⟩ := mem_others.mp he
    rw [Heap.nodes_set, if_neg hne, hnodes, hhead]
    split
    · rename_i heb
      obtain rfl := hs.unaliased.eq he hcb heb
      exact ⟨_, rfl⟩
    · exact hr.node e he
  · intro q
    by_cases hq : c.parent = q
    · subst hq
      rw [hwithout]
      refine hseg.unlink ?_ ?_
      · have hcnext := (seg_append.mp hseg).2.2.1
        rw [Option.or_none] at hcnext
        rw [Heap.next_set, if_neg hbc, Heap.next, hnodes, if_pos rfl, hcnext]
        rfl
      · intro d hd
        have hmem : d ≠ c.addr ∧ d ≠ cb.addr := by
          rw [List.nodup_append] at hnodup
          simp only [List.nodup_cons, List.mem_cons, not_or] at hnodup
          rcases List.mem_append.mp hd with hd | hd
          · exact ⟨hnodup.2.2 d hd _ (by simp), hnodup.2.2 d hd _ (by simp)⟩
          · constructor
            · rintro rfl
              exact hnodup.2.1.2.1 hd
            · rintro rfl
              exact hnodup.2.1.1.2 hd
        rw [Heap.next_set, if_neg hmem.1, Heap.next, hnodes, if_neg hmem.2, Heap.next]
    · rw [addrs_without_of_ne hs hc hq]
      refine (hr.links q).congr fun d hd => ?_
      obtain ⟨e, he, rfl, heq⟩ := mem_addrs.mp hd
      have hother : ∀ {f : ConsoleCmd}, f ∈ s.cmds → f.parent = c.parent → e.addr ≠ f.addr := by
        intro f hf hfparent haddr
        obtain rfl := hs.unaliased.eq he hf haddr
        exact hq (hfparent.symm.trans heq)
      rw [Heap.next_set, if_neg (hother hc rfl), Heap.next, hnodes, if_neg (hother hcb hcbparent),
        Heap.next]
  · rw [show (h'.set c.addr none).cmds_root = h.cmds_root by rw [← hh']; rfl, hhead, hr.root]
  · rw [show (h'.set c.addr none).cmds_current = h.cmds_current by rw [← hh']; rfl, hr.current,
      without, hcurrent]
    have := hhead s.current
    rw [without, hcurrent] at this
    exact this.symm

/-- The end of `console_delete_cmd` for a command without children. -/
theorem Represents.unlink (hr : Represents h s) (hc : c ∈ s.cmds)
    (hleaf : addrs s (some c.addr) = []) :
    ∃ h', (∀ fuel, s.cmds.length < fuel →
        loop (unlinkBody fuel c.addr (addrs s c.parent).head?) fuel
          (h, (addrs s c.parent).head?) = some (some h')) ∧
      Represents (h'.set c.addr none) (without s c) := by
  have hmem : c.addr ∈ addrs s c.parent := mem_addrs.mpr ⟨c, hc, rfl, rfl⟩
  obtain ⟨l₁, l₂, hl⟩ := List.append_of_mem hmem
  rcases List.eq_nil_or_concat l₁ with rfl | ⟨l₁, b, rfl⟩
  · rw [List.nil_append] at hl
    obtain ⟨h', hh', hr'⟩ := hr.unlink_first hc hleaf hl
    exact ⟨h', by rw [hl]; exact hh', hr'⟩
  · have hl' : addrs s c.parent = l₁ ++ b :: c.addr :: l₂ := by simp [hl]
    exact hr.unlink_later hc hleaf hl'

end

end Hcrtos.Native.Console
