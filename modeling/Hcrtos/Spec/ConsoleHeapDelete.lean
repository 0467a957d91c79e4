import Hcrtos.Spec.ConsoleHeapUnlink
import Mathlib.Data.FinEnum

/-!
# The command tree in memory: deleting a subtree

`console_delete_cmd` deletes the children of a command one by one, each time the first one that is
left, and then takes the command out of its level.

## Key results

- `below_iff`: a subtree is a command and the subtrees of its children
- `childrenLoop_spec`: the loop over the children
- `Represents.delete`: the tree without the subtree
-/

namespace Hcrtos.Native.Console

open CString Chain Hcrtos.Loop

/-! ### Subtrees -/

/-- `b` is in the subtree of `a`. -/
def Below (s : Console) : Addr → Addr → Prop :=
  Relation.ReflTransGen fun a b => b ∈ addrs s (some a)

section

variable {s : Console} {a b : Addr}

theorem below_iff : Below s a b ↔ b = a ∨ ∃ d ∈ addrs s (some a), Below s d b := by
  rw [Below, Relation.ReflTransGen.cases_head_iff, eq_comm]

theorem Ordered.pos_le_of_below (h : Ordered s) (hb : Below s a b) : pos s a ≤ pos s b := by
  induction hb with
  | refl => exact Nat.le_refl _
  | tail _ hlast ih =>
    obtain ⟨d, hd, rfl, hparent⟩ := mem_addrs.mp hlast
    have := h.pos_lt hd hparent
    omega

/-- A parent is in no subtree of its children. -/
theorem Ordered.not_below_parent (h : Ordered s) (hb : b ∈ addrs s (some a)) : ¬ Below s b a := by
  intro hbelow
  obtain ⟨d, hd, rfl, hparent⟩ := mem_addrs.mp hb
  have hlt := h.pos_lt hd hparent
  have hle := h.pos_le_of_below hbelow
  omega

/-- The subtrees of two commands with one parent are apart. -/
theorem Ordered.not_below_sibling (h : Ordered s) {d : Addr} (hb : b ∈ addrs s (some a))
    (hd : d ∈ addrs s (some a)) (hne : d ≠ b) : ¬ Below s b d := by
  intro hbelow
  obtain ⟨e, he, rfl, hparent⟩ := mem_addrs.mp hd
  rcases Relation.ReflTransGen.cases_tail hbelow with heq | ⟨x, hbx, hx⟩
  · exact hne heq
  · -- the last link is the one from the parent
    obtain ⟨e', he', haddr, hparent'⟩ := mem_addrs.mp hx
    obtain rfl := h.unaliased.eq he' he haddr
    obtain rfl : a = x := by simpa [hparent] using hparent'
    exact h.not_below_parent hb hbx

/-- No command has more than `n - 1` commands below it in a line. -/
def Shallow (s : Console) : Nat → Addr → Prop
  | 0, _ => False
  | n + 1, a => ∀ b ∈ addrs s (some a), Shallow s n b

theorem Shallow.mono {s' : Console} (hsub : ∀ q, ∀ b ∈ addrs s' q, b ∈ addrs s q) {n : Nat} :
    ∀ {a : Addr}, Shallow s n a → Shallow s' n a := by
  induction n with
  | zero => exact fun h => h
  | succ n ih => exact fun h b hb => ih (h b (hsub _ b hb))

theorem Ordered.shallow (h : Ordered s) {n : Nat} : ∀ {a : Addr}, Within s n (some a) →
    Shallow s (n + 1) a := by
  induction n with
  | zero =>
    intro a hwithin b hb
    obtain ⟨d, hd, -, hparent⟩ := mem_addrs.mp hb
    obtain ⟨i, hi⟩ := List.mem_iff_getElem?.mp hd
    have hle := hwithin i d hi hparent
    have hlt := (List.getElem?_eq_some_iff.mp hi).1
    omega
  | succ n ih =>
    intro a hwithin b hb
    obtain ⟨d, hd, rfl, hparent⟩ := mem_addrs.mp hb
    exact ih (h.within_children hwithin (mem_level.mpr ⟨hd, hparent⟩))

end

/-! ### What is left -/

open scoped Classical in
/-- The commands that are in none of some subtrees. -/
noncomputable def outside (s : Console) (roots : List Addr) : List ConsoleCmd :=
  s.cmds.filter fun d => ∀ a ∈ roots, ¬ Below s a d.addr

section

variable {s s' : Console} {roots : List Addr}

theorem mem_outside {d : ConsoleCmd} :
    d ∈ outside s roots ↔ d ∈ s.cmds ∧ ∀ a ∈ roots, ¬ Below s a d.addr := by
  simp [outside]

theorem mem_addrs_outside (hs' : s'.cmds = outside s roots) {q : Option Addr} {b : Addr} :
    b ∈ addrs s' q ↔ b ∈ addrs s q ∧ ∀ a ∈ roots, ¬ Below s a b := by
  simp only [mem_addrs, hs', mem_outside]
  constructor
  · rintro ⟨c, ⟨hc, hout⟩, rfl, hq⟩
    exact ⟨⟨c, hc, rfl, hq⟩, hout⟩
  · rintro ⟨⟨c, hc, rfl, hq⟩, hout⟩
    exact ⟨c, ⟨hc, hout⟩, rfl, hq⟩

theorem addrs_outside (hs' : s'.cmds = outside s roots) (q : Option Addr) :
    addrs s' q = open scoped Classical in
      (addrs s q).filter fun b => ∀ a ∈ roots, ¬ Below s a b := by
  classical
  simp only [addrs, Console.level, hs', outside, List.filter_map, List.filter_filter,
    Bool.and_comm, Function.comp_def]

/-- What is left has the subtrees that it had. -/
theorem below_outside (hs' : s'.cmds = outside s roots) {x y : Addr}
    (hy : ∀ a ∈ roots, ¬ Below s a y) : Below s' x y ↔ Below s x y := by
  constructor
  · intro h
    exact Relation.ReflTransGen.mono (fun _ _ hb => ((mem_addrs_outside hs').mp hb).1) _ _ h
  · intro h
    induction h with
    | refl => exact .refl
    | tail _ hlast ih =>
      -- a command above one that is left is left too
      refine (ih fun a ha hbelow => hy a ha (hbelow.tail hlast)).tail ?_
      exact (mem_addrs_outside hs').mpr ⟨hlast, hy⟩

theorem outside_outside {roots' : List Addr} (hs' : s'.cmds = outside s roots) :
    outside s' roots' = outside s (roots ++ roots') := by
  rw [outside, outside, hs', outside, List.filter_filter]
  apply List.filter_congr
  intro d _
  have hiff : ((∀ a ∈ roots', ¬ Below s' a d.addr) ∧ ∀ a ∈ roots, ¬ Below s a d.addr) ↔
      ∀ a ∈ roots ++ roots', ¬ Below s a d.addr := by
    simp only [List.mem_append, or_imp, forall_and]
    constructor
    · rintro ⟨h', h⟩
      exact ⟨h, fun a ha hbelow => h' a ha ((below_outside hs' h).mpr hbelow)⟩
    · rintro ⟨h, h'⟩
      exact ⟨fun a ha hbelow => h' a ha ((below_outside hs' h).mp hbelow), h⟩
  rw [Bool.eq_iff_iff]
  simpa using hiff

theorem length_outside_le : (outside s roots).length ≤ s.cmds.length := List.length_filter_le _ _

end

/-! ### Deletion -/

/-- What a call that deletes a subtree does, however much fuel it has beyond the depth `n` of the
    subtree. -/
def Deletes (n : Nat) : Prop :=
  ∀ h s c, Represents h s → c ∈ s.cmds → Shallow s n c.addr →
    ∃ h' s', (∀ limit fuel, s.cmds.length < limit → n ≤ fuel →
        console_delete_cmd limit fuel h c.addr = some h') ∧
      Represents h' s' ∧ s'.cmds = outside s [c.addr]

/-- The loop deletes the children one by one. -/
theorem childrenLoop_spec {n : Nat} (hdelete : Deletes n) {a : Addr} : ∀ {l : List Addr} {h : Heap}
    {s : Console}, Represents h s → addrs s (some a) = l → (∀ b ∈ l, Shallow s n b) →
    ∃ h' s', (∀ limit fuel loops, s.cmds.length < limit → n ≤ fuel → l.length < loops →
        loop (childrenBody (console_delete_cmd limit fuel)) loops (h, l.head?) =
          some (some h')) ∧
      Represents h' s' ∧ s'.cmds = outside s l := by
  intro l
  induction l with
  | nil =>
    intro h s hr _ _
    refine ⟨h, s, ?_, hr, by simp [outside]⟩
    intro limit fuel loops _ _ hloops
    obtain ⟨loops, rfl⟩ : ∃ k, loops = k + 1 := ⟨loops - 1, by omega⟩
    rfl
  | cons b l ih =>
    intro h s hr hl hshallow
    have hs := hr.ordered
    have hb : b ∈ addrs s (some a) := by simp [hl]
    obtain ⟨c, hc, rfl, -⟩ := mem_addrs.mp hb
    obtain ⟨next, hn⟩ := hr.node c hc
    -- the next child is read before this one is deleted
    have hnext : next = l.head? := by
      have hnl := (hl ▸ hr.links (some a) : Seg h.next (c.addr :: l) none).1
      rw [Heap.next, hn, Option.or_none] at hnl
      exact Option.some.inj hnl
    obtain ⟨h₁, s₁, hh₁, hr₁, hs₁⟩ := hdelete h s c hr hc (hshallow c.addr List.mem_cons_self)
    have hnodup := hs.addrs_nodup (some a)
    rw [hl, List.nodup_cons] at hnodup
    -- the other children are in no subtree of this one
    have hl₁ : addrs s₁ (some a) = l := by
      classical
      rw [addrs_outside hs₁, hl, List.filter_cons_of_neg, List.filter_eq_self]
      · intro d hd
        have hdc : d ≠ c.addr := by
          rintro rfl
          exact hnodup.1 hd
        have hd' : d ∈ addrs s (some a) := hl ▸ List.mem_cons_of_mem _ hd
        simpa using hs.not_below_sibling hb hd' hdc
      · have hself : Below s c.addr c.addr := .refl
        simpa using hself
    have hmono : ∀ q, ∀ b ∈ addrs s₁ q, b ∈ addrs s q :=
      fun q b hb => ((mem_addrs_outside hs₁).mp hb).1
    have hlen : s₁.cmds.length ≤ s.cmds.length := hs₁ ▸ length_outside_le
    obtain ⟨h₂, s₂, hh₂, hr₂, hs₂⟩ := ih hr₁ hl₁
      fun b hb => (hshallow b (List.mem_cons_of_mem _ hb)).mono hmono
    refine ⟨h₂, s₂, ?_, hr₂, ?_⟩
    · intro limit fuel loops hlimit hfuel hloops
      obtain ⟨loops, rfl⟩ : ∃ k, loops = k + 1 := ⟨loops - 1, by omega⟩
      simp only [List.head?_cons, loop, childrenBody, hn, hh₁ limit fuel hlimit hfuel]
      rw [hnext]
      exact hh₂ limit fuel loops (by omega) hfuel (by simpa using hloops)
    · rw [hs₂, outside_outside hs₁]
      rfl

/-- A command and the subtrees of its children are its subtree. -/
theorem others_outside {s s₁ : Console} {c : ConsoleCmd}
    (hs₁ : s₁.cmds = outside s (addrs s (some c.addr))) :
    others s₁ c.addr = outside s [c.addr] := by
  classical
  rw [others, hs₁, outside, outside, List.filter_filter]
  apply List.filter_congr
  intro d _
  rw [Bool.eq_iff_iff]
  simp only [Bool.and_eq_true, decide_eq_true_eq, List.mem_singleton, forall_eq]
  rw [below_iff]
  simp only [not_or, not_exists, not_and]

theorem deletes (n : Nat) : Deletes n := by
  induction n with
  | zero =>
    intro h s c _ _ hshallow
    cases hshallow
  | succ n ih =>
    intro h s c hr hc hshallow
    have hs := hr.ordered
    obtain ⟨next, hn⟩ := hr.node c hc
    obtain ⟨h₁, s₁, hh₁, hr₁, hs₁⟩ := childrenLoop_spec ih hr (a := c.addr) rfl hshallow
    -- the command itself is left, without children
    have hc₁ : c ∈ s₁.cmds := by
      rw [hs₁, mem_outside]
      exact ⟨hc, fun a ha => hs.not_below_parent ha⟩
    have hleaf : addrs s₁ (some c.addr) = [] := by
      rw [List.eq_nil_iff_forall_not_mem]
      intro b hb
      obtain ⟨hb, hout⟩ := (mem_addrs_outside hs₁).mp hb
      exact hout b hb .refl
    obtain ⟨next₁, hn₁⟩ := hr₁.node c hc₁
    obtain ⟨h₂, hh₂, hr₂⟩ := hr₁.unlink hc₁ hleaf
    -- the pointer to the level, through the node of the parent
    have hchildren : ∀ p, c.parent = some p →
        (h₁.nodes p).map Node.children = some (addrs s₁ c.parent).head? := by
      intro p hparent
      obtain ⟨cp, hcp, rfl⟩ := hr₁.ordered.parent_mem hc₁ hparent
      obtain ⟨pnext, hp⟩ := hr₁.node cp hcp
      simp [hp, hparent]
    have hlen : s₁.cmds.length ≤ s.cmds.length := hs₁ ▸ length_outside_le
    refine ⟨_, _, ?_, hr₂, others_outside hs₁⟩
    intro limit fuel hlimit hfuel
    obtain ⟨fuel, rfl⟩ : ∃ k, fuel = k + 1 := ⟨fuel - 1, by omega⟩
    have hloop := hh₁ limit fuel limit hlimit (by omega)
      (Nat.lt_of_le_of_lt (addrs_length _) hlimit)
    have hunlink := hh₂ limit (by omega)
    simp only [console_delete_cmd, hn, Option.bind_some, hloop, Option.join_some, hn₁]
    cases hparent : c.parent with
    | none =>
      rw [hparent, ← hr₁.root] at hunlink
      simp only [Option.bind_some, hunlink, Option.join_some, Option.map_some]
    | some p =>
      simp only [hchildren p hparent, Option.bind_some, hunlink, Option.join_some,
        Option.map_some]

/-- `console_delete_cmd` takes a command and what is below it out of the tree. -/
theorem Represents.delete {h : Heap} {s : Console} (hr : Represents h s) {c : ConsoleCmd}
    (hc : c ∈ s.cmds) :
    ∃ h' s', (∀ limit fuel, s.cmds.length < limit → s.cmds.length < fuel →
        console_delete_cmd limit fuel h c.addr = some h') ∧
      Represents h' s' ∧ s'.cmds = outside s [c.addr] := by
  have hpos : 0 < s.cmds.length := List.length_pos_of_mem hc
  obtain ⟨n, hn⟩ : ∃ n, s.cmds.length = n + 1 := ⟨s.cmds.length - 1, by omega⟩
  have hwithin : Within s n (some c.addr) :=
    hr.ordered.within_children (hn ▸ within_root s c.parent) (mem_level.mpr ⟨hc, rfl⟩)
  obtain ⟨h', s', hh', hr', hs'⟩ := deletes (n + 1) h s c hr hc (hr.ordered.shallow hwithin)
  exact ⟨h', s', fun limit fuel hlimit hfuel => hh' limit fuel hlimit (by omega), hr', hs'⟩

end Hcrtos.Native.Console
