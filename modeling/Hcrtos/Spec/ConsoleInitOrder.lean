import Mathlib.Data.Finset.Card
import Mathlib.Data.List.Perm.Subperm
import Mathlib.Logic.Relation
import Hcrtos.Native.ConsoleInit

/-!
# Console commands: the order of the initial commands

`console_register_init_cmds` goes up to the ancestors of an entry that are not registered yet. The
order in which it comes to the entries is a function of the table, in which every entry stands
once, behind its parent.

## Key results

- `ancestor_length`: no entry has more ancestors than the table has entries
- `visit_spec`: what a call adds to the entries that are registered
- `order_perm`, `order_closed`: the order
-/

namespace Hcrtos.Native.Console

open CString

/-- `a` is the parent of an entry with the name `b`. -/
def ParentIn (table : List InitCmd) (a b : CStr) : Prop :=
  ∃ p ∈ table, p.cmd = b ∧ p.parent = some a

/-- The tables of initial commands: distinct names, parents that are entries, and no cycle. -/
structure Declares (table : List InitCmd) : Prop where
  names : (table.map InitCmd.cmd).Nodup
  fresh : ∀ p ∈ table, p.initialized = false
  parents : ∀ p ∈ table, ∀ q, p.parent = some q → q ∈ table.map InitCmd.cmd
  acyclic : ∀ x, ¬ Relation.TransGen (ParentIn table) x x

/-- The entry with a name. -/
def entry (table : List InitCmd) (name : CStr) : Option InitCmd :=
  table.find? fun p => p.cmd = name

section

variable {table : List InitCmd}

theorem entry_some {name : CStr} {p : InitCmd} (h : entry table name = some p) :
    p ∈ table ∧ p.cmd = name :=
  ⟨List.mem_of_find?_eq_some h, by simpa using List.find?_some h⟩

theorem Declares.eq (h : Declares table) {p q : InitCmd} (hp : p ∈ table) (hq : q ∈ table)
    (hname : p.cmd = q.cmd) : p = q :=
  List.inj_on_of_nodup_map h.names hp hq hname

theorem Declares.entry_eq (h : Declares table) {p : InitCmd} (hp : p ∈ table) :
    entry table p.cmd = some p := by
  cases hfind : entry table p.cmd with
  | none =>
    have := List.find?_eq_none.mp hfind p hp
    simp at this
  | some q =>
    obtain ⟨hq, hname⟩ := entry_some hfind
    rw [h.eq hq hp hname]

/-! ### Ancestors -/

/-- The `n`-th ancestor of a name. -/
def ancestor (table : List InitCmd) : Nat → CStr → Option CStr
  | 0, name => some name
  | n + 1, name => ((entry table name).bind InitCmd.parent).bind (ancestor table n)

theorem ancestor_add (m n : Nat) (name : CStr) :
    ancestor table (m + n) name = (ancestor table m name).bind (ancestor table n) := by
  induction m generalizing name with
  | zero => rw [Nat.zero_add]; rfl
  | succ m ih =>
    rw [Nat.succ_add, ancestor, ancestor]
    cases (entry table name).bind InitCmd.parent with
    | none => rfl
    | some q => simp [ih]

theorem ancestor_isSome_of_le {m n : Nat} (hle : m ≤ n) {name : CStr}
    (h : (ancestor table n name).isSome) : (ancestor table m name).isSome := by
  obtain ⟨k, rfl⟩ := Nat.exists_eq_add_of_le hle
  rw [ancestor_add] at h
  exact Option.isSome_of_isSome_bind h

theorem transGen_of_ancestor {n : Nat} {name a : CStr} (h : ancestor table (n + 1) name = some a) :
    Relation.TransGen (ParentIn table) a name := by
  induction n generalizing name with
  | zero =>
    rw [ancestor, Option.bind_eq_some_iff] at h
    obtain ⟨q, hq, hqa⟩ := h
    obtain ⟨p, hp, hparent⟩ := Option.bind_eq_some_iff.mp hq
    obtain rfl : q = a := by simpa [ancestor] using hqa
    exact .single ⟨p, (entry_some hp).1, (entry_some hp).2, hparent⟩
  | succ n ih =>
    rw [ancestor, Option.bind_eq_some_iff] at h
    obtain ⟨q, hq, hqa⟩ := h
    obtain ⟨p, hp, hparent⟩ := Option.bind_eq_some_iff.mp hq
    exact (ih hqa).tail ⟨p, (entry_some hp).1, (entry_some hp).2, hparent⟩

theorem Declares.ancestor_mem (h : Declares table) {n : Nat} {name a : CStr}
    (hname : name ∈ table.map InitCmd.cmd) (ha : ancestor table n name = some a) :
    a ∈ table.map InitCmd.cmd := by
  induction n generalizing name with
  | zero =>
    obtain rfl : name = a := by simpa [ancestor] using ha
    exact hname
  | succ n ih =>
    rw [ancestor, Option.bind_eq_some_iff] at ha
    obtain ⟨q, hq, hqa⟩ := ha
    obtain ⟨p, hp, hparent⟩ := Option.bind_eq_some_iff.mp hq
    exact ih (h.parents p (entry_some hp).1 q hparent) hqa

/-- A longer line of ancestors would come to a name twice. -/
theorem Declares.ancestor_length (h : Declares table) {name : CStr}
    (hname : name ∈ table.map InitCmd.cmd) : ancestor table table.length name = none := by
  by_contra hne
  have hsome : ∀ m ≤ table.length, (ancestor table m name).isSome := fun m hm =>
    ancestor_isSome_of_le hm (Option.isSome_iff_ne_none.mpr hne)
  have hcycle : ∀ i j, i < j → j ≤ table.length →
      (ancestor table i name).getD [] ≠ (ancestor table j name).getD [] := by
    intro i j hlt hj hsame
    obtain ⟨a, ha⟩ := Option.isSome_iff_exists.mp (hsome i (by omega))
    obtain ⟨b, hb⟩ := Option.isSome_iff_exists.mp (hsome j hj)
    obtain rfl : a = b := by simpa [ha, hb] using hsame
    obtain ⟨k, rfl⟩ := Nat.exists_eq_add_of_lt hlt
    rw [Nat.add_assoc, ancestor_add, ha] at hb
    exact h.acyclic a (transGen_of_ancestor hb)
  have hmaps : ∀ m ∈ Finset.range (table.length + 1),
      (ancestor table m name).getD [] ∈ (table.map InitCmd.cmd).toFinset := by
    intro m hm
    obtain ⟨a, ha⟩ := Option.isSome_iff_exists.mp (hsome m (Finset.mem_range_succ_iff.mp hm))
    rw [ha, Option.getD_some, List.mem_toFinset]
    exact h.ancestor_mem hname ha
  have hcard : (table.map InitCmd.cmd).toFinset.card < (Finset.range (table.length + 1)).card := by
    have := List.toFinset_card_le (table.map InitCmd.cmd)
    rw [List.length_map] at this
    rw [Finset.card_range]
    omega
  obtain ⟨i, hi, j, hj, hij, hsame⟩ :=
    Finset.exists_ne_map_eq_of_card_lt_of_maps_to hcard hmaps
  rw [Finset.mem_range_succ_iff] at hi hj
  rcases Nat.lt_or_gt_of_ne hij with hlt | hlt
  · exact hcycle i j hlt hj hsame
  · exact hcycle j i hlt hi hsame.symm

/-! ### The walk to the ancestors -/

/-- The entries that are registered after a call for a name, in their order. -/
def visit (table : List InitCmd) : Nat → List InitCmd → CStr → List InitCmd
  | 0, done, _ => done
  | fuel + 1, done, name =>
    match entry table name with
    | none => done
    | some p =>
      if p ∈ done then done
      else (p.parent.elim done (visit table fuel done)) ++ [p]

/-- The entries that are registered after the loop over some entries. -/
def orderFrom (table done : List InitCmd) (ps : List InitCmd) : List InitCmd :=
  ps.foldl (fun done p => visit table table.length done p.cmd) done

/-- The order in which `console_init` registers the entries. -/
def order (table : List InitCmd) : List InitCmd := orderFrom table [] table

/-- Entries of the table, each once and behind its parent. -/
structure Closed (table done : List InitCmd) : Prop where
  sub : ∀ p ∈ done, p ∈ table
  nodup : done.Nodup
  parents : ∀ pre p post, done = pre ++ p :: post → ∀ q, p.parent = some q →
    ∃ p' ∈ pre, p'.cmd = q

theorem closed_nil : Closed table [] where
  sub := by simp
  nodup := List.nodup_nil
  parents := by simp

theorem Closed.concat {done : List InitCmd} (h : Closed table done) {p : InitCmd}
    (hp : p ∈ table) (hnew : p ∉ done)
    (hparent : ∀ q, p.parent = some q → ∃ p' ∈ done, p'.cmd = q) :
    Closed table (done ++ [p]) where
  sub := by
    intro p' hp'
    rcases List.mem_append.mp hp' with hp' | hp'
    · exact h.sub p' hp'
    · exact List.mem_singleton.mp hp' ▸ hp
  nodup := by
    rw [List.nodup_append]
    refine ⟨h.nodup, List.nodup_singleton p, ?_⟩
    rintro a ha b hb rfl
    exact hnew (List.mem_singleton.mp hb ▸ ha)
  parents := by
    intro pre p' post hsplit q hq
    rcases List.eq_nil_or_concat post with rfl | ⟨post, b, rfl⟩
    · obtain ⟨rfl, hlast⟩ := List.append_inj' hsplit rfl
      obtain rfl : p = p' := by simpa using hlast
      exact hparent q hq
    · have hinit : done = pre ++ p' :: post := by
        have hsplit' : done ++ [p] = (pre ++ p' :: post) ++ [b] := by simpa using hsplit
        exact (List.append_inj' hsplit' rfl).1
      exact h.parents pre p' post hinit q hq

/-- A call for a name adds its entry and those of its ancestors. -/
theorem Declares.visit_spec (h : Declares table) {fuel : Nat} : ∀ {done : List InitCmd}
    {name : CStr}, Closed table done → name ∈ table.map InitCmd.cmd →
    ancestor table fuel name = none →
    Closed table (visit table fuel done name) ∧ done <+: visit table fuel done name ∧
      (∃ p ∈ visit table fuel done name, p.cmd = name) ∧
      ∀ p ∈ visit table fuel done name, p ∈ done ∨ p.cmd = name ∨
        Relation.TransGen (ParentIn table) p.cmd name := by
  induction fuel with
  | zero =>
    intro done name _ _ hnone
    cases hnone
  | succ fuel ih =>
    intro done name hclosed hname hnone
    obtain ⟨p, hp, rfl⟩ := List.mem_map.mp hname
    rw [visit, h.entry_eq hp]
    dsimp only
    by_cases hdone : p ∈ done
    · rw [if_pos hdone]
      exact ⟨hclosed, List.prefix_rfl, ⟨p, hdone, rfl⟩, fun p' hp' => .inl hp'⟩
    · rw [if_neg hdone]
      cases hparent : p.parent with
      | none =>
        rw [Option.elim_none]
        refine ⟨hclosed.concat hp hdone (by simp [hparent]), List.prefix_append _ _,
          ⟨p, by simp, rfl⟩, ?_⟩
        intro p' hp'
        rcases List.mem_append.mp hp' with hp' | hp'
        · exact .inl hp'
        · exact .inr (.inl (congrArg _ (List.mem_singleton.mp hp')))
      | some q =>
        have hedge : ParentIn table q p.cmd := ⟨p, hp, rfl, hparent⟩
        rw [ancestor, h.entry_eq hp, Option.bind_some, hparent, Option.bind_some] at hnone
        obtain ⟨hclosed', hprefix, hq, hnew⟩ := ih hclosed (h.parents p hp q hparent) hnone
        rw [Option.elim_some]
        -- the entry is none of its own ancestors
        have hfresh : p ∉ visit table fuel done q := by
          intro hmem
          rcases hnew p hmem with hmem | hmem | hmem
          · exact hdone hmem
          · exact h.acyclic q (.single (hmem ▸ hedge))
          · exact h.acyclic q (.head hedge hmem)
        refine ⟨hclosed'.concat hp hfresh ?_, hprefix.trans (List.prefix_append _ _),
          ⟨p, by simp, rfl⟩, ?_⟩
        · intro q' hq'
          obtain rfl : q = q' := by simpa [hparent] using hq'
          exact hq
        · intro p' hp'
          rcases List.mem_append.mp hp' with hp' | hp'
          · rcases hnew p' hp' with hp' | hp' | hp'
            · exact .inl hp'
            · exact .inr (.inr (.single (hp' ▸ hedge)))
            · exact .inr (.inr (hp'.tail hedge))
          · exact .inr (.inl (congrArg _ (List.mem_singleton.mp hp')))

theorem Declares.orderFrom_spec (h : Declares table) {ps : List InitCmd} :
    ∀ {done : List InitCmd}, Closed table done → (∀ p ∈ ps, p ∈ table) →
    Closed table (orderFrom table done ps) ∧ done <+: orderFrom table done ps ∧
      ∀ p ∈ ps, p ∈ orderFrom table done ps := by
  induction ps with
  | nil =>
    intro done hclosed _
    exact ⟨hclosed, List.prefix_rfl, by simp⟩
  | cons p ps ih =>
    intro done hclosed hps
    have hp : p ∈ table := hps p List.mem_cons_self
    have hname : p.cmd ∈ table.map InitCmd.cmd := List.mem_map_of_mem hp
    obtain ⟨hclosed', hprefix, ⟨p', hp', hname'⟩, -⟩ :=
      h.visit_spec hclosed hname (h.ancestor_length hname)
    obtain rfl : p' = p := h.eq (hclosed'.sub p' hp') hp hname'
    obtain ⟨hclosed'', hprefix', hmem⟩ :=
      ih hclosed' fun q hq => hps q (List.mem_cons_of_mem _ hq)
    refine ⟨hclosed'', hprefix.trans hprefix', ?_⟩
    intro q hq
    rcases List.mem_cons.mp hq with rfl | hq
    · exact hprefix'.mem hp'
    · exact hmem q hq

theorem Declares.order_closed (h : Declares table) : Closed table (order table) :=
  (h.orderFrom_spec closed_nil fun _ hp => hp).1

/-- The order holds every entry once. -/
theorem Declares.order_perm (h : Declares table) : (order table).Perm table := by
  obtain ⟨hclosed, -, hmem⟩ := h.orderFrom_spec closed_nil fun _ hp => hp
  rw [order, List.perm_ext_iff_of_nodup hclosed.nodup (List.Nodup.of_map _ h.names)]
  exact fun p => ⟨hclosed.sub p, hmem p⟩

end

end Hcrtos.Native.Console
