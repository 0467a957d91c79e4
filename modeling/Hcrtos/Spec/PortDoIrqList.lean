import Mathlib.Data.List.Nodup
import Mathlib.Data.List.Perm.Subperm
import Hcrtos.Native.PortDoIrq

/-!
# The handlers of an interrupt in memory: the list

What the memory stands for is a list of entries, an address with its block. An installation appends
an entry, and a removal takes out the first one whose block is for the function.

## Key results

- `Represents`: the memory and the list
- `Represents.install`: an installation
- `Represents.find`, `Represents.remove`: a removal
-/

namespace Hcrtos.Native.PortDoIrq

open PortInterrupt Circular Loop Lts

/-- An address with the block there. -/
abbrev Entry := Addr × IsrCtrlBlk

/-! ### Reads and writes -/

section

variable {m : Mem} {a v : Addr}

theorem next_eq_none_iff : m.next a = none ↔ m.list a = none := by
  simp [Mem.next]

theorem Mem.setNext_spec (ha : (m.next a).isSome) : ∃ m', m.setNext a v = some m' ∧
    m'.next = Function.update m.next a (some v) ∧ m'.prev = m.prev ∧ m'.isrcb = m.isrcb := by
  rw [Mem.next, Option.isSome_map] at ha
  obtain ⟨e, he⟩ := Option.isSome_iff_exists.mp ha
  refine ⟨⟨Function.update m.list a (some { e with next := v }), m.isrcb⟩,
    by rw [Mem.setNext, he, Option.map_some], ?_, ?_, rfl⟩
  · funext b
    by_cases hb : b = a <;> simp [Mem.next, hb]
  · funext b
    by_cases hb : b = a <;> simp [Mem.prev, hb, he]

theorem Mem.setPrev_spec (ha : (m.next a).isSome) : ∃ m', m.setPrev a v = some m' ∧
    m'.prev = Function.update m.prev a (some v) ∧ m'.next = m.next ∧ m'.isrcb = m.isrcb := by
  rw [Mem.next, Option.isSome_map] at ha
  obtain ⟨e, he⟩ := Option.isSome_iff_exists.mp ha
  refine ⟨⟨Function.update m.list a (some { e with prev := v }), m.isrcb⟩,
    by rw [Mem.setPrev, he, Option.map_some], ?_, ?_, rfl⟩
  · funext b
    by_cases hb : b = a <;> simp [Mem.prev, hb]
  · funext b
    by_cases hb : b = a <;> simp [Mem.next, hb, he]

theorem list_add_spec {new prev next : Addr} (hnew : (m.next new).isSome)
    (hprev : (m.next prev).isSome) (hnext : (m.next next).isSome) :
    ∃ m', __list_add m new prev next = some m' ∧
      m'.next = Function.update (Function.update m.next new (some next)) prev (some new) ∧
      m'.prev = Function.update (Function.update m.prev next (some new)) new (some prev) ∧
      m'.isrcb = m.isrcb := by
  obtain ⟨m₁, h₁, hp₁, hn₁, hb₁⟩ := m.setPrev_spec (v := new) hnext
  obtain ⟨m₂, h₂, hn₂, hp₂, hb₂⟩ := m₁.setNext_spec (a := new) (v := next) (hn₁ ▸ hnew)
  have hnew₂ : (m₂.next new).isSome := by simp [hn₂]
  obtain ⟨m₃, h₃, hp₃, hn₃, hb₃⟩ := m₂.setPrev_spec (v := prev) hnew₂
  have hprev₃ : (m₃.next prev).isSome := by
    rw [hn₃, hn₂, hn₁, Function.update_apply]
    split
    · rfl
    · exact hprev
  obtain ⟨m₄, h₄, hn₄, hp₄, hb₄⟩ := m₃.setNext_spec (v := new) hprev₃
  refine ⟨m₄, by simp [__list_add, h₁, h₂, h₃, h₄], ?_, ?_, ?_⟩
  · rw [hn₄, hn₃, hn₂, hn₁]
  · rw [hp₄, hp₃, hp₂, hp₁]
  · rw [hb₄, hb₃, hb₂, hb₁]

theorem list_del_spec {entry prev next : Addr} (hn : m.next entry = some next)
    (hp : m.prev entry = some prev) (hprev : (m.next prev).isSome) (hnext : (m.next next).isSome) :
    ∃ m', list_del m entry = some m' ∧
      m'.next = Function.update (Function.update m.next prev (some next)) entry
        (some LIST_POISON1) ∧
      m'.prev = Function.update (Function.update m.prev next (some prev)) entry
        (some LIST_POISON2) ∧
      m'.isrcb = m.isrcb := by
  obtain ⟨e, he, rfl⟩ := Option.map_eq_some_iff.mp hn
  obtain rfl : e.prev = prev := by simpa [Mem.prev, he] using hp
  obtain ⟨m₁, h₁, hp₁, hn₁, hb₁⟩ := m.setPrev_spec (v := e.prev) hnext
  obtain ⟨m₂, h₂, hn₂, hp₂, hb₂⟩ := m₁.setNext_spec (v := e.next) (hn₁ ▸ hprev)
  have hentry₂ : (m₂.next entry).isSome := by
    rw [hn₂, hn₁, Function.update_apply]
    split
    · rfl
    · rw [hn]
      rfl
  obtain ⟨m₃, h₃, hn₃, hp₃, hb₃⟩ := m₂.setNext_spec (v := LIST_POISON1) hentry₂
  have hentry₃ : (m₃.next entry).isSome := by simp [hn₃]
  obtain ⟨m₄, h₄, hp₄, hn₄, hb₄⟩ := m₃.setPrev_spec (v := LIST_POISON2) hentry₃
  refine ⟨m₄, by simp [list_del, __list_del, he, h₁, h₂, h₃, h₄], ?_, ?_, ?_⟩
  · rw [hn₄, hn₃, hn₂, hn₁]
  · rw [hp₄, hp₃, hp₂, hp₁]
  · rw [hb₄, hb₃, hb₂, hb₁]

end

/-! ### The list in memory -/

/-- The memory in use is the head and the entries of the list, linked in its order. -/
structure Represents (head : Addr) (m : Mem) (l : List Entry) : Prop where
  nodup : (head :: l.map Prod.fst).Nodup
  ring : Looped m.next m.prev head (l.map Prod.fst)
  isrcb : ∀ a b, m.isrcb a = some b ↔ (a, b) ∈ l
  live : ∀ a, (m.next a).isSome → a ∈ head :: l.map Prod.fst

theorem represents_init (head : Addr) : Represents head (INIT_LIST_HEAD head) [] where
  nodup := by simp
  ring := by simp [Looped, Linked, INIT_LIST_HEAD, Mem.next, Mem.prev]
  isrcb := by simp [INIT_LIST_HEAD]
  live := by
    intro a ha
    simp only [INIT_LIST_HEAD, Mem.next, Function.update_apply] at ha
    split at ha
    · rename_i hhead
      exact List.mem_cons.mpr (.inl hhead)
    · cases ha

section

variable {head : Addr} {m : Mem} {l xs ys : List Entry} {e : Entry}

theorem Represents.next_head (hr : Represents head m l) :
    m.next head = some ((l.map Prod.fst).head?.getD head) :=
  hr.ring.next_head

theorem Represents.next_entry (hr : Represents head m (xs ++ e :: ys)) :
    m.next e.1 = some ((ys.map Prod.fst).head?.getD head) := by
  have hring := hr.ring
  rw [List.map_append, List.map_cons] at hring
  exact hring.next_eq

theorem Represents.prev_entry (hr : Represents head m (xs ++ e :: ys)) :
    m.prev e.1 = some ((xs.map Prod.fst).getLast?.getD head) := by
  have hring := hr.ring
  rw [List.map_append, List.map_cons] at hring
  exact hring.prev_eq

/-- All links lead to memory in use. -/
theorem Represents.isSome_next (hr : Represents head m l) {a : Addr}
    (ha : a ∈ head :: l.map Prod.fst) : (m.next a).isSome := by
  rcases List.mem_cons.mp ha with rfl | ha
  · rw [hr.next_head]
    rfl
  · obtain ⟨e, he, rfl⟩ := List.mem_map.mp ha
    obtain ⟨xs, ys, rfl⟩ := List.append_of_mem he
    rw [hr.next_entry]
    rfl

/-- What is in front of the entries `ys`, or the head. -/
theorem head?_getD_mem (head : Addr) (xs ys : List Entry) :
    (ys.map Prod.fst).head?.getD head ∈ head :: (xs ++ ys).map Prod.fst := by
  cases ys with
  | nil => simp
  | cons e ys => simp

/-- The last one of the entries `xs`, or the head. -/
theorem getLast?_getD_mem (head : Addr) (xs ys : List Entry) :
    (xs.map Prod.fst).getLast?.getD head ∈ head :: (xs ++ ys).map Prod.fst := by
  rcases List.eq_nil_or_concat xs with rfl | ⟨xs, e, rfl⟩
  · simp
  · simp

/-- A list has no more entries than there are addresses. -/
theorem Represents.length_le (hr : Represents head m l) : l.length ≤ 2 ^ 32 := by
  have hnodup : (l.map fun e => e.1.toNat).Nodup := by
    have hfst := (List.nodup_cons.mp hr.nodup).2
    have hmap : ((l.map Prod.fst).map UInt32.toNat).Nodup :=
      List.Nodup.map (fun _ _ h => UInt32.toNat_inj.mp h) hfst
    rwa [List.map_map] at hmap
  have hsub : (l.map fun e => e.1.toNat) ⊆ List.range (2 ^ 32) := by
    intro n hn
    obtain ⟨e, -, rfl⟩ := List.mem_map.mp hn
    exact List.mem_range.mpr e.1.toNat_lt
  have hle := (hnodup.subperm hsub).length_le
  rwa [List.length_map, List.length_range] at hle

/-! ### Installation -/

theorem Represents.install (hr : Represents head m l) {fn : UInt32} (param : UInt32) (hfn : fn ≠ 0)
    (type : Nat) {a : Addr} (ha : m.list a = none) :
    ∃ m', xPortInterruptInstallISR head m fn param type (some a) = some m' ∧
      Represents head m' (l ++ [(a, ⟨fn, param, type⟩)]) := by
  have hfree : m.next a = none := next_eq_none_iff.mpr ha
  have hfresh : a ∉ head :: l.map Prod.fst := by
    intro hmem
    have hsome := hr.isSome_next hmem
    rw [hfree] at hsome
    cases hsome
  obtain ⟨hhead, hnew⟩ : a ≠ head ∧ a ∉ l.map Prod.fst := by simpa using hfresh
  generalize hlast : (l.map Prod.fst).getLast?.getD head = last
  have hlastmem : last ∈ head :: l.map Prod.fst := by
    have hmem := getLast?_getD_mem head l []
    rwa [List.append_nil, hlast] at hmem
  have hlasta : last ≠ a := fun heq => hfresh (heq ▸ hlastmem)
  generalize hm₁ : m.malloc a ⟨fn, param, type⟩ = m₁
  have hnext₁ : ∀ b, m₁.next b = if b = a then some 0 else m.next b := by
    intro b
    rw [← hm₁]
    by_cases hb : b = a <;> simp [Mem.next, Mem.malloc, hb]
  have hprev₁ : ∀ b, m₁.prev b = if b = a then some 0 else m.prev b := by
    intro b
    rw [← hm₁]
    by_cases hb : b = a <;> simp [Mem.prev, Mem.malloc, hb]
  have hprevhead : m₁.prev head = some last := by
    rw [hprev₁, if_neg hhead.symm, hr.ring.prev_head, hlast]
  obtain ⟨m', hm', hn', hp', hb'⟩ := @list_add_spec m₁ a last head (by simp [hnext₁])
    (by rw [hnext₁, if_neg hlasta]; exact hr.isSome_next hlastmem)
    (by rw [hnext₁, if_neg hhead.symm]; exact hr.isSome_next List.mem_cons_self)
  have hnext : ∀ b, m'.next b =
      if b = last then some a else if b = a then some head else m.next b := by
    intro b
    rw [hn', Function.update_apply, Function.update_apply, hnext₁]
    split
    · rfl
    · split <;> rfl
  have hprev : ∀ b, m'.prev b =
      if b = a then some last else if b = head then some a else m.prev b := by
    intro b
    rw [hp', Function.update_apply, Function.update_apply, hprev₁]
    split
    · rfl
    · rfl
  have hmap : (l ++ [(a, (⟨fn, param, type⟩ : IsrCtrlBlk))]).map Prod.fst =
      l.map Prod.fst ++ [a] := by simp
  refine ⟨m', ?_, ?_, ?_, ?_, ?_⟩
  · simp only [xPortInterruptInstallISR, if_pos hfn, hm₁, list_add_tail, hprevhead,
      Option.bind_some, hm']
  · rw [hmap, ← List.cons_append, List.nodup_append]
    refine ⟨hr.nodup, List.nodup_singleton a, ?_⟩
    intro b hb c hc
    obtain rfl := List.mem_singleton.mp hc
    exact fun heq => hfresh (heq ▸ hb)
  · rw [hmap]
    refine hr.ring.concat hr.nodup ?_ ?_ ?_ ?_ ?_ ?_
    · rw [hlast, hnext, if_pos rfl]
    · rw [hnext, if_neg hlasta.symm, if_pos rfl]
    · rw [hprev, if_neg hhead.symm, if_pos rfl]
    · rw [hprev, if_pos rfl, hlast]
    · intro u hu hne
      have hua : u ≠ a := fun heq => hfresh (heq ▸ hu)
      rw [hnext, if_neg (hlast ▸ hne), if_neg hua]
    · intro u hu
      have hua : u ≠ a := fun heq => hnew (heq ▸ hu)
      have huhead : u ≠ head := fun heq => (List.nodup_cons.mp hr.nodup).1 (heq ▸ hu)
      rw [hprev, if_neg hua, if_neg huhead]
  · intro c b
    have hisrcb : m'.isrcb c = if c = a then some ⟨fn, param, type⟩ else m.isrcb c := by
      rw [hb', ← hm₁]
      exact Function.update_apply _ _ _ _
    rw [hisrcb, List.mem_append, List.mem_singleton]
    by_cases hc : c = a
    · subst hc
      have hnot : (c, b) ∉ l := fun hmem => hnew (List.mem_map.mpr ⟨_, hmem, rfl⟩)
      simp [hnot, eq_comm]
    · simp [hc, hr.isrcb]
  · intro c hc
    rw [hmap, ← List.cons_append, List.mem_append, List.mem_singleton]
    by_cases hca : c = a
    · exact .inr hca
    · refine .inl ?_
      rw [hnext] at hc
      split at hc
      · rename_i hcl
        exact hcl ▸ hlastmem
      · exact hr.live c (by simpa [hca] using hc)

/-! ### Removal -/

/-- The search goes over the entries that are left. -/
theorem findLoop_spec {fn : UInt32} {fuel : Nat} : ∀ {xs ys : List Entry},
    Represents head m (xs ++ ys) → ys.length < fuel →
    ∀ {next}, m.next ((ys.map Prod.fst).head?.getD head) = some next →
      loop (findBody head m fn) fuel ((ys.map Prod.fst).head?.getD head, next) =
        some (some ((ys.find? fun e => e.2.isFor fn).map Prod.fst)) := by
  induction fuel with
  | zero =>
    intro xs ys _ hfuel
    omega
  | succ fuel ih =>
    intro xs ys hr hfuel next hnext
    cases ys with
    | nil => simp [loop, findBody]
    | cons e ys =>
      have hhead : e.1 ≠ head := by
        have hnodup := hr.nodup
        rw [List.nodup_cons] at hnodup
        rintro heq
        exact hnodup.1 (by simp [← heq])
      have hisrcb : m.isrcb e.1 = some e.2 := (hr.isrcb _ _).mpr (by simp)
      obtain rfl : (ys.map Prod.fst).head?.getD head = next :=
        Option.some.inj (hr.next_entry.symm.trans hnext)
      simp only [List.map_cons, List.head?_cons, Option.getD_some, loop, findBody, hhead, if_false,
        hisrcb]
      by_cases hfor : e.2.isFor fn = true
      · simp [hfor]
      · have hr' : Represents head m ((xs ++ [e]) ++ ys) := by simpa using hr
        obtain ⟨n, hn⟩ := Option.isSome_iff_exists.mp
          (hr'.isSome_next (head?_getD_mem head (xs ++ [e]) ys))
        have hloop := ih hr' (by simpa using hfuel) hn
        simp only [hfor, hn, List.find?_cons]
        simpa using hloop

theorem Represents.find (hr : Represents head m l) (fn : UInt32) :
    find head m fn = some ((l.find? fun e => e.2.isFor fn).map Prod.fst) := by
  have hsome := hr.isSome_next (head?_getD_mem head [] l)
  obtain ⟨next, hnext⟩ := Option.isSome_iff_exists.mp hsome
  have hloop := @findLoop_spec _ _ fn _ [] _ hr (Nat.lt_succ_of_le hr.length_le) _ hnext
  simp only [PortDoIrq.find, hr.next_head, hnext, hloop, Option.bind_some, Option.join_some]

/-- An entry is taken out of the list, and its block is freed. -/
theorem Represents.free (hr : Represents head m (xs ++ e :: ys)) :
    ∃ m', list_del m e.1 = some m' ∧ Represents head (m'.free e.1) (xs ++ ys) := by
  have hapart : e.1 ∉ head :: (xs ++ ys).map Prod.fst ∧
      (head :: (xs ++ ys).map Prod.fst).Nodup := by
    have hperm : (head :: (xs ++ e :: ys).map Prod.fst).Perm
        (e.1 :: head :: (xs ++ ys).map Prod.fst) := by
      have hmid : (xs ++ e :: ys).Perm (e :: (xs ++ ys)) := List.perm_middle
      exact ((hmid.map Prod.fst).cons head).trans (List.Perm.swap _ _ _)
    exact List.nodup_cons.mp (hperm.nodup hr.nodup)
  obtain ⟨hentry, hnodup⟩ := hapart
  generalize hp : (xs.map Prod.fst).getLast?.getD head = p
  generalize hn : (ys.map Prod.fst).head?.getD head = n
  have hpmem : p ∈ head :: (xs ++ ys).map Prod.fst := hp ▸ getLast?_getD_mem head xs ys
  have hnmem : n ∈ head :: (xs ++ ys).map Prod.fst := hn ▸ head?_getD_mem head xs ys
  have hall : ∀ b ∈ head :: (xs ++ ys).map Prod.fst, b ∈ head :: (xs ++ e :: ys).map Prod.fst := by
    intro b hb
    rw [List.map_append] at hb
    rw [List.map_append, List.map_cons]
    simp only [List.mem_cons, List.mem_append] at hb ⊢
    tauto
  have hne : ∀ b ∈ head :: (xs ++ ys).map Prod.fst, b ≠ e.1 := fun b hb heq => hentry (heq ▸ hb)
  have hnexte : m.next e.1 = some n := hn ▸ hr.next_entry
  have hpreve : m.prev e.1 = some p := hp ▸ hr.prev_entry
  obtain ⟨m', hm', hn', hp', hb'⟩ := list_del_spec hnexte hpreve (hr.isSome_next (hall p hpmem))
    (hr.isSome_next (hall n hnmem))
  have hnext : ∀ b, (m'.free e.1).next b =
      if b = e.1 then none else if b = p then some n else m.next b := by
    intro b
    have hfree : (m'.free e.1).next b = if b = e.1 then none else m'.next b := by
      by_cases hb : b = e.1 <;> simp [Mem.next, Mem.free, hb]
    rw [hfree, hn', Function.update_apply, Function.update_apply]
    split
    · rfl
    · rfl
  have hprev : ∀ b, (m'.free e.1).prev b =
      if b = e.1 then none else if b = n then some p else m.prev b := by
    intro b
    have hfree : (m'.free e.1).prev b = if b = e.1 then none else m'.prev b := by
      by_cases hb : b = e.1 <;> simp [Mem.prev, Mem.free, hb]
    rw [hfree, hp', Function.update_apply, Function.update_apply]
    split
    · rfl
    · rfl
  have hring := hr.ring
  rw [List.map_append, List.map_cons] at hring
  rw [List.map_append] at hnodup hne
  refine ⟨m', hm', ?_, ?_, ?_, ?_⟩
  · rwa [List.map_append]
  · rw [List.map_append]
    refine hring.unlink hnodup ?_ ?_ ?_ ?_
    · rw [hp, hn, hnext, if_neg, if_pos rfl]
      exact fun heq => hentry (heq ▸ hpmem)
    · rw [hp, hn, hprev, if_neg, if_pos rfl]
      exact fun heq => hentry (heq ▸ hnmem)
    · intro u hu hup
      rw [hnext, if_neg (hne u hu), if_neg (hp ▸ hup)]
    · intro u hu hun
      rw [hprev, if_neg (hne u hu), if_neg (hn ▸ hun)]
  · intro a b
    have hfree : (m'.free e.1).isrcb a = if a = e.1 then none else m.isrcb a := by
      rw [← hb']
      exact Function.update_apply _ _ _ _
    rw [hfree]
    by_cases ha : a = e.1
    · subst ha
      have hnot : (e.1, b) ∉ xs ++ ys := fun hmem =>
        hentry (List.mem_cons_of_mem _ (List.mem_map.mpr ⟨_, hmem, rfl⟩))
      simpa using hnot
    · have hae : (a, b) ≠ e := fun heq => ha (congrArg Prod.fst heq)
      rw [if_neg ha, hr.isrcb]
      simp [hae]
  · intro a ha
    have hae : a ≠ e.1 := by
      rintro rfl
      rw [hnext, if_pos rfl] at ha
      cases ha
    rw [hnext, if_neg hae] at ha
    split at ha
    · rename_i hap
      exact hap ▸ hpmem
    · have hmem := hr.live a ha
      rw [List.map_append, List.map_cons] at hmem
      rw [List.map_append]
      simp only [List.mem_cons, List.mem_append] at hmem ⊢
      tauto

/-- A removal takes out the first entry whose block is for the function. -/
theorem Represents.remove (hr : Represents head m l) {fn : UInt32} (hfn : fn ≠ 0) :
    (xPortInterruptRemoveISR head m fn = some (m, none)) ∨
      ∃ xs e ys m', l = xs ++ e :: ys ∧ e.2.isFor fn ∧
        xPortInterruptRemoveISR head m fn = some (m', some e.1) ∧
        Represents head m' (xs ++ ys) := by
  cases hfind : l.find? fun e => e.2.isFor fn with
  | none =>
    left
    simp [xPortInterruptRemoveISR, hfn, hr.find, hfind]
  | some e =>
    right
    obtain ⟨hfor, xs, ys, rfl, -⟩ := List.find?_eq_some_iff_append.mp hfind
    obtain ⟨m', hm', hr'⟩ := hr.free
    refine ⟨xs, e, ys, m'.free e.1, rfl, hfor, ?_, hr'⟩
    simp [xPortInterruptRemoveISR, hfn, hr.find, hfind, hm']

end

end Hcrtos.Native.PortDoIrq
