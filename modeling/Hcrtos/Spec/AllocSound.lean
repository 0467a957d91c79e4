import Hcrtos.Spec.AllocFragEdits

/-!
# The invariant of a pool

A pool is sound when its blocks and fragments are, when every busy block belongs to a large
object or is fragmented, and when the four counters agree with the regions that are owned and
with what is free.

## Key results

- `Sound.takes`, `Sound.gives`: a large object is allocated or freed
- `Sound.write`: programs write into their regions
- `holds_update_iff`: the regions after an edit of one run
-/

namespace Hcrtos.Native.Alloc

open Word Memory IntrusiveList Table

/-! ### Counting -/

/-- The free fragments that the entry of a block counts. -/
def spare (e : HeapInfo) : Nat := if e.status = 1 ∧ e.type ≠ 0 then e.nfree else 0

/-- Their bytes. -/
def spareSize (e : HeapInfo) : Nat := spare e * 2 ^ e.type

/-- The counters agree with the regions `R`, the clusters and the free fragments. -/
structure Counted (p : Pool) (L : Layout) (S : Finset Nat) (R : Finset (Nat × Nat)) : Prop where
  chunks_used : (p.chunks_used : WordRing) = R.card + 1
  bytes_used : (p.bytes_used : WordRing) = ∑ r ∈ R, (r.2 : WordRing) + 16 * L.infoSize
  chunks_free : p.spareChunks S = ∑ b ∈ Finset.range L.infoSize, (spare (p.table b) : WordRing)
  bytes_free : p.spareBytes S = ∑ b ∈ Finset.range L.infoSize, (spareSize (p.table b) : WordRing)
  counters : p.Counters

section

variable {p p' : Pool} {L : Layout} {S S' : Finset Nat} {E b c n a log k : Nat}
  {blocks run : Nat → List Nat} {R : Finset (Nat × Nat)}

theorem Fragmented.spare_eq (h : Fragmented p.table b log) :
    spare (p.table b) = (p.table b).nfree ∧
      spareSize (p.table b) = (p.table b).nfree * 2 ^ log := by
  have hspare : spare (p.table b) = (p.table b).nfree :=
    if_pos ⟨h.1, by rw [h.2.1]; exact h.2.2⟩
  refine ⟨hspare, ?_⟩
  unfold spareSize
  rw [hspare, h.2.1]

/-- Only fragmented blocks have free fragments. -/
theorem spare_of_not {t : Table} (h : ∀ log, ¬ Fragmented t b log) :
    spare (t b) = 0 ∧ spareSize (t b) = 0 := by
  have hspare : spare (t b) = 0 := if_neg fun hbusy => h _ ⟨hbusy.1, rfl, hbusy.2⟩
  refine ⟨hspare, ?_⟩
  unfold spareSize
  rw [hspare, Nat.zero_mul]

theorem SameFrags.spare_eq {t t' : Table} (h : SameFrags t t') (b : Nat) :
    spare (t' b) = spare (t b) ∧ spareSize (t' b) = spareSize (t b) := by
  by_cases hfrag : ∃ log, Fragmented t b log
  · obtain ⟨log, hfrag⟩ := hfrag
    rw [h.same b log hfrag]
    exact ⟨rfl, rfl⟩
  · have hnot : ∀ log, ¬ Fragmented t b log := fun log hlog => hfrag ⟨log, hlog⟩
    have hnot' : ∀ log, ¬ Fragmented t' b log := fun log hlog => hnot log (h.back b log hlog)
    rw [(spare_of_not hnot).1, (spare_of_not hnot').1, (spare_of_not hnot).2,
      (spare_of_not hnot').2]
    exact ⟨rfl, rfl⟩

/-- An operation on large objects. -/
theorem Counted.charged {R' : Finset (Nat × Nat)} {chunks bytes : WordRing}
    (h : Counted p L S R) (hcharged : Charged p p' S S' chunks bytes)
    (hsame : SameFrags p.table p'.table) (hcard : (R'.card : WordRing) = R.card + chunks)
    (hsum : ∑ r ∈ R', (r.2 : WordRing) = ∑ r ∈ R, (r.2 : WordRing) + bytes) :
    Counted p' L S' R' where
  chunks_used := by
    rw [hcharged.chunks_used, h.chunks_used, hcard]
    ring
  bytes_used := by
    rw [hcharged.bytes_used, h.bytes_used, hsum]
    ring
  chunks_free := by
    rw [hcharged.chunks_free, h.chunks_free]
    exact Finset.sum_congr rfl fun b _ => by rw [(hsame.spare_eq b).1]
  bytes_free := by
    rw [hcharged.bytes_free, h.bytes_free]
    exact Finset.sum_congr rfl fun b _ => by rw [(hsame.spare_eq b).2]
  counters := hcharged.counters h.counters

/-- The sums with a new region. -/
theorem sum_insert_region {r : Nat × Nat} (hr : r ∉ R) :
    ((insert r R).card : WordRing) = R.card + 1 ∧
      ∑ x ∈ insert r R, (x.2 : WordRing) = ∑ x ∈ R, (x.2 : WordRing) + r.2 := by
  constructor
  · rw [Finset.card_insert_of_notMem hr]
    push_cast
    ring
  · rw [Finset.sum_insert hr, add_comm]

/-- The sums without a region. -/
theorem sum_erase_region {r : Nat × Nat} (hr : r ∈ R) :
    ((R.erase r).card : WordRing) = R.card + -1 ∧
      ∑ x ∈ R.erase r, (x.2 : WordRing) = ∑ x ∈ R, (x.2 : WordRing) + -r.2 := by
  constructor
  · rw [← Finset.card_erase_add_one hr]
    push_cast
    ring
  · rw [← Finset.sum_erase_add R _ hr]
    ring

/-- The sum over the table when one entry changes. -/
theorem sum_edit {f f' : Nat → WordRing} (hb : b < n) (hother : ∀ x, x ≠ b → f' x = f x) :
    ∑ x ∈ Finset.range n, f' x = ∑ x ∈ Finset.range n, f x + (f' b - f b) := by
  have hmem : b ∈ Finset.range n := Finset.mem_range.mpr hb
  rw [← Finset.sum_erase_add _ f hmem, ← Finset.sum_erase_add _ f' hmem,
    Finset.sum_congr rfl fun x hx => hother x (Finset.ne_of_mem_erase hx)]
  ring

/-! ### Regions -/

/-- The start of a large object is in no fragmented block. -/
theorem addr_ne_frag (hheap : Heap p L S E)
    (htype : ∀ b log, Fragmented p.table b log → 3 ≤ log ∧ log < L.log) {b' : Nat}
    (hb : 0 < b') (hobj : p.table.IsObject b' n) (hfrag : Fragmented p.table b log)
    (hk : k < L.count log) : L.addr b' ≠ L.frag b log k := by
  intro heq
  have hle := hheap.run_le hobj.toIsRun
  have hpos := hobj.pos
  obtain ⟨hb', hbE⟩ := hfrag.pos hheap
  have hlog := htype b log hfrag
  have hblock := hheap.core.BLOCK_frag (by omega) hbE (by omega) hk
  rw [← heq, hheap.core.BLOCK_addr hb (hheap.core.addr_lt hb (by omega))] at hblock
  have := hfrag.outside hobj.toIsRun
  omega

/-- An address has one region. -/
theorem Holds.size_eq {c' : Nat} (hheap : Heap p L S E) (hfrags : Frags p L blocks run)
    (h : Holds p L run a c) (h' : Holds p L run a c') : c = c' := by
  generalize ha : a = a' at h'
  cases h with
  | object b n hb hobj =>
    cases h' with
    | object b' n' hb' hobj' =>
      obtain rfl := L.addr_inj (by omega) (by omega) ha
      rw [hobj.size_eq hobj']
    | frag b' log k hfrag hk hrun =>
      exact absurd ha (addr_ne_frag hheap hfrags.type (by omega) hobj hfrag hk)
  | frag b log k hfrag hk hrun =>
    cases h' with
    | object b' n' hb' hobj' =>
      exact absurd ha.symm (addr_ne_frag hheap hfrags.type (by omega) hobj' hfrag hk)
    | frag b' log' k' hfrag' hk' hrun' =>
      rw [(hfrags.frag_inj hheap hfrag hfrag' hk hk' ha).2.1]

/-! ### Soundness -/

/-- The pool `p` with the owned regions `R`. -/
structure Sound (p : Pool) (L : Layout) (S : Finset Nat) (E : Nat) (blocks run : Nat → List Nat)
    (R : Finset (Nat × Nat)) : Prop where
  heap : Heap p L S E
  limit : Limit p L E
  frags : Frags p L blocks run
  cover : ∀ b, L.infoBlocks < b → (p.table b).status = 1 → (p.table b).type = 0 →
    ∃ c n, L.infoBlocks < c ∧ p.table.IsObject c n ∧ c ≤ b ∧ b < c + n
  regions : ∀ a c, (a, c) ∈ R ↔ Holds p L run a c
  counted : Counted p L S R
  beyond : ∀ i, L.infoSize ≤ i → p.table i = ⟨0, 0, 0, 0⟩

/-- The regions `R` of a sound pool. -/
def Owns (p : Pool) (L : Layout) (R : Finset (Nat × Nat)) : Prop :=
  ∃ S E blocks run, Sound p L S E blocks run R

theorem Sound.owns (h : Sound p L S E blocks run R) : Owns p L R := ⟨S, E, blocks, run, h⟩

/-- The place of a pool is the one it was set up with. -/
theorem Owns.place (h : Owns p L R) : p.base = L.base ∧ p.top = L.top ∧ p.info = L.base ∧
    p.info_end = L.base + 16 * L.infoSize := by
  obtain ⟨S, E, blocks, run, h⟩ := h
  exact ⟨h.heap.core.base, h.heap.core.top, h.heap.core.info, h.heap.core.info_end⟩

variable (h : Sound p L S E blocks run R)
include h

theorem Sound.holds (hr : (a, c) ∈ R) : Holds p L run a c := (h.regions a c).mp hr

/-- An address has one region. -/
theorem Sound.size_eq {c' : Nat} (hr : (a, c) ∈ R) (hr' : (a, c') ∈ R) : c = c' :=
  (h.holds hr).size_eq h.heap h.frags (h.holds hr')

/-- New objects do not start at an owned region. -/
theorem Sound.ne_of_free (hb : 0 < b) (hfree : p.Free b) (hlt : L.addr b < 2 ^ 32)
    (hr : (a, c) ∈ R) : a ≠ L.addr b := by
  rintro rfl
  have hbusy := (h.holds hr).busy h.heap h.frags.type
  rw [h.heap.core.BLOCK_addr hb hlt] at hbusy
  unfold Pool.Free at hfree
  omega

/-- A large object is allocated. -/
theorem Sound.takes {E' : Nat} (htakes : Takes p p' L b n) (hb : L.infoBlocks < b) (hn : 0 < n)
    (hheap : Heap p' L S' E') (hlimit : p'.info_limit = E')
    (hcharged : Charged p p' S S' 1 (n * L.blksz)) :
    Sound p' L S' E' blocks run (insert (L.addr b, n * L.blksz) R) ∧
      ∀ r ∈ R, r.1 ≠ L.addr b := by
  have hle := hheap.run_le htakes.object.toIsRun
  have hlt := hheap.core.addr_lt (b := b) (by omega) (by omega)
  have hfresh : ∀ r ∈ R, r.1 ≠ L.addr b := fun r hr =>
    h.ne_of_free (by omega) (htakes.free b (Nat.le_refl b) (by omega)) hlt hr
  have hfrags : Frags p' L blocks run := by
    refine h.frags.congr htakes.sameFrags ?_
    rw [htakes.mem]
    exact h.frags.list
  refine ⟨?_, hfresh⟩
  constructor
  · exact hheap
  · exact .inl hlimit
  · exact hfrags
  · intro x hx hone htype
    rcases htakes.busy hone with hold | hin
    · rw [htakes.same x hold] at htype
      obtain ⟨c, m, hc, hobj, hcx, hxc⟩ := h.cover x hx hold htype
      exact ⟨c, m, hc, hobj.sameBusy htakes.same, hcx, hxc⟩
    · exact ⟨b, n, hb, htakes.object, hin⟩
  · intro a c
    rw [Finset.mem_insert, h.regions]
    constructor
    · rintro (heq | hold)
      · cases heq
        exact .object b n hb htakes.object
      · exact htakes.holds hold
    · intro hold
      obtain hold' | rfl := htakes.holds_back hheap hold
      · exact .inr hold'
      · left
        rw [hold.size_eq hheap hfrags (.object b n hb htakes.object)]
  · have hnot : (L.addr b, n * L.blksz) ∉ R := fun hr => hfresh _ hr rfl
    obtain ⟨hcard, hsum⟩ := sum_insert_region hnot
    apply h.counted.charged hcharged htakes.sameFrags hcard
    rw [hsum]
    push_cast
    rfl
  · intro i hi
    rw [htakes.beyond i hi]
    exact h.beyond i hi

/-- A large object is freed. -/
theorem Sound.gives {E' : Nat} (hobj : p.table.IsObject b n) (hb : L.infoBlocks < b)
    (hgives : Gives p p' L b n) (hheap : Heap p' L S' E') (hlimit : Limit p' L E')
    (hcharged : Charged p p' S S' (-1) (-(n * L.blksz))) :
    Sound p' L S' E' blocks run (R.erase (L.addr b, n * L.blksz)) := by
  have hle := h.heap.run_le hobj.toIsRun
  have hpos := hobj.pos
  have hlt := h.heap.core.addr_lt (b := b) (by omega) (by omega)
  have hold : Holds p L run (L.addr b) (n * L.blksz) := .object b n hb hobj
  have hfrags : Frags p' L blocks run := by
    refine h.frags.congr (hgives.sameFrags hobj.toIsRun) ?_
    rw [hgives.mem]
    exact h.frags.list
  constructor
  · exact hheap
  · exact hlimit
  · exact hfrags
  · intro x hx hone htype
    have hstatus := hgives.status x
    rw [hone] at hstatus
    split at hstatus
    · contradiction
    · rename_i hout
      rw [hgives.same x hstatus.symm (by omega)] at htype
      obtain ⟨c, m, hc, hobj', hcx, hxc⟩ := h.cover x hx hstatus.symm htype
      have hne : c ≠ b := by
        rintro rfl
        rw [hobj'.size_eq hobj] at hxc
        omega
      have hapart := h.heap.object_apart hobj hobj' hne
      exact ⟨c, m, hc, hgives.object hobj' hapart, hcx, hxc⟩
  · intro a c
    rw [Finset.mem_erase, h.regions]
    constructor
    · intro ⟨hne, hac⟩
      apply hgives.holds hobj.toIsRun hac
      intro b' n' hobj' ha
      apply h.heap.object_apart hobj hobj'
      rintro rfl
      subst ha
      exact hne (by rw [hac.size_eq h.heap h.frags hold])
    · intro hac
      refine ⟨?_, hgives.holds_back hac⟩
      intro heq
      have := hgives.ne_of_holds hpos (by omega) hheap hfrags.type hlt hac
      exact this (congrArg Prod.fst heq)
  · obtain ⟨hcard, hsum⟩ := sum_erase_region ((h.regions _ _).mpr hold)
    apply h.counted.charged hcharged (hgives.sameFrags hobj.toIsRun) hcard
    rw [hsum]
    push_cast
    rfl
  · intro i hi
    rw [hgives.beyond i hi]
    exact h.beyond i hi

/-- A program writes into a region that it owns. -/
theorem Sound.write {m : Mem} (hr : (a, c) ∈ R)
    (hmem : ∀ x, x < a ∨ a + c ≤ x → m x = p.mem x) :
    Sound { p with mem := m } L S E blocks run R where
  heap := ⟨h.heap.core.update _ _ _ _ _ _ _ _, h.heap.clusters, h.heap.index, h.heap.info⟩
  limit := h.limit
  frags := by
    refine h.frags.congr ⟨fun _ _ _ => rfl, fun _ _ hfrag => hfrag⟩ ?_
    intro log h3 hlog
    have hout : ∀ u ∈ L.head log :: freeFrags L blocks run log, u + 8 ≤ a ∨ a + c ≤ u :=
      fun u hu => h.frags.node_outside h.heap (h.holds hr) hlog hu
    apply (h.frags.list log h3 hlog).congr
    · intro u hu
      have := hout u hu
      exact load32_congr fun i hi => hmem _ (by omega)
    · intro u hu
      have := hout u (List.mem_cons_of_mem _ hu)
      exact load32_congr fun i hi => hmem _ (by omega)
  cover := h.cover
  regions x c := by
    rw [h.regions]
    constructor
    · intro hold
      cases hold with
      | object b n hb hobj => exact .object b n hb hobj
      | frag b log k hfrag hk hrun => exact .frag b log k hfrag hk hrun
    · intro hold
      cases hold with
      | object b n hb hobj => exact .object b n hb hobj
      | frag b log k hfrag hk hrun => exact .frag b log k hfrag hk hrun
  counted := { h.counted with counters := { h.counted.counters with } }
  beyond := h.beyond

omit h

/-! ### Edits of one run -/

/-- The regions after the run of one block changed. -/
theorem holds_update_iff {ks : List Nat} (hheap : Heap p L S E) (hfrags : Frags p L blocks run)
    (hfrag : Fragmented p.table b log) (hfrag' : Fragmented p'.table b log)
    (hother : ∀ x, x ≠ b → p'.table x = p.table x) :
    Holds p' L (Function.update run b ks) a c ↔
      (∃ k < L.count log, k ∉ ks ∧ a = L.frag b log k ∧ c = 2 ^ log) ∨
        (Holds p L run a c ∧ ∀ k < L.count log, a ≠ L.frag b log k) := by
  constructor
  · intro hold
    cases hold with
    | object b' n hb hobj =>
      have hout := hfrag'.outside hobj.toIsRun
      have hobj' : p.table.IsObject b' n :=
        hobj.congr fun i hi hlt => (hother i (by omega)).symm
      refine .inr ⟨.object b' n hb hobj', fun k hk => ?_⟩
      exact addr_ne_frag hheap hfrags.type (by omega) hobj' hfrag hk
    | frag b' log' k hfrag'' hk hrun =>
      by_cases hb : b' = b
      · subst hb
        obtain rfl := hfrag'.log_eq hfrag''
        rw [Function.update_self] at hrun
        exact .inl ⟨k, hk, hrun, rfl, rfl⟩
      · have hfrag₀ := hfrag''.congr (hother b' hb).symm
        rw [Function.update_of_ne hb] at hrun
        refine .inr ⟨.frag b' log' k hfrag₀ hk hrun, fun k' hk' heq => ?_⟩
        exact hb (hfrags.frag_inj hheap hfrag₀ hfrag hk hk' heq).1
  · rintro (⟨k, hk, hks, rfl, rfl⟩ | ⟨hold, hne⟩)
    · exact .frag b log k hfrag' hk (by rwa [Function.update_self])
    · cases hold with
      | object b' n hb hobj =>
        have hout := hfrag.outside hobj.toIsRun
        exact .object b' n hb (hobj.congr fun i hi hlt => hother i (by omega))
      | frag b' log' k hfrag'' hk hrun =>
        have hb : b' ≠ b := by
          rintro rfl
          obtain rfl := hfrag.log_eq hfrag''
          exact hne k hk rfl
        exact .frag b' log' k (hfrag''.congr (hother b' hb)) hk
          (by rwa [Function.update_of_ne hb])

/-- The regions in one block and those outside of it. -/
theorem holds_iff (hheap : Heap p L S E) (hfrags : Frags p L blocks run)
    (hfrag : Fragmented p.table b log) : Holds p L run a c ↔
      (∃ k < L.count log, k ∉ run b ∧ a = L.frag b log k ∧ c = 2 ^ log) ∨
        (Holds p L run a c ∧ ∀ k < L.count log, a ≠ L.frag b log k) := by
  have hupdate : Function.update run b (run b) = run := Function.update_eq_self b run
  rw [← holds_update_iff hheap hfrags hfrag hfrag (fun _ _ => rfl), hupdate]

/-- A free fragment comes into use. -/
theorem Sound.regions_insert {ks : List Nat} (h : Sound p L S E blocks run R)
    (hfrag : Fragmented p.table b log) (hfrag' : Fragmented p'.table b log)
    (hother : ∀ x, x ≠ b → p'.table x = p.table x) (hk : k < L.count log)
    (hks : ∀ j, j ∉ ks ↔ j ∉ run b ∨ j = k) (a c : Nat) :
    (a, c) ∈ insert (L.frag b log k, 2 ^ log) R ↔
      Holds p' L (Function.update run b ks) a c := by
  rw [Finset.mem_insert, h.regions, holds_update_iff h.heap h.frags hfrag hfrag' hother]
  constructor
  · rintro (heq | hold)
    · cases heq
      exact .inl ⟨k, hk, (hks k).mpr (.inr rfl), rfl, rfl⟩
    · obtain ⟨j, hj, hrun, ha, hc⟩ | hout := (holds_iff h.heap h.frags hfrag).mp hold
      · exact .inl ⟨j, hj, (hks j).mpr (.inl hrun), ha, hc⟩
      · exact .inr hout
  · rintro (⟨j, hj, hjks, rfl, rfl⟩ | ⟨hold, -⟩)
    · obtain hrun | rfl := (hks j).mp hjks
      · exact .inr (.frag b log j hfrag hj hrun)
      · exact .inl rfl
    · exact .inr hold

/-- A fragment in use becomes a free one. -/
theorem Sound.regions_erase {ks : List Nat} (h : Sound p L S E blocks run R)
    (hfrag : Fragmented p.table b log) (hfrag' : Fragmented p'.table b log)
    (hother : ∀ x, x ≠ b → p'.table x = p.table x) (hk : k < L.count log)
    (hks : ∀ j, j ∉ ks ↔ j ∉ run b ∧ j ≠ k) (a c : Nat) :
    (a, c) ∈ R.erase (L.frag b log k, 2 ^ log) ↔
      Holds p' L (Function.update run b ks) a c := by
  rw [Finset.mem_erase, h.regions, holds_update_iff h.heap h.frags hfrag hfrag' hother]
  constructor
  · intro ⟨hne, hold⟩
    obtain ⟨j, hj, hrun, rfl, rfl⟩ | hout := (holds_iff h.heap h.frags hfrag).mp hold
    · refine .inl ⟨j, hj, (hks j).mpr ⟨hrun, ?_⟩, rfl, rfl⟩
      rintro rfl
      exact hne rfl
    · exact .inr hout
  · rintro (⟨j, hj, hjks, rfl, rfl⟩ | ⟨hold, hne⟩)
    · obtain ⟨hrun, hjk⟩ := (hks j).mp hjks
      refine ⟨?_, .frag b log j hfrag hj hrun⟩
      intro heq
      exact hjk (h.frags.frag_inj h.heap hfrag hfrag hj hk (congrArg Prod.fst heq)).2.2
    · refine ⟨?_, hold⟩
      intro heq
      exact hne k hk (congrArg Prod.fst heq)

/-- The entry of one busy block changes. -/
theorem Counted.edit {R' : Finset (Nat × Nat)} {x y : WordRing} (h : Counted p L S R)
    (hb : b < L.infoSize) (hS : b ∉ S) (hother : ∀ x, x ≠ b → p'.table x = p.table x)
    (hblksz : p'.blksz = p.blksz)
    (hspare : (spare (p'.table b) : WordRing) = spare (p.table b) + x)
    (hspareSize : (spareSize (p'.table b) : WordRing) = spareSize (p.table b) + y)
    (hchunks_free : (p'.chunks_free : WordRing) = p.chunks_free + x)
    (hbytes_free : (p'.bytes_free : WordRing) = p.bytes_free + y)
    (hchunks_used : (p'.chunks_used : WordRing) - R'.card = p.chunks_used - R.card)
    (hbytes_used : (p'.bytes_used : WordRing) - ∑ r ∈ R', (r.2 : WordRing) =
      p.bytes_used - ∑ r ∈ R, (r.2 : WordRing))
    (hcounters : p'.Counters) : Counted p' L S R' where
  chunks_used := by
    rw [h.chunks_used] at hchunks_used
    rw [eq_add_of_sub_eq hchunks_used]
    ring
  bytes_used := by
    rw [h.bytes_used] at hbytes_used
    rw [eq_add_of_sub_eq hbytes_used]
    ring
  chunks_free := by
    have hedit := @sum_edit b L.infoSize (fun x => (spare (p.table x) : WordRing))
      (fun x => (spare (p'.table x) : WordRing)) hb fun x hx => by rw [hother x hx]
    have hfree := h.chunks_free
    unfold Pool.spareChunks at hfree ⊢
    rw [hedit, ← hfree, hchunks_free, hspare]
    ring
  bytes_free := by
    have hedit := @sum_edit b L.infoSize (fun x => (spareSize (p.table x) : WordRing))
      (fun x => (spareSize (p'.table x) : WordRing)) hb fun x hx => by rw [hother x hx]
    have hsize : ∑ c ∈ S, (p'.table c).freeSize = ∑ c ∈ S, (p.table c).freeSize := by
      apply Finset.sum_congr rfl
      intro d hd
      rw [hother d (by rintro rfl; exact hS hd)]
    have hfree := h.bytes_free
    unfold Pool.spareBytes at hfree ⊢
    rw [hedit, ← hfree, hbytes_free, hspareSize, hsize, hblksz]
    ring
  counters := hcounters

/-- A busy block is not listed as a cluster. -/
theorem Heap.notMem_of_busy (h : Heap p L S E) (hone : (p.table b).status = 1) : b ∉ S := by
  intro hb
  have := h.clusters.status_zero (Finset.mem_insert_of_mem hb)
  omega

/-- A fragment of the block comes into use. -/
theorem Counted.useFrag {R' : Finset (Nat × Nat)} (h : Counted p L S R) (hb : b < L.infoSize)
    (hS : b ∉ S) (hfrag : Fragmented p.table b log) (hfrag' : Fragmented p'.table b log)
    (hother : ∀ x, x ≠ b → p'.table x = p.table x) (hblksz : p'.blksz = p.blksz)
    (hnfree : (p.table b).nfree = (p'.table b).nfree + 1)
    (hchunks_used : p'.chunks_used = add32 p.chunks_used 1)
    (hbytes_used : p'.bytes_used = add32 p.bytes_used (2 ^ log))
    (hchunks_free : p'.chunks_free = sub32 p.chunks_free 1)
    (hbytes_free : p'.bytes_free = sub32 p.bytes_free (2 ^ log))
    (hcard : (R'.card : WordRing) = R.card + 1)
    (hsum : ∑ r ∈ R', (r.2 : WordRing) = ∑ r ∈ R, (r.2 : WordRing) + (2 ^ log : ℕ)) :
    Counted p' L S R' := by
  have hcast : ((p.table b).nfree : WordRing) = (p'.table b).nfree + 1 := by
    rw [hnfree]
    push_cast
    rfl
  apply h.edit (x := -1) (y := -(2 ^ log : ℕ)) hb hS hother hblksz
  · rw [hfrag.spare_eq.1, hfrag'.spare_eq.1, hcast]
    ring
  · rw [hfrag.spare_eq.2, hfrag'.spare_eq.2]
    push_cast
    rw [hcast]
    ring
  · rw [hchunks_free, cast_sub32, Nat.cast_one]
    ring
  · rw [hbytes_free, cast_sub32]
    ring
  · rw [hchunks_used, cast_add32, hcard, Nat.cast_one]
    ring
  · rw [hbytes_used, cast_add32, hsum]
    ring
  · constructor
    · rw [hchunks_used]
      exact add32_lt _ _
    · rw [hbytes_used]
      exact add32_lt _ _
    · rw [hchunks_free]
      exact sub32_lt _ _
    · rw [hbytes_free]
      exact sub32_lt _ _

/-- A fragment of the block is free again. -/
theorem Counted.releaseFrag {R' : Finset (Nat × Nat)} (h : Counted p L S R)
    (hb : b < L.infoSize) (hS : b ∉ S) (hfrag : Fragmented p.table b log)
    (hfrag' : Fragmented p'.table b log) (hother : ∀ x, x ≠ b → p'.table x = p.table x)
    (hblksz : p'.blksz = p.blksz) (hnfree : (p'.table b).nfree = (p.table b).nfree + 1)
    (hchunks_used : p'.chunks_used = sub32 p.chunks_used 1)
    (hbytes_used : p'.bytes_used = sub32 p.bytes_used (2 ^ log))
    (hchunks_free : p'.chunks_free = add32 p.chunks_free 1)
    (hbytes_free : p'.bytes_free = add32 p.bytes_free (2 ^ log))
    (hcard : (R'.card : WordRing) = R.card + -1)
    (hsum : ∑ r ∈ R', (r.2 : WordRing) = ∑ r ∈ R, (r.2 : WordRing) + -(2 ^ log : ℕ)) :
    Counted p' L S R' := by
  have hcast : ((p'.table b).nfree : WordRing) = (p.table b).nfree + 1 := by
    rw [hnfree]
    push_cast
    rfl
  apply h.edit (x := 1) (y := (2 ^ log : ℕ)) hb hS hother hblksz
  · rw [hfrag.spare_eq.1, hfrag'.spare_eq.1, hcast]
  · rw [hfrag.spare_eq.2, hfrag'.spare_eq.2]
    push_cast
    rw [hcast]
    ring
  · rw [hchunks_free, cast_add32, Nat.cast_one]
  · rw [hbytes_free, cast_add32]
  · rw [hchunks_used, cast_sub32, hcard, Nat.cast_one]
    ring
  · rw [hbytes_used, cast_sub32, hsum]
    ring
  · constructor
    · rw [hchunks_used]
      exact sub32_lt _ _
    · rw [hbytes_used]
      exact sub32_lt _ _
    · rw [hchunks_free]
      exact add32_lt _ _
    · rw [hbytes_free]
      exact add32_lt _ _

/-- The run of one block changes. -/
theorem Sound.edit {blocks' : Nat → List Nat} {ks : List Nat} {R' : Finset (Nat × Nat)}
    (h : Sound p L S E blocks run R) (hfrag : Fragmented p.table b log)
    (hfrag' : Fragmented p'.table b log) (hother : ∀ x, x ≠ b → p'.table x = p.table x)
    (hcore : p'.Core L E) (hindex : p'.info_index = p.info_index)
    (hlimit : p'.info_limit = p.info_limit)
    (hfrags : Frags p' L blocks' (Function.update run b ks))
    (hregions : ∀ a c, (a, c) ∈ R' ↔ Holds p' L (Function.update run b ks) a c)
    (hcounted : Counted p' L S R') : Sound p' L S E blocks' (Function.update run b ks) R' where
  heap := h.heap.edit hcore hindex (hfrag.pos h.heap).1 hfrag.1 hfrag'.1 hother
  limit := by
    unfold Limit
    rw [hlimit]
    exact h.limit
  frags := hfrags
  cover x hx hone htype := by
    have hne : x ≠ b := by
      rintro rfl
      exact hfrag'.2.2 (hfrag'.2.1.symm.trans htype)
    rw [hother x hne] at hone htype
    obtain ⟨c, m, hc, hobj, hcx, hxc⟩ := h.cover x hx hone htype
    have hout := hfrag.outside hobj.toIsRun
    exact ⟨c, m, hc, hobj.congr fun i hi hlt => hother i (by omega), hcx, hxc⟩
  regions := hregions
  counted := hcounted
  beyond i hi := by
    have hbE := (hfrag.pos h.heap).2
    have hsize := h.heap.core.le_infoSize
    rw [hother i (by omega)]
    exact h.beyond i hi

end

end Hcrtos.Native.Alloc
