import Hcrtos.Native.Smbr

/-!
# DOS partition tables: the parser ends, and its indices are distinct

The primary slots use the indices 1 to 4, and everything else draws on one running counter
that starts at 5 and stops at the limit. In the chain of extended partitions each round
either advances the counter or the loop count, which is what makes it end on a cyclic chain.

## Key results

- `put_next_indexed`: the counter never repeats an index
- `parse_extended_spec`: the chain is left within a fixed number of rounds
- `parse_mbr_partition_spec`: what the handler gets, for every disk
-/

namespace Hcrtos.Native.Smbr

open Loop Memory

/-- The handler got the primary indices below `slot` and the logical ones below the counter at
    most once each, and no empty partition. -/
structure Indexed (slot : Nat) (st : State) : Prop where
  limit : st.limit = MAX_PART
  next_ge : 5 ≤ st.next
  next_le : st.next ≤ MAX_PART
  nodup : (st.handled.map PEntry.index).Nodup
  index : ∀ e ∈ st.handled,
    1 ≤ e.index ∧ e.index < slot ∧ e.index < 5 ∨ 5 ≤ e.index ∧ e.index < st.next
  nonempty : ∀ e ∈ st.handled, e.nblocks ≠ 0

theorem Indexed.mono {slot slot' : Nat} {st : State} (h : Indexed slot st)
    (hle : slot ≤ slot') : Indexed slot' st where
  limit := h.limit
  next_ge := h.next_ge
  next_le := h.next_le
  nodup := h.nodup
  index := by
    intro e he
    have := h.index e he
    omega
  nonempty := h.nonempty

/-- Reading a sector does not touch the partitions. -/
theorem Indexed.read {slot : Nat} {st : State} (h : Indexed slot st) (reads : Nat) :
    Indexed slot { st with reads := reads } :=
  ⟨h.limit, h.next_ge, h.next_le, h.nodup, h.index, h.nonempty⟩

/-- The handler gets an index that it did not get before. -/
theorem nodup_concat {es : List PEntry} {e : PEntry} (h : (es.map PEntry.index).Nodup)
    (hne : ∀ e' ∈ es, e'.index ≠ e.index) : ((es ++ [e]).map PEntry.index).Nodup := by
  rw [List.map_append, List.nodup_append]
  refine ⟨h, by simp, ?_⟩
  intro n hn n' hn'
  obtain ⟨e', he', rfl⟩ := List.mem_map.mp hn
  simp only [List.map_cons, List.map_nil, List.mem_singleton] at hn'
  rw [hn']
  exact hne e' he'

/-- A logical partition takes the index of the counter. -/
theorem put_next_indexed {slot : Nat} {st : State} (h : Indexed slot st)
    (hlt : st.next < st.limit) (start size : Nat) : Indexed slot (put_next st start size) := by
  have hlim := h.limit
  have hge := h.next_ge
  unfold put_next put_partition
  split
  · constructor
    · exact hlim
    · show 5 ≤ st.next + 1
      omega
    · show st.next + 1 ≤ MAX_PART
      omega
    · apply nodup_concat h.nodup
      intro e he
      have := h.index e he
      show e.index ≠ st.next
      omega
    · intro e he
      show _ ∨ 5 ≤ e.index ∧ e.index < st.next + 1
      obtain he | he := List.mem_append.mp he
      · have := h.index e he
        omega
      · rw [List.mem_singleton.mp he]
        show _ ∨ 5 ≤ st.next ∧ st.next < st.next + 1
        omega
    · intro e he
      obtain he | he := List.mem_append.mp he
      · exact h.nonempty e he
      · rw [List.mem_singleton.mp he]
        show size ≠ 0
        omega
  · -- an empty partition only takes up the index
    constructor
    · exact hlim
    · show 5 ≤ st.next + 1
      omega
    · show st.next + 1 ≤ MAX_PART
      omega
    · exact h.nodup
    · intro e he
      show _ ∨ 5 ≤ e.index ∧ e.index < st.next + 1
      have := h.index e he
      omega
    · exact h.nonempty

/-- A primary partition takes the index of its slot. -/
theorem put_partition_indexed {slot : Nat} {st : State} (h : Indexed slot st)
    (hpos : 1 ≤ slot) (hslot : slot < 5) (start size : Nat) :
    Indexed (slot + 1) (put_partition st slot start size) := by
  have hge := h.next_ge
  unfold put_partition
  split
  · constructor
    · exact h.limit
    · exact h.next_ge
    · exact h.next_le
    · apply nodup_concat h.nodup
      intro e he
      have := h.index e he
      show e.index ≠ slot
      omega
    · intro e he
      show _ ∨ 5 ≤ e.index ∧ e.index < st.next
      obtain he | he := List.mem_append.mp he
      · have := h.index e he
        omega
      · rw [List.mem_singleton.mp he]
        show 1 ≤ slot ∧ slot < slot + 1 ∧ slot < 5 ∨ _
        omega
    · intro e he
      obtain he | he := List.mem_append.mp he
      · exact h.nonempty e he
      · rw [List.mem_singleton.mp he]
        show size ≠ 0
        omega
  · exact h.mono (by omega)

theorem put_next_next (st : State) (start size : Nat) :
    (put_next st start size).next = st.next + 1 := rfl

/-! ### The extended chain -/

/-- The data partitions of one table: the loop count is reset only when the counter
    advances. -/
theorem dataPartitions_spec (data : Mem) (first_sector first_size : Nat) {slot : Nat}
    (is : List Nat) {c : Chain} (h : Indexed slot c.st) (hlt : c.st.next < c.st.limit) :
    let r := dataPartitions data first_sector first_size is c
    Indexed slot r.1.st ∧ (r.2 = false → r.1.st.next < r.1.st.limit) ∧
      c.st.next ≤ r.1.st.next ∧
      (r.1.loopct = c.loopct ∨ r.1.loopct = 0 ∧ c.st.next < r.1.st.next) := by
  induction is generalizing c with
  | nil => exact ⟨h, fun _ => hlt, Nat.le_refl _, .inl rfl⟩
  | cons i is ih =>
    unfold dataPartitions
    dsimp only
    split
    · exact ih h hlt
    · split
      · exact ih h hlt
      · -- a data partition was found
        have hput := put_next_indexed h hlt
          (Word.add32 c.this_sector (START_SECT data (entry i))) (NR_SECTS data (entry i))
        split
        · refine ⟨hput, by simp, ?_, .inr ⟨rfl, ?_⟩⟩
          · rw [put_next_next]
            omega
          · rw [put_next_next]
            omega
        · rename_i hfull
          have hle := hput.next_le
          have hlim := hput.limit
          have hnext := put_next_next c.st
            (Word.add32 c.this_sector (START_SECT data (entry i))) (NR_SECTS data (entry i))
          obtain ⟨hi, hroom, hmono, hcount⟩ := ih (c := { c with
            st := put_next c.st (Word.add32 c.this_sector (START_SECT data (entry i)))
              (NR_SECTS data (entry i))
            loopct := 0 }) hput (by dsimp only at hfull ⊢; omega)
          dsimp only at hmono hcount hi hroom
          exact ⟨hi, hroom, by omega, by omega⟩

/-- What is left of the counter, and within that of the loop count. -/
def measure (c : Chain) : Nat := (MAX_PART - c.st.next) * 102 + (101 - c.loopct)

/-- The chain has not gone beyond its bounds. -/
structure ChainInv (slot : Nat) (c : Chain) : Prop where
  indexed : Indexed slot c.st
  loopct : c.loopct ≤ 100

/-- One round that goes on keeps the invariant and lowers the measure; one that ends leaves the
    partitions found so far. -/
theorem extendedBody_spec {disk : Disk} {first_sector first_size slot : Nat} {c : Chain}
    (h : ChainInv slot c) :
    (∀ st, extendedBody disk first_sector first_size c = .inl st → Indexed slot st) ∧
    ∀ c', extendedBody disk first_sector first_size c = .inr c' →
      ChainInv slot c' ∧ measure c' < measure c := by
  obtain ⟨hi, hcount⟩ := h
  have hlim := hi.limit
  have hle := hi.next_le
  unfold extendedBody read_dev_sector
  dsimp only
  split
  · exact ⟨by rintro st ⟨rfl⟩; exact hi, by simp⟩
  · rename_i hloopct
    split
    · exact ⟨by rintro st ⟨rfl⟩; exact hi, by simp⟩
    · rename_i hnext
      split
      · rename_i st heq
        obtain ⟨-, rfl⟩ := Prod.mk.inj heq
        exact ⟨by rintro st ⟨rfl⟩; exact hi.read _, by simp⟩
      · rename_i data st heq
        obtain ⟨-, rfl⟩ := Prod.mk.inj heq
        split
        · exact ⟨by rintro st ⟨rfl⟩; exact hi.read _, by simp⟩
        · have hlt : c.st.next < c.st.limit := by omega
          have hdata := dataPartitions_spec data first_sector first_size [0, 1, 2, 3]
            (c := ⟨{ c.st with reads := c.st.reads + 1 }, c.this_sector, c.this_size,
              c.loopct + 1⟩) (hi.read _) hlt
          revert hdata
          generalize dataPartitions data first_sector first_size [0, 1, 2, 3]
            ⟨{ c.st with reads := c.st.reads + 1 }, c.this_sector, c.this_size,
              c.loopct + 1⟩ = r
          rintro ⟨hi', hroom, hmono, hcase⟩
          dsimp only at hmono hcase
          have hle' := hi'.next_le
          split
          · exact ⟨by rintro st ⟨rfl⟩; exact hi', by simp⟩
          · split
            · exact ⟨by rintro st ⟨rfl⟩; exact hi', by simp⟩
            · -- the next table of the chain
              refine ⟨by simp, ?_⟩
              rintro c' ⟨rfl⟩
              have hmax : MAX_PART = 32 := rfl
              refine ⟨⟨hi', ?_⟩, ?_⟩
              · show r.1.loopct ≤ 100
                omega
              · show (MAX_PART - r.1.st.next) * 102 + (101 - r.1.loopct) <
                  (MAX_PART - c.st.next) * 102 + (101 - c.loopct)
                omega

/-- The rounds that suffice for any chain. -/
def extendedRounds : Nat := 2856

/-- The chain is left, cyclic or not, with the indices still distinct. -/
theorem parse_extended_spec {disk : Disk} {fuel slot : Nat} {st : State}
    (hfuel : extendedRounds ≤ fuel) (h : Indexed slot st) (first_sector first_size : Nat) :
    ∃ st', parse_extended disk fuel st first_sector first_size = some st' ∧ Indexed slot st' := by
  apply loop_spec measure (I := ChainInv slot)
  · exact fun c st' hc hbody => (extendedBody_spec hc).1 st' hbody
  · exact fun c c' hc hbody => (extendedBody_spec hc).2 c' hbody
  · exact ⟨h, by show 0 ≤ 100; omega⟩
  · have hge := h.next_ge
    have hrounds : extendedRounds = 2856 := rfl
    have hmax : MAX_PART = 32 := rfl
    show (MAX_PART - st.next) * 102 + (101 - 0) < fuel
    omega

/-! ### The tables of other systems -/

theorem solarisSlices_indexed {v : Mem} {offset slot : Nat} (is : List Nat) {st : State}
    (h : Indexed slot st) : Indexed slot (solarisSlices v offset is st) := by
  induction is generalizing st with
  | nil => exact h
  | cons i is ih =>
    unfold solarisSlices
    split
    · dsimp only
      split
      · exact ih h
      · rename_i hlt _
        exact ih (put_next_indexed h hlt _ _)
    · exact h

theorem bsdPartitions_indexed {l : Mem} {offset size slot : Nat} (is : List Nat) {st : State}
    (h : Indexed slot st) : Indexed slot (bsdPartitions l offset size is st) := by
  induction is generalizing st with
  | nil => exact h
  | cons i is ih =>
    have hlim := h.limit
    have hle := h.next_le
    unfold bsdPartitions
    dsimp only
    split
    · exact h
    · split
      · exact ih h
      · split
        · exact ih h
        · split
          · exact ih h
          · exact ih (put_next_indexed h (by omega) _ _)

theorem unixwareSlices_indexed {l : Mem} {slot : Nat} (is : List Nat) {st : State}
    (h : Indexed slot st) : Indexed slot (unixwareSlices l is st) := by
  induction is generalizing st with
  | nil => exact h
  | cons i is ih =>
    have hlim := h.limit
    have hle := h.next_le
    unfold unixwareSlices
    dsimp only
    split
    · exact h
    · split
      · exact ih (put_next_indexed h (by omega) _ _)
      · exact ih h

theorem minixPartitions_indexed {data : Mem} {slot : Nat} (is : List Nat) {st : State}
    (h : Indexed slot st) : Indexed slot (minixPartitions data is st) := by
  induction is generalizing st with
  | nil => exact h
  | cons i is ih =>
    have hlim := h.limit
    have hle := h.next_le
    unfold minixPartitions
    dsimp only
    split
    · exact h
    · split
      · exact ih (put_next_indexed h (by omega) _ _)
      · exact ih h

/-- A parser for the inside of a partition keeps the indices distinct. -/
def KeepsIndexed (parse : Disk → State → Nat → Nat → State) : Prop :=
  ∀ {disk st slot} (offset size), Indexed slot st → Indexed slot (parse disk st offset size)

theorem parse_solaris_x86_indexed : KeepsIndexed parse_solaris_x86 := by
  intro disk st slot offset size h
  unfold parse_solaris_x86 read_dev_sector
  split
  · rename_i heq
    obtain ⟨-, rfl⟩ := Prod.mk.inj heq
    exact h.read _
  · rename_i heq
    obtain ⟨-, rfl⟩ := Prod.mk.inj heq
    split
    · exact h.read _
    · split
      · exact h.read _
      · exact solarisSlices_indexed _ (h.read _)

theorem parse_bsd_indexed (max_partitions : Nat) :
    KeepsIndexed fun disk st offset size => parse_bsd disk st offset size max_partitions := by
  intro disk st slot offset size h
  show Indexed slot (parse_bsd _ _ _ _ _)
  unfold parse_bsd read_dev_sector
  split
  · rename_i heq
    obtain ⟨-, rfl⟩ := Prod.mk.inj heq
    exact h.read _
  · rename_i heq
    obtain ⟨-, rfl⟩ := Prod.mk.inj heq
    split
    · exact h.read _
    · exact bsdPartitions_indexed _ (h.read _)

theorem parse_unixware_indexed : KeepsIndexed parse_unixware := by
  intro disk st slot offset size h
  unfold parse_unixware read_dev_sector
  split
  · rename_i heq
    obtain ⟨-, rfl⟩ := Prod.mk.inj heq
    exact h.read _
  · rename_i heq
    obtain ⟨-, rfl⟩ := Prod.mk.inj heq
    split
    · exact h.read _
    · exact unixwareSlices_indexed _ (h.read _)

theorem parse_minix_indexed : KeepsIndexed parse_minix := by
  intro disk st slot offset size h
  unfold parse_minix read_dev_sector
  split
  · rename_i heq
    obtain ⟨-, rfl⟩ := Prod.mk.inj heq
    exact h.read _
  · rename_i heq
    obtain ⟨-, rfl⟩ := Prod.mk.inj heq
    split
    · exact minixPartitions_indexed _ (h.read _)
    · exact h.read _

theorem subtypes_indexed : ∀ t ∈ subtypes, KeepsIndexed t.2 := by
  intro t ht
  simp only [subtypes, List.mem_cons, List.not_mem_nil, or_false] at ht
  obtain rfl | rfl | rfl | rfl | rfl | rfl | rfl := ht
  · exact parse_bsd_indexed BSD_MAXPARTITIONS
  · exact parse_bsd_indexed BSD_MAXPARTITIONS
  · exact parse_bsd_indexed OPENBSD_MAXPARTITIONS
  · exact parse_minix_indexed
  · exact parse_unixware_indexed
  · exact parse_solaris_x86_indexed
  · exact parse_solaris_x86_indexed

/-! ### The primary table -/

/-- The first pass over the slots from `slot` on. -/
theorem firstPass_spec {disk : Disk} {fuel : Nat} (hfuel : extendedRounds ≤ fuel) (data : Mem)
    (n : Nat) {slot : Nat} {st : State} (h : Indexed slot st) (hpos : 1 ≤ slot)
    (hslots : slot + n ≤ 5) :
    ∃ st', firstPass disk fuel data (List.range' slot n) st = some st' ∧
      Indexed (slot + n) st' := by
  induction n generalizing slot st with
  | zero => exact ⟨st, rfl, h⟩
  | succ n ih =>
    rw [List.range'_succ, show slot + (n + 1) = slot + 1 + n by omega]
    unfold firstPass
    dsimp only
    split
    · exact ih (h.mono (by omega)) (by omega) (by omega)
    · split
      · obtain ⟨st₁, hst₁, h₁⟩ := parse_extended_spec hfuel
          (put_partition_indexed h hpos (by omega) (START_SECT data (entry (slot - 1)))
            (if NR_SECTS data (entry (slot - 1)) = 1 then 1 else 2))
          (START_SECT data (entry (slot - 1))) (NR_SECTS data (entry (slot - 1)))
        rw [hst₁, Option.bind_some]
        exact ih h₁ (by omega) (by omega)
      · exact ih (put_partition_indexed h hpos (by omega) _ _) (by omega) (by omega)

theorem secondPass_indexed {disk : Disk} {data : Mem} {slot : Nat} (slots : List Nat)
    {st : State} (h : Indexed slot st) : Indexed slot (secondPass disk data slots st) := by
  induction slots generalizing st with
  | nil => exact h
  | cons i slots ih =>
    unfold secondPass
    dsimp only
    split
    · exact ih h
    · split
      · exact ih h
      · rename_i t hfind
        apply ih
        exact subtypes_indexed t (List.mem_of_find?_eq_some hfind) _ _ h

theorem aix_magic_present_snd (disk : Disk) (data : Mem) (st : State) :
    ∃ reads, (aix_magic_present disk data st).2 = { st with reads := reads } := by
  unfold aix_magic_present read_dev_sector
  split
  · exact ⟨st.reads, rfl⟩
  · split
    · exact ⟨st.reads, rfl⟩
    · split
      · rename_i heq
        obtain ⟨-, rfl⟩ := Prod.mk.inj heq
        exact ⟨_, rfl⟩
      · rename_i heq
        obtain ⟨-, rfl⟩ := Prod.mk.inj heq
        exact ⟨_, rfl⟩

/-- A rejected table hands out nothing; an accepted one is read to its end. -/
theorem check_msdos_partition_spec {disk : Disk} {fuel : Nat} (hfuel : extendedRounds ≤ fuel) :
    ∃ r st, check_msdos_partition disk fuel ⟨0, MAX_PART, [], 0⟩ = some (r, st) ∧
      (st.handled = [] ∨ Indexed 5 st) := by
  unfold check_msdos_partition
  simp only [read_dev_sector]
  split
  · rename_i heq
    obtain ⟨-, rfl⟩ := Prod.mk.inj heq
    exact ⟨_, _, rfl, .inl rfl⟩
  · rename_i data st heq
    obtain ⟨-, rfl⟩ := Prod.mk.inj heq
    obtain ⟨reads, hreads⟩ := aix_magic_present_snd disk data ⟨0, MAX_PART, [], 0 + 1⟩
    rw [hreads]
    split
    · exact ⟨_, _, rfl, .inl rfl⟩
    · split
      · exact ⟨_, _, rfl, .inl rfl⟩
      · split
        · exact ⟨_, _, rfl, .inl rfl⟩
        · split
          · exact ⟨_, _, rfl, .inl rfl⟩
          · have hstart : Indexed 1 ⟨5, MAX_PART, [], reads⟩ :=
              ⟨rfl, Nat.le_refl 5, by show 5 ≤ MAX_PART; decide, by simp, by simp, by simp⟩
            obtain ⟨st', hst', h'⟩ :=
              firstPass_spec hfuel data 4 hstart (by omega) (by omega)
            have hslots : [1, 2, 3, 4] = List.range' 1 4 := rfl
            refine ⟨1, secondPass disk data [1, 2, 3, 4] st', ?_, .inr ?_⟩
            · simp only [hslots] at hst' ⊢
              rw [hst']
              rfl
            · exact secondPass_indexed _ h'

/-- For every disk the parser returns, and the handler gets each index at most once, from 1 to
    31, and no empty partition. -/
theorem parse_mbr_partition_spec (disk : Disk) (fuel : Nat) (hfuel : extendedRounds ≤ fuel) :
    ∃ r es, parse_mbr_partition disk fuel = some (r, es) ∧
      (es.map PEntry.index).Nodup ∧
      ∀ e ∈ es, 1 ≤ e.index ∧ e.index ≤ 31 ∧ e.nblocks ≠ 0 := by
  obtain ⟨r, st, hcheck, hst⟩ := check_msdos_partition_spec hfuel
  refine ⟨if st.next ≠ 0 then (st.next : Int) else -1, st.handled, ?_, ?_⟩
  · unfold parse_mbr_partition
    rw [hcheck]
    rfl
  · obtain hnil | h := hst
    · simp [hnil]
    · refine ⟨h.nodup, ?_⟩
      intro e he
      have hindex := h.index e he
      have hle := h.next_le
      have hmax : MAX_PART = 32 := rfl
      exact ⟨by omega, by omega, h.nonempty e he⟩

/-- Every sector holds the same table, whose extended partition is the chain back to it. -/
def cyclicDisk : Disk := fun _ _ => some fun a =>
  if a = 510 then 0x55
  else if a = 511 then 0xAA
  -- a data partition and an extended one, of one sector each
  else if a = entry 0 + 4 then 0x0c
  else if a = entry 0 + 12 then 1
  else if a = entry 1 + 4 then 5
  else if a = entry 1 + 12 then 1
  else 0

theorem parse_mbr_partition_cyclicDisk :
    ∃ r es, parse_mbr_partition cyclicDisk extendedRounds = some (r, es) ∧
      (es.map PEntry.index).Nodup ∧
      ∀ e ∈ es, 1 ≤ e.index ∧ e.index ≤ 31 ∧ e.nblocks ≠ 0 :=
  parse_mbr_partition_spec cyclicDisk extendedRounds (Nat.le_refl _)

end Hcrtos.Native.Smbr
