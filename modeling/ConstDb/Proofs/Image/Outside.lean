import ConstDb.Proofs.Draft.Assembly
import ConstDb.Proofs.Reader.Calls

/-! # Slots that lead outside the record region

The slots of a damaged file may name any offset.  Lookups are guarded at the end of the record
region: no hit ends behind it, and a slot that leads there or further is reported.  They are not
guarded at its start.  A slot that leads into the header has descriptors read as a record, and it is
reported only if the record they announce happens to end behind the region (`Image.Overruns`).

## Key results

- `Probe.examine_eq_error_iff`: which entries of a key are reported
- `Image.guards_headerSize_iff`: when lookups of a key are guarded at the start of the region too
- `Image.not_guards_stray`: a file in which they are not
-/

namespace ConstDb

/-- At the offset there is no room for two lengths in front of the end of the record region, or they
announce a record that has a key of the right length and ends behind it. -/
def Image.Overruns (image : Image) (key : ByteArray) (offset : Nat) : Prop :=
  image.recordEnd < offset + Record.prologueSize ∨
    (image.bytes.word32 offset).toNat = key.size ∧
      image.recordEnd <
        offset + Record.encodedSize key.size (image.bytes.word32 (offset + 4)).toNat

/-! ### Single slots -/

namespace Probe

variable {image : Image} {key : ByteArray} {slot : Slot}

/-- A slot of the key is reported just when what it leads to overruns the record region. -/
theorem examine_eq_error_iff (h : slot.Carries key) :
    (∃ e, examine image (Hash.ofBytes key) key slot = .error e) ↔
      image.Overruns key slot.offset.toNat := by
  have hend := image.recordEnd_le_size
  rw [examine_of_carries h, Image.Overruns]
  -- The prologue has to lie in the region, and then so has a record with a key of the right length.
  cases hannounced : Stored.announced image.bytes slot.offset.toNat image.recordEnd with
  | error e =>
    have hshort : ¬slot.offset.toNat + Record.prologueSize ≤ image.recordEnd := by
      intro hroom
      have hok := Stored.announced_eq_ok.2 ⟨Nat.le_min.2 ⟨hroom, Nat.le_trans hroom hend⟩, rfl⟩
      cases hannounced.symm.trans hok
    simp only [Except.error.injEq, exists_eq', true_iff]
    exact .inl (by omega)
  | ok s =>
    obtain ⟨hroom, hs⟩ := Stored.announced_eq_ok.1 hannounced
    have hsize : s.keySize = (image.bytes.word32 slot.offset.toNat).toNat := by rw [hs]
    simp only
    by_cases hkey : s.keySize = key.size
    · have hnext : s.next = slot.offset.toNat +
          Record.encodedSize key.size (image.bytes.word32 (slot.offset.toNat + 4)).toNat := by
        rw [← hkey, Stored.next_eq, hs]
      have hpass : s.check image.bytes image.recordEnd = .ok () ↔
          s.next ≤ min image.recordEnd image.bytes.size := Stored.check_eq_ok
      rw [if_neg (by simpa using hkey), ← hnext, ← hsize]
      cases hcheck : s.check image.bytes image.recordEnd with
      | error e =>
        have hover : ¬s.next ≤ min image.recordEnd image.bytes.size := by
          intro hle
          cases hcheck.symm.trans (hpass.2 hle)
        simp only [Except.map, Except.error.injEq, exists_eq', true_iff]
        exact .inr ⟨hkey, by omega⟩
      | ok u =>
        have hle := hpass.1 hcheck
        simp only [Except.map, reduceCtorEq, exists_false, false_iff]
        omega
    · rw [if_pos hkey, ← hsize]
      simp only [reduceCtorEq, exists_false, false_iff]
      omega

end Probe

/-! ### Lookups -/

namespace Image

variable {image : Image} {key : ByteArray}

/-- A lookup of the key meets a slot, unless it has its answer before. -/
def Meets (image : Image) (key : ByteArray) (slot : Slot) : Prop :=
  Probe.Meets image key (Hash.ofBytes key) (image.slotsFor key) slot

/-- No lookup of the key takes anything in front of `first` or behind the record region for a
record: all hits lie in between, and a slot of the key that leads elsewhere ends every lookup that
meets it with an error that names the offset. -/
structure Guards (image : Image) (key : ByteArray) (first : Nat) : Prop where
  inside : ∀ hit ∈ (image.hits key).items,
    first ≤ hit.stored.offset ∧ hit.stored.next ≤ image.recordEnd
  reported : ∀ slot, image.Meets key slot → slot.Carries key →
    slot.offset.toNat < first ∨ image.recordEnd ≤ slot.offset.toNat →
      ∃ problem, (image.hits key).failure = some (.format slot.offset.toNat problem)

/-- Each hit is that of a slot of the key that was met and does not overrun. -/
theorem exists_meets_of_mem_hits {hit : Hit} (h : hit ∈ (image.hits key).items) :
    ∃ slot, image.Meets key slot ∧ slot.Carries key ∧ slot.offset.toNat = hit.stored.offset ∧
      ¬image.Overruns key slot.offset.toNat := by
  rw [hits_eq] at h
  obtain ⟨⟨slot, hmeets, hexamine⟩, -⟩ := Probe.of_mem_gather h
  have hcarries : slot.Carries key := by
    by_contra hnot
    rw [Probe.examine_of_not_carries hnot] at hexamine
    simp at hexamine
  refine ⟨slot, hmeets, hcarries, ?_, ?_⟩
  · exact (Stored.offset_of_read (Probe.of_examine_eq_some hexamine).1).symm
  · intro hover
    obtain ⟨e, he⟩ := (Probe.examine_eq_error_iff hcarries).2 hover
    cases hexamine.symm.trans he

/-- What ends the hits early is a slot of the key that was met and overruns, and it is named. -/
theorem exists_meets_of_failure {e : Error} (h : (image.hits key).failure = some e) :
    ∃ slot, image.Meets key slot ∧ slot.Carries key ∧ image.Overruns key slot.offset.toNat ∧
      ∃ problem, e = .format slot.offset.toNat problem := by
  rw [hits_eq] at h
  obtain ⟨slot, hmeets, hexamine⟩ := Probe.of_gather_failure h
  have hcarries : slot.Carries key := by
    by_contra hnot
    rw [Probe.examine_of_not_carries hnot] at hexamine
    simp at hexamine
  exact ⟨slot, hmeets, hcarries, (Probe.examine_eq_error_iff hcarries).1 ⟨e, hexamine⟩,
    Stored.error_of_read (Probe.of_examine_eq_error hexamine)⟩

/-- A slot of the key that overruns ends every lookup that meets it. -/
theorem Meets.failure_eq {slot : Slot} (h : image.Meets key slot) (hcarries : slot.Carries key)
    (hover : image.Overruns key slot.offset.toNat) :
    ∃ problem, (image.hits key).failure = some (.format slot.offset.toNat problem) := by
  obtain ⟨e, he⟩ := (Probe.examine_eq_error_iff hcarries).2 hover
  obtain ⟨problem, rfl⟩ := Stored.error_of_read (Probe.of_examine_eq_error he)
  refine ⟨problem, ?_⟩
  rw [hits_eq]
  exact Probe.Meets.failure_eq h he 0

/-- Lookups are guarded at the end of the record region, and at any start just when each slot that
leads in front of it overruns. -/
theorem guards_iff (image : Image) (key : ByteArray) (first : Nat) :
    image.Guards key first ↔
      ∀ slot, image.Meets key slot → slot.Carries key → slot.offset.toNat < first →
        image.Overruns key slot.offset.toNat := by
  constructor
  · intro h slot hmeets hcarries hlt
    obtain ⟨problem, hfailure⟩ := h.reported slot hmeets hcarries (.inl hlt)
    -- The slot that is reported has the offset of this one.
    obtain ⟨slot', -, -, hover, problem', heq⟩ := exists_meets_of_failure hfailure
    injection heq with hoffset
    rw [hoffset]
    exact hover
  · intro h
    constructor
    · intro hit hhit
      obtain ⟨slot, hmeets, hcarries, hoffset, hover⟩ := exists_meets_of_mem_hits hhit
      refine ⟨?_, (sound_of_mem_hits hhit).next_le⟩
      by_contra hlow
      exact hover (h slot hmeets hcarries (by omega))
    · rintro slot hmeets hcarries (hlow | hhigh)
      · exact hmeets.failure_eq hcarries (h slot hmeets hcarries hlow)
      · apply hmeets.failure_eq hcarries
        left
        simp only [Record.prologueSize]
        omega

/-- All lookups of a key answer from the walk of its hits, and so does every cursor that a session
brings about.  They are guarded at the end of the record region, and at its start just when each
slot of the key that they meet and that leads into the header overruns the region. -/
theorem guards_headerSize_iff (image : Image) (key : ByteArray) :
    image.AnswersFrom key (image.hits key) ∧
      (∀ (clock : Nat → Nat) (steps : List Step) (n : Nat) (r : Reader),
        ((Session.start clock).run steps).2.readers.lookup n = some r → r.OnCourse) ∧
      image.Guards key 0 ∧
      (image.Guards key Layout.headerSize ↔
        ∀ slot, image.Meets key slot → slot.Carries key →
          slot.offset.toNat < Layout.headerSize → image.Overruns key slot.offset.toNat) := by
  refine ⟨image.answersFrom_hits key, ?_, ?_, image.guards_iff key Layout.headerSize⟩
  · intro clock steps n r hlookup
    exact ((Session.onCourse_start clock).run steps).of_lookup hlookup
  · rw [guards_iff]
    intro slot _ _ hlt
    exact absurd hlt (Nat.not_lt_zero _)

end Image

/-! ### A slot that leads into the header

The file has no records.  Its only entry leads to the last eight bytes of a descriptor, which are
all zero: the two lengths of a record with an empty key and an empty value. -/

namespace Stray

/-- The bucket of the empty key has two slots, of which the second is taken. -/
def table : SlotTable := #[Slot.vacant, ⟨Hash.ofBytes .empty, none, 8⟩]

/-- The tables of all buckets. -/
def tables : List SlotTable := List.replicate 5 #[] ++ table :: List.replicate 250 #[]

/-- The parts of the file. -/
def assembly : Assembly := ⟨.narrow, .empty, tables⟩

theorem length_tables : assembly.tables.length = 256 := by
  simp only [assembly, tables, List.length_append, List.length_cons, List.length_replicate]

theorem tablesSize_tables : Draft.tablesSize .narrow tables = 16 := by
  rw [Draft.tablesSize, tables, List.map_append, List.map_cons, List.map_replicate,
    List.map_replicate, List.sum_append, List.sum_cons, List.sum_replicate_nat,
    List.sum_replicate_nat]
  rfl

theorem readable : assembly.Readable where
  length_eq := length_tables
  end_lt := by
    rw [assembly, tablesSize_tables]
    decide
  slots_lt t ht := by
    simp only [assembly, tables, List.mem_append, List.mem_cons, List.mem_replicate] at ht
    rcases ht with ⟨-, rfl⟩ | rfl | ⟨-, rfl⟩ <;> decide
  detect_eq := by
    rw [SlotWidth.detect, Assembly.size_bytes length_tables, assembly, tablesSize_tables]
    decide

theorem get_tables : assembly.tables.get ((5 : Fin 256).cast length_tables.symm) = table := rfl

theorem bucketOf_empty : Hash.bucketOf (Hash.ofBytes .empty) = 5 := by decide

variable {image : Image}

theorem slots_bucket (hbytes : image.bytes = assembly.bytes) :
    (image.header.bucket 5).slots.toNat = 2 := by
  rw [readable.slots_eq hbytes, get_tables]
  rfl

/-- The slots of the bucket, as they stand in the file. -/
theorem slotAt_bucket (hbytes : image.bytes = assembly.bytes) {j : Nat} (hj : j < table.size) :
    image.slotAt (image.header.bucket 5) j = table[j].kept .narrow := by
  have hslot := readable.slotAt_bytes hbytes 5 (by rw [get_tables]; exact hj)
  simp only [get_tables] at hslot
  exact hslot

/-- A search for the empty key starts at the slot that is taken. -/
theorem slotsFor_image (hbytes : image.bytes = assembly.bytes) :
    image.slotsFor .empty = [⟨Hash.ofBytes .empty, none, 8⟩, Slot.vacant] := by
  have hslots := slots_bucket hbytes
  have hfirst : Hash.startSlot (Hash.ofBytes .empty) 2 = 1 := by decide
  unfold Image.slotsFor
  cases hstart : Probe.start? image .empty with
  | none =>
    have hzero : (image.header.bucket 5).slots = 0 := by
      by_contra hne
      simp [Probe.start?, bucketOf_empty, hne] at hstart
    rw [hzero] at hslots
    cases hslots
  -- The table has two slots and the search starts at the second, so it turns around once.
  | some p =>
    obtain ⟨hhash, hbucket, -, hslot, hprobed⟩ := Probe.start?_eq_some_iff.1 hstart
    rw [hhash, bucketOf_empty] at hbucket
    have hcount : p.slotCount = 2 := by rw [Probe.slotCount, hbucket, hslots]
    have hroute : p.route = [1, 0] := by
      rw [Probe.route, hcount, hprobed, hslot, hcount, hhash, hfirst]
      rfl
    simp only
    rw [hroute, hbucket, List.map_cons, List.map_cons, List.map_nil,
      slotAt_bucket hbytes (show 1 < table.size by decide),
      slotAt_bucket hbytes (show 0 < table.size by decide)]
    rfl

/-- At offset 8 stand two words of zero: the number of slots of bucket 0, and what follows it. -/
theorem words_image (hbytes : image.bytes = assembly.bytes) :
    image.bytes.word32 8 = 0 ∧ image.bytes.word32 12 = 0 := by
  have hheader := assembly.hasAt_header
  rw [Header.encodeBuckets_eq_join, Assembly.buckets, assembly, tables,
    show List.replicate 5 #[] = #[] :: List.replicate 4 (#[] : SlotTable) from rfl] at hheader
  rw [hbytes]
  obtain ⟨hfirst, -⟩ := hheader.append
  obtain ⟨hfront, hzeros⟩ := hfirst.append
  obtain ⟨-, hslots⟩ := hfront.append
  rw [ByteArray.size_append, UInt64.size_bigEndian, UInt32.size_bigEndian] at hzeros
  rw [UInt64.size_bigEndian] at hslots
  have hslots := hslots.word32 (by simp)
  have hzeros := hzeros.word32 (by simp)
  rw [ByteArray.word32_bigEndian] at hslots
  exact ⟨hslots, hzeros⟩

/-- The entry leads to what looks like a record with an empty key and an empty value. -/
theorem examine_image (hbytes : image.bytes = assembly.bytes) :
    Probe.examine image (Hash.ofBytes .empty) .empty ⟨Hash.ofBytes .empty, none, 8⟩ =
      .ok (some ⟨8, 0, 0⟩) := by
  obtain ⟨hkey, hvalue⟩ := words_image hbytes
  have hlow := image.headerSize_le_recordEnd
  have hend := image.recordEnd_le_size
  simp only [Layout.headerSize] at hlow
  have hannounced : Stored.announced image.bytes 8 image.recordEnd = .ok ⟨8, 0, 0⟩ := by
    rw [Stored.announced_eq_ok, hkey, hvalue]
    simp only [Record.prologueSize]
    exact ⟨by omega, rfl⟩
  have hcheck : (Stored.mk 8 0 0).check image.bytes image.recordEnd = .ok () := by
    rw [Stored.check_eq_ok, Stored.next_eq]
    simp only [Record.encodedSize, Record.prologueSize]
    omega
  have hempty : (Stored.mk 8 0 0).key image.bytes = .empty := by
    rw [Stored.key]
    exact ByteArray.extract_same
  rw [Probe.examine_of_carries ⟨rfl, by simp⟩,
    show (8 : UInt64).toNat = 8 from rfl, hannounced]
  simp only
  rw [hcheck, hempty]
  rfl

/-- The file answers with a part of its header: a lookup of the empty key gets an empty value that
is stored at offset 8. -/
theorem hits_image (hbytes : image.bytes = assembly.bytes) :
    image.hits .empty = ⟨[⟨⟨8, 0, 0⟩, 1⟩], none⟩ := by
  rw [Image.hits_eq, slotsFor_image hbytes, Probe.gather, if_neg (by decide),
    examine_image hbytes]
  rfl

end Stray

/-- A file that is accepted, and a key whose lookups are not guarded at the start of the record
region: they find an empty value in the header. -/
theorem Image.not_guards_stray :
    ∃ image : Image, image.bytes = Stray.assembly.bytes ∧
      image.findAll .empty = .ok [.empty] ∧ ¬image.Guards .empty Layout.headerSize := by
  obtain ⟨image, hbytes⟩ : ∃ image : Image, image.bytes = Stray.assembly.bytes :=
    ⟨⟨_, _, Stray.readable.parse_bytes⟩, rfl⟩
  have hhits := Stray.hits_image hbytes
  refine ⟨image, hbytes, ?_, ?_⟩
  · have hvalue : Hit.value image ⟨⟨8, 0, 0⟩, 1⟩ = .empty := ByteArray.extract_same
    rw [Image.findAll, hhits, ← hvalue]
    rfl
  · intro h
    obtain ⟨hlow, -⟩ := h.inside ⟨⟨8, 0, 0⟩, 1⟩ (by rw [hhits]; exact List.mem_cons_self)
    exact absurd hlow (by decide)

end ConstDb
