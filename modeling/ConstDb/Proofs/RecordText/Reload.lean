import ConstDb.Proofs.Builder.Built
import ConstDb.Proofs.Draft.Scan
import ConstDb.Proofs.Image.Queries
import ConstDb.Proofs.Image.Unindexed
import ConstDb.Proofs.RecordText.RoundTrip

/-! # Loading what was dumped

The text that is dumped of a database, loaded into a new builder, makes the same records in the same
order, and if a builder committed the database, the new one commits the same bytes.

A database that no builder committed may have more records than a builder accepts.  The text of such
a one is loaded up to the first record too many.

## Key results

- `RecordText.parse_print`: the records of a text that was printed, whatever follows it
- `Builder.Committed.exists_records`: what a builder commits is the file of some records
- `Builder.load_of_dump`: what becomes of the text of a database in a new builder
- `Builder.load_falls_short`: two databases that are not made again in this way
-/

namespace ConstDb

/-- The records of a text that was printed are read again, whatever follows it. -/
theorem RecordText.parse_print {rs : List Record} (hfits : ∀ r ∈ rs, Draft.Fits r) {input : Input}
    {more : ByteArray} (h : input.source.bytes = print rs ++ more) : parse input = ⟨rs, none⟩ := by
  have hrest : input.source.rest = (print rs).data.toList ++ more.data.toList := by
    have hoffset : input.source.offset = 0 := rfl
    rw [Source.rest, h, hoffset, List.drop_zero, ByteArray.data_append, Array.toList_append]
  exact Source.records_of_rest (fun r hr => (hfits r hr).sizes_lt) hrest

namespace Builder

/-- Loading a text adds its records. -/
theorem load_of_parse {input : Input} {rs : List Record}
    (h : RecordText.parse input = ⟨rs, none⟩) (b : Builder) :
    b.load input = ((b.addAll rs).1.map fun _ => rs.length, (b.addAll rs).2) := by
  rw [load, h]
  simp only
  generalize b.addAll rs = added
  obtain ⟨result, b'⟩ := added
  cases result <;> rfl

/-! ### What builders commit -/

/-- Whether a builder committed some bytes: it was opened, whatever was done with it, and then it
finished.  Meanwhile the files may have changed in any way. -/
inductive Committed : ByteArray → Prop
  | intro {s s' s₁ s₂ s₃ : FileSpace} {path : Path} {mode : Option Nat} {b b' : Builder} {f : File}
      (hopen : Builder.open s path mode = .ok (b, s')) (fill : Fill)
      (hfinish : (fill.run b s₁).2.1.finish s₂ = (.ok (), b', s₃))
      (hstat : s₃.stat b'.path = .ok (.file f)) : Committed f.bytes

/-- What a builder commits is the file of some records. -/
theorem Committed.exists_records {bytes : ByteArray} (h : Committed bytes) :
    ∃ rs, Draft.Storable rs ∧ bytes = (Draft.ofRecords rs).image := by
  obtain ⟨hopen, fill, hfinish, hstat⟩ := h
  have hbuilt := Built.intro hopen fill rfl hfinish hstat
  exact ⟨_, hbuilt.eq_image⟩

/-- What a builder commits is determined by the records that a scan of it meets. -/
theorem Committed.eq_image {image : Image} (h : Committed image.bytes) {rs : List Record}
    (hpairs : image.pairs = .ok rs) :
    Draft.Storable rs ∧ image.bytes = (Draft.ofRecords rs).image := by
  obtain ⟨rs', hrs', hbytes⟩ := h.exists_records
  cases hpairs.symm.trans (hrs'.pairs_image hbytes)
  exact ⟨hrs', hbytes⟩

/-! ### Dumping and loading -/

/-- A dump of an image whose scan meets no error has the records that it meets. -/
private theorem dump_of_pairs {image : Image} {rs : List Record} (h : image.pairs = .ok rs) :
    image.dump {} = (.ok rs.length, { taken := RecordText.print rs }) := by
  obtain ⟨hitems, hfailure⟩ := Walk.toExcept_eq_ok.1 h
  rw [Image.dump_eq, hfailure, hitems]

/-- Loading the text of records into a new builder adds them, up to the first record too many. -/
theorem load_of_print {s s' : FileSpace} {path : Path} {mode : Option Nat} {b : Builder}
    {rs : List Record} {input : Input} {more : ByteArray}
    (hopen : Builder.open s path mode = .ok (b, s')) (hfits : ∀ r ∈ rs, Draft.Fits r)
    (hinput : input.source.bytes = RecordText.print rs ++ more) :
    b.load input =
      (if rs.length ≤ Layout.maxRecords then .ok rs.length
        else .error (.limit .recordCount (Layout.maxRecords + 1) Layout.maxRecords),
      { b with draft := .ofRecords (rs.take Layout.maxRecords) }) := by
  rw [load_of_parse (RecordText.parse_print hfits hinput) b, addAll_of_new hopen hfits]
  simp only
  split <;> rfl

/-- Loading undoes dumping.  The text of a database, whatever follows it, makes the same records in
a new builder, in the same order, and so does the database that the builder commits, if its owner
may read it; if the first database was committed by a builder, both have the same bytes.  Only a
database with more records than a builder accepts, which no builder commits, is loaded up to the
first record too many. -/
theorem load_of_dump {image : Image} {rs : List Record} (hpairs : image.pairs = .ok rs)
    (hfits : ∀ r ∈ rs, Draft.Fits r) :
    ∃ text, image.dump {} = (.ok rs.length, { taken := text }) ∧
      (Committed image.bytes → rs.length ≤ Layout.maxRecords) ∧
      ∀ s s' path mode b (input : Input) more, Builder.open s path mode = .ok (b, s') →
        input.source.bytes = text ++ more →
        (rs.length ≤ Layout.maxRecords →
          b.load input = (.ok rs.length, { b with draft := .ofRecords rs }) ∧
          ∀ t b' t', finish { b with draft := .ofRecords rs } t = (.ok (), b', t') →
            (∃ f copy, t'.stat path = .ok (.file f) ∧ Image.ofBytes f.bytes = .ok copy ∧
              copy.pairs = .ok rs ∧ (Committed image.bytes → f.bytes = image.bytes)) ∧
            ((∃ r, Reader.open t' path = .ok r) ↔ b.mode.testBit 8) ∧
            ∀ r, Reader.open t' path = .ok r → r.ask Image.pairs = .ok rs) ∧
        (Layout.maxRecords < rs.length →
          b.load input =
            (.error (.limit .recordCount (Layout.maxRecords + 1) Layout.maxRecords),
              { b with draft := .ofRecords (rs.take Layout.maxRecords) })) := by
  refine ⟨RecordText.print rs, dump_of_pairs hpairs,
    fun hcommitted => (hcommitted.eq_image hpairs).1.length_le, ?_⟩
  intro s s' path mode b input more hopen hinput
  have hload := load_of_print hopen hfits hinput
  refine ⟨fun hroom => ?_, fun hfull => ?_⟩
  · rw [if_pos hroom, List.take_of_length_le hroom] at hload
    refine ⟨hload, fun t b' t' hfinish => ?_⟩
    have hrs : Draft.Storable rs := ⟨hroom, hfits⟩
    have hadd := addAll_of_storable hopen hrs
    obtain ⟨-, -, time, hstat⟩ := file_of_finish hopen hadd hfinish
    have hcopy := Image.ofBytes_of_parse hrs.addressable.parse_image
    refine ⟨⟨_, _, hstat, hcopy, hrs.pairs_image rfl, fun h => (h.eq_image hpairs).2.symm⟩, ?_, ?_⟩
    · refine ⟨fun ⟨r, hr⟩ => ?_, exists_reader_of_finish hopen hadd hfinish⟩
      by_contra hbit
      cases hr.symm.trans (open_of_finish_locked hopen hadd hfinish hbit)
    · intro r hr
      obtain ⟨mapping, hmapping, hbytes⟩ := image_of_finish hopen hadd hfinish hr
      rw [Reader.ask_of_mapping hmapping, hrs.pairs_image hbytes]
  · rw [if_neg (Nat.not_le.2 hfull)] at hload
    exact hload

/-- The text of three records, with a plus sign behind it that starts no line. -/
theorem load_of_dump_three :
    ∃ (image : Image) (text : ByteArray),
      image.bytes = (Draft.ofRecords Sample.records).image ∧
      image.dump {} = (.ok 3, { taken := text }) ∧
      Sample.builder.load (.ofBytes (text ++ ⟨#[0x2b]⟩)) = (.ok 3, Sample.filled) := by
  have hrs := (addAll_of_open Sample.open_eq Sample.addAll_eq).2
  obtain ⟨image, hbytes⟩ :
      ∃ image : Image, image.bytes = (Draft.ofRecords Sample.records).image :=
    ⟨⟨_, _, hrs.addressable.parse_image⟩, rfl⟩
  obtain ⟨text, hdump, -, hload⟩ := load_of_dump (hrs.pairs_image hbytes) hrs.fits
  have hsource : (Input.ofBytes (text ++ ⟨#[0x2b]⟩)).source.bytes = text ++ ⟨#[0x2b]⟩ := by
    rw [Input.source_ofBytes]
  exact ⟨image, text, hbytes, hdump,
    ((hload _ _ _ _ _ _ _ Sample.open_eq hsource).1 hrs.length_le).1⟩

namespace Sample

/-- A builder of a file that nobody may read. -/
def locking : Builder := { builder with mode := 0 }

theorem open_locking : Builder.open (.empty 15) ⟨[0x61]⟩ (some 0) = .ok (locking, opened) := by
  simp only [Builder.open, fileName_eq]
  rfl

/-- The space with the database that it commits. -/
def locked : FileSpace :=
  { FileSpace.install (.empty 15) [[0x61]] filled.draft.image 0 with serials := 1 }

theorem finish_locking : finish { locking with draft := .ofRecords records } opened =
    (.ok (), { locking with draft := .ofRecords records, state := .finished }, locked) := rfl

end Sample

/-- A file with too many empty records is dumped, but loading the text stops at the first record too
many. -/
theorem load_of_crowded {n : Nat} (heven : n % 2 = 0) (hn : n < 2 ^ 60)
    (hmany : Layout.maxRecords < n) :
    ∃ (image : Image) (text : ByteArray), image.bytes = (Crowded.assembly n).bytes ∧
      image.pairs = .ok (List.replicate n Crowded.record) ∧
      image.dump {} = (.ok n, { taken := text }) ∧
      Sample.builder.load (.ofBytes text) =
        (.error (.limit .recordCount (Layout.maxRecords + 1) Layout.maxRecords),
          { Sample.builder with
            draft := .ofRecords (List.replicate Layout.maxRecords Crowded.record) }) := by
  obtain ⟨image, hbytes⟩ : ∃ image : Image, image.bytes = (Crowded.assembly n).bytes :=
    ⟨⟨_, _, (Crowded.readable heven hn).parse_bytes⟩, rfl⟩
  have hpairs : image.pairs = .ok (List.replicate n Crowded.record) := by
    rw [Image.pairs, Crowded.records_image heven hn hbytes, Walk.toExcept]
  refine ⟨image, RecordText.print (List.replicate n Crowded.record), hbytes, hpairs, ?_, ?_⟩
  · rw [dump_of_pairs hpairs, List.length_replicate]
  · have hinput (text : ByteArray) : (Input.ofBytes text).source.bytes = text ++ .empty := by
      rw [Input.source_ofBytes, ByteArray.append_empty]
    rw [load_of_print Sample.open_eq (Crowded.fits_replicate n) (hinput _), List.length_replicate,
      if_neg (Nat.not_le.2 hmany), List.take_replicate, Nat.min_eq_left (Nat.le_of_lt hmany)]

/-- Loading does not always undo dumping.  The text of a file that has one record more than a
builder accepts is refused at that record.  And the database that is made from a text cannot be
opened if its builder was told that nobody may read it. -/
theorem load_falls_short :
    (∃ (image : Image) (text : ByteArray),
      image.bytes = (Crowded.assembly (Layout.maxRecords + 1)).bytes ∧
      image.pairs = .ok (List.replicate (Layout.maxRecords + 1) Crowded.record) ∧
      Draft.Fits Crowded.record ∧
      image.dump {} = (.ok (Layout.maxRecords + 1), { taken := text }) ∧
      Sample.builder.load (.ofBytes text) =
        (.error (.limit .recordCount (Layout.maxRecords + 1) Layout.maxRecords),
          { Sample.builder with
            draft := .ofRecords (List.replicate Layout.maxRecords Crowded.record) })) ∧
    ∃ (image : Image) (text : ByteArray) (b : Builder) (s : FileSpace),
      image.bytes = (Draft.ofRecords Sample.records).image ∧
      image.dump {} = (.ok 3, { taken := text }) ∧
      Sample.locking.load (.ofBytes (text ++ ⟨#[0x2b]⟩)) =
        (.ok 3, { Sample.locking with draft := .ofRecords Sample.records }) ∧
      finish { Sample.locking with draft := .ofRecords Sample.records } Sample.opened =
        (.ok (), b, s) ∧
      Reader.open s ⟨[0x61]⟩ = .error (.file (.path ⟨[0x61]⟩) .permissionDenied) := by
  constructor
  · obtain ⟨image, text, hbytes, hpairs, hdump, hload⟩ :=
      load_of_crowded (n := Layout.maxRecords + 1) (by decide) (by decide) (Nat.lt_succ_self _)
    exact ⟨image, text, hbytes, hpairs, ⟨by decide, by decide⟩, hdump, hload⟩
  · have hrs := (addAll_of_open Sample.open_eq Sample.addAll_eq).2
    obtain ⟨image, hbytes⟩ :
        ∃ image : Image, image.bytes = (Draft.ofRecords Sample.records).image :=
      ⟨⟨_, _, hrs.addressable.parse_image⟩, rfl⟩
    have hsource : (Input.ofBytes (RecordText.print Sample.records ++ ⟨#[0x2b]⟩)).source.bytes =
        RecordText.print Sample.records ++ ⟨#[0x2b]⟩ := by
      rw [Input.source_ofBytes]
    refine ⟨image, RecordText.print Sample.records, _, _, hbytes,
      dump_of_pairs (hrs.pairs_image hbytes), ?_, Sample.finish_locking, ?_⟩
    · rw [load_of_print Sample.open_locking hrs.fits hsource, if_pos hrs.length_le,
        List.take_of_length_le hrs.length_le]
      rfl
    · exact open_of_finish_locked Sample.open_locking (addAll_of_storable Sample.open_locking hrs)
        Sample.finish_locking (by decide)

end Builder

end ConstDb
