import ConstDb.Proofs.Draft.Scan
import ConstDb.Proofs.Layout.Consistent
import ConstDb.Proofs.Machine.Scan

/-! # The records that a scan meets

The record region of an image may hold anything.  A scan goes through it as far as records lie one
behind the other (`Image.Tiles`), so what it meets covers a first part of the region without gap or
overlap.  Where the records stop, there is either no room for another one, or the mark of padding
close to the end (`Image.EndsAt`), and the scan ends; or it reports damage at that very place
(`Image.StopsAt`).  All questions that are answered by a scan answer from these records.

## Key results

- `Image.recordAt_eq_none_iff`: where a scan ends
- `Image.tiles_scanFrom`: what a scan meets, and how it stops
- `Image.Tiles.hasAt_join`, `Image.Tiles.existsUnique_covers`: what lies one behind the other leaves
  no gap
- `Image.validate_eq_ok_iff`, `Image.keyOf_eq_match`: two answers
- `Image.scan_tiles_region`: scans of any image
-/

namespace ConstDb

namespace Image

/-- Records that lie one behind the other in the record region, from `pos` to `last`. -/
inductive Tiles (image : Image) : (pos : Nat) → List Record → (last : Nat) → Prop
  | nil (pos : Nat) : Tiles image pos [] pos
  | cons {pos last : Nat} {r : Record} {rest : List Record}
      (hdecode : Record.decode image.bytes pos image.recordEnd = .ok r)
      (hrest : Tiles image (pos + Record.encodedSize r.key.size r.value.size) rest last) :
      Tiles image pos (r :: rest) last

/-- The records of an image may end at the offset: there is no room for two lengths, or less room
than an alignment unit and the mark of padding. -/
def EndsAt (image : Image) (pos : Nat) : Prop :=
  image.recordEnd - pos < 8 ∨
    8 ≤ image.recordEnd - pos ∧ image.recordEnd - pos < 16 ∧
      ∀ i < 4, image.bytes.byteAt (pos + i) = 0xff

/-- How a scan stops behind the last record that it met: nothing is wrong if the records may end
there, and otherwise it fails there. -/
inductive StopsAt (image : Image) (last : Nat) : Option Error → Prop
  | ends (hends : image.EndsAt last) : StopsAt image last none
  | fails (hends : ¬image.EndsAt last) (problem : Reason) :
      StopsAt image last (some (.format last problem))

variable {image : Image} {pos last : Nat} {rs : List Record}

/-! ### One step -/

/-- Four bytes are all ones just when the word that they make is. -/
private theorem word32_eq_ones_iff {b : ByteArray} {pos : Nat} :
    (b.word32 pos).toNat = 0xffffffff ↔ ∀ i < 4, b.byteAt (pos + i) = 0xff := by
  have h₀ := (b.byteAt pos).toNat_lt
  have h₁ := (b.byteAt (pos + 1)).toNat_lt
  have h₂ := (b.byteAt (pos + 2)).toNat_lt
  have h₃ := (b.byteAt (pos + 3)).toNat_lt
  have hones (x : UInt8) : x = 0xff ↔ x.toNat = 255 := UInt8.toNat_inj.symm
  -- The greatest word is the sum of the greatest bytes, so no other four bytes reach it.
  rw [ByteArray.toNat_word32]
  simp only [hones]
  constructor
  · intro h i hi
    obtain rfl | rfl | rfl | rfl : i = 0 ∨ i = 1 ∨ i = 2 ∨ i = 3 := by omega
    · rw [Nat.add_zero]
      omega
    · omega
    · omega
    · omega
  · intro h
    have b₀ := h 0 (by omega)
    have b₁ := h 1 (by omega)
    have b₂ := h 2 (by omega)
    have b₃ := h 3 (by omega)
    simp only [Nat.add_zero] at b₀
    omega

/-- A scan ends just where the records may end. -/
theorem recordAt_eq_none_iff (hpos : pos ≤ image.recordEnd) :
    image.recordAt pos = none ↔ image.EndsAt pos := by
  have hsize := image.recordEnd_le_size
  have hprologue : Record.prologueSize = 8 := rfl
  have halignment : Layout.alignment = 16 := rfl
  rw [recordAt, EndsAt]
  by_cases hshort : image.recordEnd < pos + Record.prologueSize
  · rw [if_pos hshort]
    simp only [true_iff]
    omega
  rw [if_neg hshort, Stored.announced, if_pos (by omega), ← word32_eq_ones_iff]
  simp only
  -- There is room for two lengths, so the mark decides, and only close to the end.
  by_cases hones : (image.bytes.word32 pos).toNat = 0xffffffff
  · rw [if_pos hones]
    by_cases hlast : image.recordEnd - pos < Layout.alignment
    · rw [if_pos hlast]
      simp only [true_iff]
      omega
    · rw [if_neg hlast]
      simp only [reduceCtorEq, false_iff]
      omega
  · rw [if_neg hones]
    simp only [reduceCtorEq, false_iff]
    omega

/-- The mark of padding is reported where at least one alignment unit is left. -/
theorem recordAt_of_mark (hroom : pos + 16 ≤ image.recordEnd)
    (hmark : ∀ i < 4, image.bytes.byteAt (pos + i) = 0xff) :
    image.recordAt pos = some (.error (.format pos .paddingInside)) := by
  have hsize := image.recordEnd_le_size
  have hprologue : Record.prologueSize = 8 := rfl
  have halignment : Layout.alignment = 16 := rfl
  rw [recordAt, if_neg (by omega), Stored.announced, if_pos (by omega)]
  simp only
  rw [if_pos (word32_eq_ones_iff.2 hmark), if_neg (by omega)]

/-- A scan that has come to an offset and finds no record there stops as the offset demands. -/
theorem stopsAt_of_recordAt (hpos : pos ≤ image.recordEnd) {failure : Option Error}
    (h : image.recordAt pos = failure.map .error) : image.StopsAt pos failure := by
  cases failure with
  | none => exact .ends ((recordAt_eq_none_iff hpos).1 h)
  | some e =>
    obtain ⟨problem, rfl⟩ := error_of_recordAt h
    refine .fails (fun hends => ?_) problem
    rw [(recordAt_eq_none_iff hpos).2 hends] at h
    cases h

/-- A record that a scan meets is the one that is decoded there, and the scan goes on behind it. -/
theorem decode_of_recordAt {s : Stored} (h : image.recordAt pos = some (.ok s)) :
    Record.decode image.bytes pos image.recordEnd = .ok (s.record image.bytes) ∧
      (s.record image.bytes).storedAt pos = s ∧
      pos + (s.record image.bytes).encode.size = s.next := by
  have hread := read_of_recordAt h
  have hstored := Stored.storedAt_of_read hread
  refine ⟨by rw [Record.decode, hread, Except.map], hstored, ?_⟩
  rw [← Record.next_storedAt, hstored]

/-! ### The whole scan -/

/-- A scan meets records that lie one behind the other, and stops behind the last of them. -/
theorem tiles_scanFrom (hpos : pos ≤ image.recordEnd) :
    ∃ last, image.Tiles pos ((image.scanFrom pos).items.map fun s => s.record image.bytes) last ∧
      last ≤ image.recordEnd ∧ image.StopsAt last (image.scanFrom pos).failure := by
  -- By the recursion of the scan: it ends, it fails, or it goes on behind a record.
  fun_induction scanFrom image pos with
  | case1 pos hrecord => exact ⟨pos, .nil pos, hpos, stopsAt_of_recordAt hpos hrecord⟩
  | case2 pos e hrecord => exact ⟨pos, .nil pos, hpos, stopsAt_of_recordAt hpos hrecord⟩
  | case3 pos s hrecord ih =>
    obtain ⟨hdecode, -, hnext⟩ := decode_of_recordAt hrecord
    obtain ⟨last, htiles, hle, hstops⟩ := ih (next_le_of_recordAt hrecord).2
    refine ⟨last, .cons hdecode ?_, hle, hstops⟩
    rw [← Record.size_encode, hnext]
    exact htiles

/-- The records of a scan lie where they would lie if they had been written one behind the other. -/
theorem items_scanFrom (image : Image) (pos : Nat) :
    (image.scanFrom pos).items =
      (Placed.list pos ((image.scanFrom pos).items.map fun s => s.record image.bytes)).map
        Placed.stored := by
  fun_induction scanFrom image pos with
  | case1 => rfl
  | case2 => rfl
  | case3 pos s hrecord ih =>
    obtain ⟨-, hstored, hnext⟩ := decode_of_recordAt hrecord
    rw [Walk.items_cons, List.map_cons, Placed.list_cons, List.map_cons, Placed.stored, hstored,
      hnext, ← ih]

/-! ### Records one behind the other -/

namespace Tiles

/-- The records take up all bytes between the offsets. -/
theorem last_eq (h : image.Tiles pos rs last) : last = pos + Placed.size rs := by
  induction h with
  | nil => rfl
  | cons _ _ ih => rw [ih, Placed.size_cons, Record.size_encode, Nat.add_assoc]

/-- The bytes between the offsets are those that store the records. -/
theorem hasAt_join (h : image.Tiles pos rs last) (hlast : last ≤ image.recordEnd) :
    image.bytes.HasAt pos (ByteArray.join (rs.map Record.encode)) := by
  have hsize := image.recordEnd_le_size
  induction h with
  | nil pos => exact .empty (Nat.le_trans hlast hsize)
  | @cons pos last r rest hdecode _ ih =>
    obtain ⟨s, hread, rfl⟩ := map_eq_ok.1 hdecode
    -- The first record stands in front, and the others follow where it ends.
    rw [List.map_cons, ByteArray.join_cons]
    refine (Stored.hasAt_of_read hread).concat ?_
    rw [Record.size_encode]
    exact ih hlast

/-- Every offset in between lies in one of the records. -/
theorem existsUnique_covers (h : image.Tiles pos rs last) {p : Nat} (hlow : pos ≤ p)
    (hhigh : p < last) :
    ∃! q, q ∈ Placed.list pos rs ∧ q.offset ≤ p ∧ p < q.next := by
  induction h with
  | nil => omega
  | @cons pos last r rest _ hrest ih =>
    have hnext : (Placed.mk pos r).next = pos + Record.encodedSize r.key.size r.value.size := by
      rw [Placed.next, Record.size_encode]
    rw [Placed.list_cons, Record.size_encode]
    -- The offset lies in the first record, or behind it in one of the others.
    by_cases hp : p < (Placed.mk pos r).next
    · refine ⟨⟨pos, r⟩, ⟨List.mem_cons_self, hlow, hp⟩, ?_⟩
      rintro q ⟨hq, hle, -⟩
      rcases List.mem_cons.1 hq with rfl | hq
      · rfl
      · -- All other records start behind the first one.
        have hbehind := (Placed.bounds_of_mem hq).1
        omega
    · obtain ⟨q, ⟨hq, hcovers⟩, hunique⟩ := ih (by omega) hhigh
      refine ⟨q, ⟨List.mem_cons_of_mem _ hq, hcovers⟩, ?_⟩
      rintro q' ⟨hq', hcovers'⟩
      rcases List.mem_cons.1 hq' with rfl | hq'
      · exact absurd hcovers'.2 hp
      · exact hunique q' ⟨hq', hcovers'⟩

end Tiles

/-! ### What is answered by a scan -/

@[simp] theorem failure_records (image : Image) : image.records.failure = image.scan.failure := by
  rw [records, Walk.failure_map]

@[simp] theorem length_records (image : Image) :
    image.records.items.length = image.scan.items.length := by
  rw [records, Walk.items_map, List.length_map]

/-- An image is valid when nothing is wrong with the records and the tables have two slots for each
of them. -/
theorem validate_eq_ok_iff (image : Image) :
    image.validate = .ok () ↔
      image.records.failure = none ∧ image.records.items.length = image.recordCount := by
  rw [validate, Walk.toExcept, failure_records, length_records]
  cases image.scan.failure with
  | some e => simp
  | none => simp

/-- The key of a value is that of the first record that has the value, whatever lies behind it. -/
theorem keyOf_eq_match (image : Image) (value : ByteArray) :
    image.keyOf value =
      match image.records.items.find? fun r => decide (r.value = value) with
      | some r => .ok (some r.key)
      | none =>
        match image.records.failure with
        | none => .ok none
        | some e => .error e := by
  have hfind : (image.scan.items.findSome? fun s =>
      if s.value image.bytes = value then some (s.key image.bytes) else none) =
      (image.records.items.find? fun r => decide (r.value = value)).map Record.key := by
    rw [records, Walk.items_map]
    induction image.scan.items with
    | nil => rfl
    | cons s rest ih =>
      rw [List.findSome?_cons, List.map_cons, List.find?_cons, ih, Stored.record]
      by_cases h : s.value image.bytes = value <;> simp [h]
  rw [keyOf, Walk.firstSome, hfind, failure_records]
  cases image.records.items.find? fun r => decide (r.value = value) <;> rfl

/-- The records are not told when something is wrong with them. -/
theorem pairs_eq_error_iff {e : Error} :
    image.pairs = .error e ↔ image.records.failure = some e :=
  Walk.toExcept_eq_error

/-- The records that a scan meets lie one behind the other from the end of the header on, so they
cover a first part of the record region.  Behind them the scan ends or fails, as the offset demands,
and it gives nothing more after that; so does the machine, which never traps.  The tables are
compared with the number of these records, all questions about all records fail with what is wrong
with them, and the question for the key of a value fails only where no record has the value. -/
theorem scan_tiles_region (image : Image) :
    (∃ last, image.Tiles Layout.headerSize image.records.items last ∧ last ≤ image.recordEnd ∧
      image.StopsAt last image.records.failure ∧
      image.bytes.HasAt Layout.headerSize
        (ByteArray.join (image.records.items.map Record.encode)) ∧
      ∀ p, Layout.headerSize ≤ p → p < last →
        ∃! q, q ∈ Placed.list Layout.headerSize image.records.items ∧
          q.offset ≤ p ∧ p < q.next) ∧
    image.scan.items = (Placed.list Layout.headerSize image.records.items).map Placed.stored ∧
    (∀ n, image.records.nth n =
      if n = image.records.items.length then image.records.failure.map .error
      else image.records.items[n]?.map .ok) ∧
    (Machine.Addressable image.bytes →
      ∃ it, Machine.Scan.start (.of image.header) = .ok it ∧
        ∀ n, it.call image.bytes n =
          .ok ((image.scan.nth n).map (·.map (Machine.Entry.of image.bytes)))) ∧
    (image.validate = .ok () ↔
      image.records.failure = none ∧
        image.records.items.length = (∑ i : Fin 256, (image.header.bucket i).slots.toNat) / 2) ∧
    (∀ e, (image.pairs = .error e ↔ image.records.failure = some e) ∧
      (image.keys = .error e ↔ image.records.failure = some e) ∧
      (image.values = .error e ↔ image.records.failure = some e) ∧
      (image.toMap = .error e ↔ image.records.failure = some e) ∧
      (image.invert = .error e ↔ image.records.failure = some e)) ∧
    ∀ value, image.keyOf value =
      match image.records.items.find? fun r => decide (r.value = value) with
      | some r => .ok (some r.key)
      | none =>
        match image.records.failure with
        | none => .ok none
        | some e => .error e := by
  obtain ⟨last, htiles, hle, hstops⟩ := tiles_scanFrom image.headerSize_le_recordEnd
  -- From the entries of the scan to its records.
  rw [← scan, ← Walk.items_map, ← records] at htiles
  rw [← scan, ← failure_records] at hstops
  have hitems := image.items_scanFrom Layout.headerSize
  rw [← scan, ← Walk.items_map, ← records] at hitems
  refine ⟨⟨last, htiles, hle, hstops, htiles.hasAt_join hle, ?covers⟩, hitems,
    image.records.nth_eq_ite, ?machine, ?valid, ?views, image.keyOf_eq_match⟩
  case covers => exact fun p hlow hhigh => htiles.existsUnique_covers hlow hhigh
  case machine =>
    intro haddr
    exact ⟨_, Machine.Scan.start_of image,
      Machine.Scan.call_of haddr image.headerSize_le_recordEnd⟩
  case valid => rw [validate_eq_ok_iff, recordCount, Header.recordCount_eq_sum]
  case views =>
    -- All other views are made of the list of the records, which fails with the scan.
    intro e
    exact ⟨pairs_eq_error_iff, map_eq_error.trans pairs_eq_error_iff,
      map_eq_error.trans pairs_eq_error_iff, map_eq_error.trans pairs_eq_error_iff,
      map_eq_error.trans pairs_eq_error_iff⟩

end Image

/-! ### The mark of padding far from the end

One record is followed by more padding than an alignment unit, so the scan fails behind it. -/

namespace Marked

/-- The record in front of the padding. -/
def record : Record := ⟨⟨#[0x61]⟩, ⟨#[0x62]⟩⟩

/-- The parts of the file. -/
def assembly : Assembly :=
  ⟨.narrow, record.encode ++ ByteArray.replicate 22 Layout.paddingByte, List.replicate 256 #[]⟩

theorem length_tables : assembly.tables.length = 256 := List.length_replicate

theorem tablesSize_tables : Draft.tablesSize .narrow assembly.tables = 0 := by
  rw [Draft.tablesSize, assembly, List.map_replicate, List.sum_replicate_nat]
  rfl

theorem recordEnd_assembly : assembly.recordEnd = 4128 := by
  rw [Assembly.recordEnd, assembly, ByteArray.size_append, Record.size_encode,
    ByteArray.size_replicate]
  rfl

theorem readable : assembly.Readable where
  length_eq := length_tables
  end_lt := by
    rw [recordEnd_assembly, show assembly.width = .narrow from rfl, tablesSize_tables]
    decide
  slots_lt t ht := by
    rw [(List.mem_replicate.1 ht).2]
    decide
  detect_eq := by
    rw [SlotWidth.detect, Assembly.size_bytes length_tables, recordEnd_assembly,
      show assembly.width = .narrow from rfl, tablesSize_tables]
    decide

theorem exists_image : ∃ image : Image, image.bytes = assembly.bytes :=
  ⟨⟨_, _, readable.parse_bytes⟩, rfl⟩

variable {image : Image}

/-- A scan meets the record, and then the mark. -/
theorem scan_image (hbytes : image.bytes = assembly.bytes) :
    image.scan = ⟨[record.storedAt 4096], some (.format 4106 .paddingInside)⟩ := by
  have hend : image.recordEnd = 4128 := by
    rw [readable.recordEnd_eq hbytes, recordEnd_assembly]
  have hregion := Assembly.hasAt_region length_tables
  rw [← hbytes] at hregion
  obtain ⟨hrecord, hpadding⟩ := hregion.append
  have hsize : record.encode.size = 10 := by
    rw [Record.size_encode]
    rfl
  rw [hsize, show Layout.headerSize + 10 = 4106 from rfl] at hpadding
  have hfirst : image.recordAt Layout.headerSize = some (.ok (record.storedAt 4096)) :=
    Image.recordAt_of_hasAt ⟨by decide, by decide⟩ hrecord (by rw [hsize, hend]; decide)
  have hmark : image.recordAt 4106 = some (.error (.format 4106 .paddingInside)) := by
    refine Image.recordAt_of_mark (by omega) fun i hi => ?_
    rw [hpadding.byteAt_eq i (by rw [ByteArray.size_replicate]; omega),
      ByteArray.byteAt_of_lt (by rw [ByteArray.size_replicate]; omega)]
    exact Array.getElem_replicate ..
  rw [Image.scan, Image.scanFrom_eq_match, hfirst]
  simp only
  rw [Record.next_storedAt, hsize, Image.scanFrom_eq_match, hmark]
  rfl

theorem items_records (hbytes : image.bytes = assembly.bytes) :
    image.records.items = [record] := by
  have hregion := Assembly.hasAt_region length_tables
  rw [← hbytes] at hregion
  have hrecord : (record.storedAt 4096).record image.bytes = record :=
    Stored.record_of_hasAt hregion.append.1
  rw [Image.records, scan_image hbytes, Walk.items_map, List.map_singleton, hrecord]

end Marked

/-- A file of one record and a mark of padding 22 bytes in front of the end of the record region: a
scan fails behind the record, at offset 4106, but the key of the value of the record is found. -/
theorem Image.scan_tiles_region_marked :
    ∃ (image : Image) (problem : Reason), image.bytes = Marked.assembly.bytes ∧
      Machine.Addressable image.bytes ∧
      (∃! q, q ∈ Placed.list Layout.headerSize [Marked.record] ∧ q.offset ≤ 4105 ∧
        4105 < q.next) ∧
      image.records.nth 1 = some (.error (.format 4106 problem)) ∧
      (∃ it, Machine.Scan.start (.of image.header) = .ok it ∧
        it.call image.bytes 1 = .ok (some (.error (.format 4106 problem)))) ∧
      image.validate ≠ .ok () ∧ image.pairs = .error (.format 4106 problem) ∧
      image.keyOf ⟨#[0x62]⟩ = .ok (some ⟨#[0x61]⟩) := by
  obtain ⟨image, hbytes⟩ := Marked.exists_image
  have haddr : Machine.Addressable image.bytes := by
    rw [Machine.Addressable, hbytes, Assembly.size_bytes Marked.length_tables,
      Marked.recordEnd_assembly, show Marked.assembly.width = .narrow from rfl,
      Marked.tablesSize_tables]
    decide
  obtain ⟨⟨last, htiles, -, hstops, -, hcovers⟩, -, hcalls, hmachine, hvalid, hviews, hkeyOf⟩ :=
    image.scan_tiles_region
  rw [Marked.items_records hbytes] at htiles hcovers
  have hlast : last = 4106 := by
    rw [htiles.last_eq, Placed.size_cons, Placed.size_nil, Record.size_encode]
    rfl
  subst hlast
  -- With 22 bytes left, the mark does not end the scan.
  have hnot : ¬image.EndsAt 4106 := by
    rw [Image.EndsAt, Marked.readable.recordEnd_eq hbytes, Marked.recordEnd_assembly]
    omega
  obtain ⟨problem, hfailure⟩ : ∃ problem, image.records.failure = some (.format 4106 problem) := by
    cases hfailure : image.records.failure with
    | none =>
      rw [hfailure] at hstops
      obtain ⟨hends⟩ := hstops
      exact absurd hends hnot
    | some e =>
      rw [hfailure] at hstops
      obtain _ | ⟨-, problem⟩ := hstops
      exact ⟨problem, rfl⟩
  obtain ⟨it, hstart, hcall⟩ := hmachine haddr
  have hplace : 1 = [Marked.record].length := rfl
  refine ⟨image, problem, hbytes, haddr, hcovers 4105 (by decide) (by decide), ?_,
    ⟨it, hstart, ?_⟩, ?_, (hviews _).1.2 hfailure, ?_⟩
  · rw [hcalls, Marked.items_records hbytes, if_pos hplace, hfailure]
    rfl
  · rw [hcall, Walk.nth_eq_ite, ← Image.length_records, Marked.items_records hbytes,
      if_pos hplace, ← Image.failure_records, hfailure]
    rfl
  · intro hok
    rw [(hvalid.1 hok).1] at hfailure
    cases hfailure
  · rw [hkeyOf, Marked.items_records hbytes]
    rfl

end ConstDb
