import ConstDb.Proofs.Builder.Built
import ConstDb.Proofs.Draft.Audit
import ConstDb.Proofs.Image.Tiling
import ConstDb.Proofs.Record.Distinct

/-! # Two ways into a database

What is asked about a key goes through the index, and what is asked about all records or about a
value goes through a scan.  Of a database that a builder committed both tell the same: the map of
the records has the keys that the index finds, each with its last value, and through the index no
record is lost or found twice.

## Key results

- `Image.invert_eq`: turning the map of the records around
- `Draft.Storable.valuesAt_image`, `Draft.Storable.mapM_count_image`: several keys at once
- `Image.views_agree`: the answers of a built database
-/

namespace ConstDb

/-! ### Maps of records -/

/-- The record with key and value exchanged. -/
def Record.swap (r : Record) : Record := ⟨r.value, r.key⟩

/-- The keys of the records with a value. -/
theorem Record.valuesOf_map_swap (value : ByteArray) (rs : List Record) :
    valuesOf value (rs.map swap) =
      (rs.filter fun r => decide (r.value = value)).map Record.key := by
  rw [valuesOf, List.filter_map, List.map_map]
  rfl

namespace Image

variable {image : Image} {rs : List Record}

/-- Turned around, the map of the records has the last key of each value. -/
theorem invert_eq (h : image.pairs = .ok rs) :
    image.invert = .ok (Record.lastValues ∅ (rs.map Record.swap)) := by
  rw [invert, h, Record.lastValues, List.foldl_map]
  rfl

/-- The key of a value is that of the first record that has it. -/
theorem keyOf_eq (h : image.pairs = .ok rs) (value : ByteArray) :
    image.keyOf value = .ok ((rs.find? fun r => decide (r.value = value)).map Record.key) := by
  obtain ⟨hitems, hfailure⟩ := Walk.toExcept_eq_ok.1 h
  rw [keyOf_eq_match, hitems, hfailure]
  cases rs.find? fun r => decide (r.value = value) <;> rfl

/-- A value is there just when the map that was turned around has it. -/
theorem containsValue_eq (h : image.pairs = .ok rs) (value : ByteArray) :
    image.containsValue value =
      .ok (decide (value ∈ Record.lastValues ∅ (rs.map Record.swap))) := by
  rw [containsValue, keyOf_eq h, Except.map, Except.ok.injEq, Bool.eq_iff_iff, Option.isSome_map,
    List.find?_isSome, decide_eq_true_iff, Record.mem_lastValues_iff, Record.valuesOf_map_swap,
    ne_eq, List.map_eq_nil_iff, List.filter_eq_nil_iff]
  simp

end Image

/-! ### The index of a draft's file -/

/-- Asking for each item, where every answer is known. -/
private theorem mapM_of_forall {α β : Type} {f : α → Except Error β} {g : α → β}
    (h : ∀ a, f a = .ok (g a)) (as : List α) : as.mapM f = .ok (as.map g) := by
  obtain rfl : f = fun a => pure (g a) := funext h
  exact List.mapM_pure

namespace Draft.Storable

variable {rs : List Record} {image : Image}

/-- The values of several keys are those of each of them, one key after the other. -/
theorem valuesAt_image (h : Storable rs) (hbytes : image.bytes = (ofRecords rs).image)
    (keys : List ByteArray) :
    image.valuesAt keys = .ok (keys.flatMap fun key => Record.valuesOf key rs) := by
  induction keys with
  | nil => rfl
  | cons key keys ih =>
    rw [Image.valuesAt_cons, Image.findAll_of_occurrences (h.occurrences_image hbytes key), ih]
    rfl

/-- The numbers of occurrences of several keys. -/
theorem mapM_count_image (h : Storable rs) (hbytes : image.bytes = (ofRecords rs).image)
    (keys : List ByteArray) :
    keys.mapM image.count = .ok (keys.map fun key => (Record.valuesOf key rs).length) :=
  mapM_of_forall (fun key => Image.count_of_occurrences (h.occurrences_image hbytes key)) keys

end Draft.Storable

/-! ### Built databases -/

/-- Of a database that a builder committed the scan and the index tell the same.  The map of the
records has the keys that occur, each with the last of its values; counting the occurrences of each
of them counts every record once; the values of several keys are those that the scan meets with each
of them; the key of a value is that of the first record with the value, and has the value; and the
map that is turned around has the values that occur, each with the key of the last record with the
value. -/
theorem Image.views_agree {rs : List Record} {bytes : ByteArray} (h : Builder.Built rs bytes) :
    ∃ (image : Image) (map inverse : ByteMap),
      Image.ofBytes bytes = .ok image ∧ image.pairs = .ok rs ∧ image.toMap = .ok map ∧
      image.invert = .ok inverse ∧
      (∀ key, ∃ values, image.findAll key = .ok values ∧
        image.containsKey key = .ok (decide (key ∈ map)) ∧ map[key]? = values.getLast?) ∧
      (∃ counts, map.keys.mapM image.count = .ok counts ∧ counts.sum = image.recordCount) ∧
      (∀ keys, image.valuesAt keys = .ok (keys.flatMap fun key =>
        (rs.filter fun r => decide (r.key = key)).map Record.value)) ∧
      (∀ value,
        image.keyOf value = .ok ((rs.find? fun r => decide (r.value = value)).map Record.key) ∧
        ∀ key, image.keyOf value = .ok (some key) →
          ∃ values, image.findAll key = .ok values ∧ value ∈ values) ∧
      ∀ value, image.containsValue value = .ok (decide (value ∈ inverse)) ∧
        inverse[value]? =
          ((rs.filter fun r => decide (r.value = value)).getLast?).map Record.key := by
  obtain ⟨hrs, rfl⟩ := h.eq_image
  obtain ⟨image, himage, hbytes⟩ := hrs.ofBytes_image
  have hpairs := hrs.pairs_image hbytes
  have hfindAll (key : ByteArray) : image.findAll key = .ok (Record.valuesOf key rs) :=
    findAll_of_occurrences (hrs.occurrences_image hbytes key)
  refine ⟨image, _, _, himage, hpairs, toMap_of_pairs hpairs, invert_eq hpairs, ?keys, ?counts,
    hrs.valuesAt_image hbytes, fun value => ⟨keyOf_eq hpairs value, ?found⟩,
    fun value => ⟨containsValue_eq hpairs value, ?inverse⟩⟩
  case keys =>
    intro key
    refine ⟨_, hfindAll key, ?_, ?_⟩
    · rw [containsKey_eq (hrs.occurrences_image hbytes key), Except.ok.injEq,
        decide_eq_decide, Record.mem_lastValues_iff]
    · rw [Record.getElem?_lastValues, Std.TreeMap.getElem?_emptyc, Option.or_none]
  case counts =>
    -- Each record is counted with its key, and the map has each key once.
    refine ⟨_, hrs.mapM_count_image hbytes _, ?_⟩
    rw [Record.sum_length_valuesOf, hrs.recordCount_image hbytes]
  case found =>
    intro key hkey
    rw [keyOf_eq hpairs, Except.ok.injEq, Option.map_eq_some_iff] at hkey
    obtain ⟨r, hfind, rfl⟩ := hkey
    obtain rfl : r.value = value := by simpa using List.find?_some hfind
    refine ⟨_, hfindAll r.key, ?_⟩
    exact List.mem_map_of_mem (List.mem_filter.2 ⟨List.mem_of_find?_eq_some hfind, by simp⟩)
  case inverse =>
    rw [Record.getElem?_lastValues, Std.TreeMap.getElem?_emptyc, Option.or_none,
      Record.valuesOf_map_swap, List.getLast?_map]

/-- The views of the sample, in which one key has two values. -/
theorem Image.views_agree_sample :
    ∃ (bytes : ByteArray) (image : Image) (map inverse : ByteMap),
      Builder.Built Builder.Sample.records bytes ∧ Image.ofBytes bytes = .ok image ∧
      image.toMap = .ok map ∧ image.invert = .ok inverse ∧
      (∃ counts, map.keys.mapM image.count = .ok counts ∧ counts.sum = image.recordCount) ∧
      image.valuesAt [⟨#[]⟩, ⟨#[0x6b]⟩] = .ok [⟨#[0xff]⟩, ⟨#[1]⟩, ⟨#[3]⟩] ∧
      (∃ values, image.findAll ⟨#[0x6b]⟩ = .ok values ∧ ⟨#[3]⟩ ∈ values) ∧
      inverse[(⟨#[3]⟩ : ByteArray)]? = some ⟨#[0x6b]⟩ := by
  obtain ⟨image, map, inverse, himage, -, hmap, hinverse, -, hcounts, hvaluesAt, hkeyOf,
    hcontains⟩ := Image.views_agree Builder.Sample.built
  obtain ⟨hkey, hfound⟩ := hkeyOf ⟨#[3]⟩
  refine ⟨_, image, map, inverse, Builder.Sample.built, himage, hmap, hinverse, hcounts, ?_,
    hfound _ ?_, ?_⟩
  · rw [hvaluesAt]
    decide
  · rw [hkey]
    decide
  · rw [(hcontains _).2]
    decide

end ConstDb
