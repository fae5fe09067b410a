import ConstDb.Machine.Build
import ConstDb.Proofs.Draft.Index
import ConstDb.Proofs.Machine.Entry
import ConstDb.Proofs.Machine.Fill

/-! # What a build keeps between two additions

The machine writes each record as soon as it is added, and keeps its place and its hash for the end.
A build is at every moment that of a draft (`Build.of`): an addition keeps this up, and a refusal
leaves the build as it is.  The limits of the format keep all words far from their ends, so what is
kept is exact: the position, the number of records, and for each record its bucket, the length of
its key and its offset.

## Key results

- `Build.add_of_fits`, `Build.exists_add_refused`: one record
- `Build.offerAll_eq`: any number of records, some of them refused
- `Build.exact_of`: what a build remembers of its records
-/

namespace ConstDb

/-! ### The entries of a draft -/

namespace Draft

/-- The limits on the fields of a record can be tested. -/
instance (r : Record) : Decidable (Fits r) :=
  decidable_of_iff (r.key.size ≤ Layout.maxFieldSize ∧ r.value.size ≤ Layout.maxFieldSize)
    ⟨fun h => ⟨h.1, h.2⟩, fun h => ⟨h.key_le, h.value_le⟩⟩

/-- A record that is added comes last in its bucket, and changes no other. -/
theorem entriesOf_append (d : Draft) (r : Record) (i : Fin 256) :
    (d.append r).entriesOf i = d.entriesOf i ++
      if Hash.bucketOf (Hash.ofBytes r.key) = i then
        [⟨Hash.ofBytes r.key, .ofNat r.key.size, .ofNat d.position⟩]
      else [] := by
  rw [entriesOf_eq_filter, entriesOf_eq_filter, append, Array.toList_push, List.filter_append,
    List.filter_singleton]
  by_cases h : Hash.bucketOf (Hash.ofBytes r.key) = i <;> simp [IndexEntry.bucket, h]

/-- One of the records that can be stored is within the limits. -/
theorem Storable.append {rs : List Record} (h : Storable rs) {r : Record} (hfits : Fits r)
    (hroom : rs.length < Layout.maxRecords) : Storable (rs ++ [r]) where
  length_le := by
    rw [List.length_append, List.length_singleton]
    omega
  fits s hs := by
    rcases List.mem_append.1 hs with hs | hs
    · exact h.fits s hs
    · rw [List.mem_singleton.1 hs]
      exact hfits

end Draft

namespace Machine

namespace Build

open Draft (Fits Storable ofRecords)

/-! ### Adding records -/

/-- The entries of all buckets. -/
def pendingOf (d : Draft) : Array (Array IndexEntry) :=
  Array.ofFn fun i : Fin 256 => (d.entriesOf i).toArray

@[simp] theorem size_pendingOf (d : Draft) : (pendingOf d).size = 256 := by
  rw [pendingOf, Array.size_ofFn]

theorem getElem?_pendingOf (d : Draft) (i : Fin 256) :
    (pendingOf d)[i.val]? = some (d.entriesOf i).toArray := by
  rw [pendingOf, Array.getElem?_ofFn, dif_pos i.isLt]

/-- The build of a draft. -/
def of (d : Draft) : Build where
  file := ByteArray.replicate Layout.headerSize 0 ++ d.body
  buckets := pendingOf d
  pos := .ofNat d.position
  records := .ofNat d.size

@[simp] theorem file_of (d : Draft) :
    (of d).file = ByteArray.replicate Layout.headerSize 0 ++ d.body := rfl

theorem buckets_of (d : Draft) : (of d).buckets = pendingOf d := by rw [of]

@[simp] theorem pos_of (d : Draft) : (of d).pos = .ofNat d.position := rfl

@[simp] theorem records_of (d : Draft) : (of d).records = .ofNat d.size := rfl

theorem of_empty : of .empty = opened := by
  have hpending : pendingOf .empty = Array.replicate Layout.bucketCount #[] := by
    apply Array.ext
    · simp [pendingOf, Layout.bucketCount]
    · intro i h₁ h₂
      simp [pendingOf, Draft.empty, Draft.entriesOf]
  rw [of, hpending, Draft.empty, ByteArray.append_empty]
  rfl

theorem checkFields_eq_ok {r : Record} : checkFields r = .ok () ↔ Fits r := by
  rw [checkFields]
  simp only [bind_eq_ok, Draft.checkSize_eq_ok, exists_const]
  exact ⟨fun ⟨hkey, hvalue⟩ => ⟨hkey, hvalue⟩, fun h => ⟨h.key_le, h.value_le⟩⟩

/-- A draft looks at the fields of a record, and then at its own size. -/
theorem checkSizes_eq (d : Draft) (r : Record) :
    d.checkSizes r.key.size r.value.size =
      checkFields r >>= fun () => Draft.checkSize .recordCount (d.size + 1) Layout.maxRecords := by
  rw [checkFields, bind_assoc]
  rfl

theorem writeRecord_eq (file : ByteArray) (r : Record) :
    writeRecord file r = .ok (file ++ r.encode) := by
  rw [writeRecord, prologue_eq, ok_bind, pure_eq_ok, Record.encode]

/-- The machine notes the entry of a record that is added. -/
theorem note_eq (d : Draft) (r : Record) :
    note (pendingOf d) ⟨Hash.ofBytes r.key, .ofNat r.key.size, .ofNat d.position⟩ =
      .ok (pendingOf (d.append r)) := by
  have hlt : (bucketOf (Hash.ofBytes r.key)).toNat < (pendingOf d).size := by
    rw [size_pendingOf, toNat_bucketOf]
    exact Fin.isLt _
  rw [note, item_eq_ok hlt, ok_bind, pure_eq_ok, Except.ok.injEq]
  apply Array.ext_getElem?
  intro i
  by_cases hi : i < 256
  · have hpending := getElem?_pendingOf d (Hash.bucketOf (Hash.ofBytes r.key))
    rw [← toNat_bucketOf, Array.getElem?_eq_getElem hlt, Option.some.injEq] at hpending
    have hbefore := getElem?_pendingOf d ⟨i, hi⟩
    have hafter := getElem?_pendingOf (d.append r) ⟨i, hi⟩
    rw [Draft.entriesOf_append] at hafter
    rw [hafter, hpending, Array.getElem?_setIfInBounds, toNat_bucketOf, size_pendingOf]
    by_cases heq : Hash.bucketOf (Hash.ofBytes r.key) = ⟨i, hi⟩
    · simp [heq, hi]
    · have hne : (Hash.bucketOf (Hash.ofBytes r.key)).val ≠ i := fun h => heq (Fin.ext h)
      rw [if_neg hne, if_neg heq, List.append_nil, hbefore]
  · rw [Array.getElem?_eq_none (by simpa using hi), Array.getElem?_eq_none (by simpa using hi)]

theorem of_append (d : Draft) (r : Record) :
    of (d.append r) = ⟨(of d).file ++ r.encode, pendingOf (d.append r),
      .ofNat (d.position + Record.encodedSize r.key.size r.value.size), .ofNat (d.size + 1)⟩ := by
  rw [of, Draft.position_append, Draft.size_append, file_of, ByteArray.append_assoc]
  rfl

section

variable {rs : List Record} (h : Storable rs)

include h

theorem toNat_pos_of : (of (ofRecords rs)).pos.toNat = (ofRecords rs).position := by
  have hlt := h.position_lt
  exact UInt64.toNat_ofNat_of_lt' (show (ofRecords rs).position < 2 ^ 64 by omega)

theorem toNat_records_of : (of (ofRecords rs)).records.toNat = rs.length := by
  have hlength := h.length_le
  simp only [Layout.maxRecords] at hlength
  rw [records_of, Draft.size_ofRecords]
  exact UInt64.toNat_ofNat_of_lt' (show rs.length < 2 ^ 64 by omega)

/-- The machine adds a record within the limits as long as there is room for it. -/
theorem add_of_fits {r : Record} (hfits : Fits r) (hroom : rs.length < Layout.maxRecords) :
    add (of (ofRecords rs)) r = .ok (.ok (of (ofRecords (rs ++ [r])))) := by
  have hpos := toNat_pos_of h
  have hrecords := toNat_records_of h
  have hone : (1 : UInt64).toNat = 1 := rfl
  have hend := (h.append hfits hroom).position_lt
  rw [Draft.ofRecords_append_singleton, Draft.position_append] at hend
  have hsize : (UInt64.ofNat (Record.encodedSize r.key.size r.value.size)).toNat =
      Record.encodedSize r.key.size r.value.size :=
    UInt64.toNat_ofNat_of_lt' (show Record.encodedSize r.key.size r.value.size < 2 ^ 64 by omega)
  have hcount : rs.length + 1 < 2 ^ 64 := by
    simp only [Layout.maxRecords] at hroom
    omega
  rw [add, checkFields_eq_ok.2 hfits]
  simp only
  rw [if_neg (by rw [hrecords]; omega), writeRecord_eq, ok_bind, buckets_of, pos_of, note_eq,
    ok_bind, encodedSize_eq (by omega), ok_bind, ← pos_of, add64_eq_ok hpos hsize (by omega),
    ok_bind, add64_eq_ok hrecords hone hcount, ok_bind, Draft.ofRecords_append_singleton, of_append,
    Draft.size_ofRecords]
  rfl

/-- Any other record it refuses, with the error of the draft. -/
theorem add_of_refused {r : Record} {e : Error}
    (he : (ofRecords rs).checkSizes r.key.size r.value.size = .error e) :
    add (of (ofRecords rs)) r = .ok (.error e) := by
  have hrecords := toNat_records_of h
  have hone : (1 : UInt64).toNat = 1 := rfl
  have hlength := h.length_le
  -- A record that is too large is refused before its number is looked at, here as in the draft.
  cases hfields : checkFields r with
  | error e' =>
    rw [checkSizes_eq, hfields] at he
    cases he
    rw [add, hfields]
  | ok u =>
    rw [Draft.checkSizes_of_fits (checkFields_eq_ok.1 hfields), Draft.size_ofRecords] at he
    split at he
    · cases he
    · rename_i hfull
      cases he
      simp only [Layout.maxRecords] at hlength
      rw [add, hfields]
      simp only
      rw [if_pos (by rw [hrecords]; omega), add64_eq_ok hrecords hone (by omega), ok_bind,
        UInt64.toNat_ofNat_of_lt' (show rs.length + 1 < 2 ^ 64 by omega)]
      rfl

/-- A record that does not fit, or for which there is no room, is refused. -/
theorem exists_add_refused {r : Record} (hnot : ¬(Fits r ∧ rs.length < Layout.maxRecords)) :
    ∃ e, add (of (ofRecords rs)) r = .ok (.error e) := by
  cases hcheck : (ofRecords rs).checkSizes r.key.size r.value.size with
  | error e => exact ⟨e, add_of_refused h hcheck⟩
  | ok u =>
    have hok := Draft.checkSizes_eq_ok.1 hcheck
    rw [Draft.size_ofRecords] at hok
    exact absurd hok hnot

end

/-- The records that a build holds, of those that were offered to it: all that are within the
limits, up to the greatest number. -/
def admitted (offered : List Record) : List Record :=
  (offered.filter fun r => decide (Fits r)).take Layout.maxRecords

/-- Records are added one after the other; those that are refused leave no trace. -/
theorem offerAll_of {rs : List Record} (h : Storable rs) (offered : List Record) :
    offerAll (of (ofRecords rs)) offered =
      .ok (of (ofRecords (rs ++ (offered.filter fun r => decide (Fits r)).take
        (Layout.maxRecords - rs.length)))) := by
  induction offered generalizing rs with
  | nil => simp [offerAll]
  | cons r rest ih =>
    by_cases hadded : Fits r ∧ rs.length < Layout.maxRecords
    · obtain ⟨hfits, hroom⟩ := hadded
      have hmore : Layout.maxRecords - rs.length =
          Layout.maxRecords - (rs ++ [r]).length + 1 := by
        rw [List.length_append, List.length_singleton]
        omega
      rw [offerAll, add_of_fits h hfits hroom, ok_bind]
      simp only
      rw [ih (h.append hfits hroom), List.filter_cons_of_pos (by simpa using hfits), hmore,
        List.take_succ_cons, List.append_assoc, List.singleton_append]
    · obtain ⟨e, he⟩ := exists_add_refused h hadded
      rw [offerAll, he, ok_bind]
      simp only
      rw [ih h]
      -- The record is passed over, or nothing more is taken.
      by_cases hfits : Fits r
      · have hfull : Layout.maxRecords - rs.length = 0 := by
          have hroom : ¬rs.length < Layout.maxRecords := fun hroom => hadded ⟨hfits, hroom⟩
          omega
        rw [hfull, List.take_zero, List.take_zero]
      · rw [List.filter_cons_of_neg (by simpa using hfits)]

theorem storable_admitted (offered : List Record) : Storable (admitted offered) where
  length_le := List.length_take_le ..
  fits r hr := by simpa using List.of_mem_filter (List.mem_of_mem_take hr)

/-- A build holds the records of a draft, whatever was offered to it. -/
theorem offerAll_eq (offered : List Record) :
    offerAll opened offered = .ok (of (ofRecords (admitted offered))) := by
  have hrun := offerAll_of Draft.storable_nil offered
  rw [Draft.ofRecords_nil, of_empty] at hrun
  exact hrun

/-! ### What a build remembers -/

theorem toList_pendingOf (d : Draft) :
    (pendingOf d).toList = (List.finRange 256).map fun i => (d.entriesOf i).toArray := by
  rw [pendingOf, Array.toList_ofFn, List.ofFn_eq_map]

/-- What a build remembers of a record that it wrote, and where it wrote it. -/
structure Remembers (b : Build) (e : IndexEntry) (p : Placed) : Prop where
  hash_eq : e.hash = Hash.ofBytes p.record.key
  keySize_eq : e.keySize.toNat = p.record.key.size
  offset_eq : e.offset.toNat = p.offset
  written : b.file.HasAt p.offset p.record.encode
  /-- The lengths in front of the record are those of its fields. -/
  read_eq : readEntry b.file e.offset b.pos = .ok (.ok ⟨e.offset, p.record.key, p.record.value⟩)

/-- A build that holds records counts them, and the bytes that it wrote, without loss. -/
structure Exact (b : Build) (rs : List Record) : Prop where
  pos_eq : b.pos.toNat =
    Layout.headerSize + (rs.map fun r => 8 + r.key.size + r.value.size).sum
  size_eq : b.file.size = b.pos.toNat
  records_eq : b.records.toNat = rs.length
  sum_eq : (b.buckets.toList.map Array.size).sum = b.records.toNat
  /-- Each bucket remembers its records, in the order in which they were added. -/
  remembers : ∀ i : Fin 256, ∃ pending, b.buckets[i.val]? = some pending ∧
    List.Forall₂ b.Remembers pending.toList ((Draft.placed rs).filter fun p =>
      decide (Hash.bucketOf (Hash.ofBytes p.record.key) = i))

section

variable {rs : List Record} (h : Storable rs)

include h

/-- A build remembers where it wrote a record, and that is where it is. -/
theorem remembers_of {p : Placed} (hp : p ∈ Draft.placed rs) :
    (of (ofRecords rs)).Remembers p.entry p := by
  obtain ⟨hoffset, -, -⟩ := h.offset_entry hp
  have hfits : Fits p.record := by
    apply h.fits
    rw [← Placed.map_record_list Layout.headerSize rs]
    exact List.mem_map_of_mem hp
  obtain ⟨hkey, hvalue⟩ := hfits.sizes_lt
  have hbody : (of (ofRecords rs)).file.HasAt Layout.headerSize (ofRecords rs).body := by
    have hat := ByteArray.HasAt.of_append (ByteArray.replicate Layout.headerSize 0)
      (ofRecords rs).body ByteArray.empty
    rwa [ByteArray.append_empty, ByteArray.size_replicate] at hat
  rw [Draft.body_ofRecords] at hbody
  have hat := Placed.hasAt_of_mem hbody hp
  refine ⟨rfl, UInt32.toNat_ofNat_of_lt' hkey, hoffset, hat, ?_⟩
  have hend := (Draft.bounds_of_mem_placed hp).2
  rw [Placed.next, Record.size_encode] at hend
  rw [← hoffset] at hat hend
  exact readEntry_of_hasAt hat hkey hvalue (by rw [toNat_pos_of h]; exact hend)

/-- What the machine keeps of the records that were added is exact. -/
theorem exact_of : Exact (of (ofRecords rs)) rs := by
  have hpos := toNat_pos_of h
  have hrecords := toNat_records_of h
  refine ⟨?pos, ?size, hrecords, ?sum, fun i => ?remembers⟩
  case pos =>
    rw [hpos, Draft.position_ofRecords, Placed.size]
    simp only [Record.size_encode, Record.encodedSize, Record.prologueSize]
  case size => rw [hpos, file_of, ByteArray.size_append, ByteArray.size_replicate, Draft.position]
  case sum =>
    rw [hrecords, buckets_of, toList_pendingOf, List.map_map, ← Draft.size_ofRecords rs,
      ← Draft.sum_length_entriesOf]
    rfl
  case remembers =>
    rw [buckets_of]
    refine ⟨_, getElem?_pendingOf (ofRecords rs) i, ?_⟩
    rw [Draft.entriesOf_ofRecords, List.toList_toArray, List.forall₂_map_left_iff]
    exact List.forall₂_same.2 fun p hp => remembers_of h (List.mem_of_mem_filter hp)

end

end Build

end Machine

end ConstDb
