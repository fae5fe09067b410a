import ConstDb.Draft
import ConstDb.Proofs.Layout.Codec
import ConstDb.Proofs.Layout.Tables
import ConstDb.Proofs.Probe.Route

/-! # Files put together from tables

An assembly is a record region, which may hold anything, with 256 slot tables, which may hold
anything too.  Its file is accepted, and the slots in it are read as they were placed.  The file of
a draft is that of its records and tables; a file that no draft has can be put together in the same
way.

Positions must fit into 64 bits and numbers of slots into 32, and the reader must find the width
that was meant (`Assembly.Readable`).

## Key results

- `Assembly.Readable.parse_bytes`: the file is accepted
- `Assembly.Readable.slotAt_bytes`: its slots are those of the tables
-/

namespace ConstDb

/-- The bytes of a table are those of its slots. -/
theorem SlotTable.encode_eq_join (t : SlotTable) (width : SlotWidth) :
    t.encode width = ByteArray.join (t.toList.map fun s => s.encode width) := by
  rw [encode, ← Array.foldl_toList, ← ByteArray.empty_append (b := ByteArray.join _),
    ← ByteArray.foldl_append_eq, List.foldl_map]

/-- A table takes the same number of bytes for each of its slots. -/
theorem SlotTable.size_encode (t : SlotTable) (width : SlotWidth) :
    (t.encode width).size = t.size * width.bytes := by
  have hmap : t.toList.map (ByteArray.size ∘ fun s : Slot => s.encode width) =
      List.replicate t.size width.bytes := by
    rw [List.eq_replicate_iff]
    simp
  rw [encode_eq_join, ByteArray.size_join, List.map_map, hmap, List.sum_replicate_nat]

/-- The bytes of a header are those of its descriptors. -/
theorem Header.encodeBuckets_eq_join (bs : List Bucket) :
    encodeBuckets bs = ByteArray.join (bs.map Bucket.encode) := by
  rw [encodeBuckets, ← ByteArray.empty_append (b := ByteArray.join _), ← ByteArray.foldl_append_eq,
    List.foldl_map]

/-! ### Tables one behind the other -/

namespace Draft

/-- How many bytes tables take. -/
def tablesSize (width : SlotWidth) (ts : List SlotTable) : Nat :=
  (ts.map fun t => t.size * width.bytes).sum

@[simp] theorem tablesSize_cons (width : SlotWidth) (t : SlotTable) (ts : List SlotTable) :
    tablesSize width (t :: ts) = t.size * width.bytes + tablesSize width ts := by
  simp [tablesSize]

@[simp] theorem length_describe (width : SlotWidth) (pos : Nat) (ts : List SlotTable) :
    (describe width pos ts).length = ts.length := by
  induction ts generalizing pos with
  | nil => rfl
  | cons t ts ih => rw [describe, List.length_cons, List.length_cons, ih]

/-- A table starts behind those before it. -/
theorem getElem_describe (width : SlotWidth) (pos : Nat) (ts : List SlotTable) (i : Nat)
    (hi : i < ts.length) (hi' : i < (describe width pos ts).length) :
    (describe width pos ts)[i] =
      ⟨UInt64.ofNat (pos + tablesSize width (ts.take i)), UInt32.ofNat ts[i].size⟩ := by
  induction ts generalizing pos i with
  | nil => simp at hi
  | cons t ts ih =>
    cases i with
    | zero => simp [describe, tablesSize]
    | succ i => simp [describe, ih _ i (by simpa using hi), Nat.add_assoc]

/-- The descriptors of tables say that they follow each other. -/
theorem describe_contiguous {width : SlotWidth} {pos : Nat} {ts : List SlotTable}
    (hend : pos + tablesSize width ts < 2 ^ 64) (hslots : ∀ t ∈ ts, t.size < 2 ^ 32) :
    Contiguous width pos (describe width pos ts) (pos + tablesSize width ts) := by
  induction ts generalizing pos with
  | nil => exact .nil _
  | cons t ts ih =>
    rw [tablesSize_cons] at hend ⊢
    have hstart : (UInt64.ofNat pos).toNat = pos :=
      UInt64.toNat_ofNat_of_lt' (show pos < 2 ^ 64 by omega)
    have hsize : (UInt32.ofNat t.size).toNat = t.size :=
      UInt32.toNat_ofNat_of_lt' (hslots t List.mem_cons_self)
    rw [describe, ← Nat.add_assoc]
    refine .cons hstart ?_
    rw [Bucket.tableEnd, hstart, hsize]
    exact ih (by omega) fun t' ht' => hslots t' (List.mem_cons_of_mem _ ht')

end Draft

/-! ### Assemblies -/

/-- The parts of a database file. -/
structure Assembly where
  width : SlotWidth
  /-- The record region, padding included. -/
  region : ByteArray
  tables : List SlotTable

namespace Assembly

variable {a : Assembly} {image : Image}

/-- Where the record region ends. -/
def recordEnd (a : Assembly) : Nat := Layout.headerSize + a.region.size

/-- The descriptors of the tables. -/
def buckets (a : Assembly) : List Bucket := Draft.describe a.width a.recordEnd a.tables

/-- The file. -/
def bytes (a : Assembly) : ByteArray :=
  Header.encodeBuckets a.buckets ++ a.region
    ++ ByteArray.join (a.tables.map fun t => t.encode a.width)

/-- The file can be read again: positions and numbers of slots fit into their words, and the reader
finds the width. -/
structure Readable (a : Assembly) : Prop where
  length_eq : a.tables.length = 256
  end_lt : a.recordEnd + Draft.tablesSize a.width a.tables < 2 ^ 64
  slots_lt : ∀ t ∈ a.tables, t.size < 2 ^ 32
  detect_eq : SlotWidth.detect a.bytes.size a.bytes = a.width

theorem headerSize_le_recordEnd (a : Assembly) : Layout.headerSize ≤ a.recordEnd :=
  Nat.le_add_right ..

/-! ### Where the parts are -/

private theorem length_buckets (hlength : a.tables.length = 256) : a.buckets.length = 256 := by
  rw [buckets, Draft.length_describe, hlength]

private theorem size_header (hlength : a.tables.length = 256) :
    (Header.encodeBuckets a.buckets).size = Layout.headerSize := by
  have hmap : a.buckets.map (ByteArray.size ∘ Bucket.encode) =
      List.replicate 256 Layout.descriptorSize := by
    rw [List.eq_replicate_iff]
    simp [length_buckets hlength]
  rw [Header.encodeBuckets_eq_join, ByteArray.size_join, List.map_map, hmap, List.sum_replicate_nat]
  rfl

private theorem size_tables (a : Assembly) :
    (ByteArray.join (a.tables.map fun t => t.encode a.width)).size =
      Draft.tablesSize a.width a.tables := by
  rw [ByteArray.size_join, List.map_map, Draft.tablesSize]
  congr 2
  funext t
  exact t.size_encode a.width

/-- The file ends behind the tables. -/
theorem size_bytes (hlength : a.tables.length = 256) :
    a.bytes.size = a.recordEnd + Draft.tablesSize a.width a.tables := by
  rw [bytes, ByteArray.size_append, ByteArray.size_append, size_header hlength, size_tables,
    recordEnd]

/-- The descriptors stand at the front. -/
theorem hasAt_header (a : Assembly) : a.bytes.HasAt 0 (Header.encodeBuckets a.buckets) := by
  have := ByteArray.HasAt.of_append ByteArray.empty (Header.encodeBuckets a.buckets)
    (a.region ++ ByteArray.join (a.tables.map fun t => t.encode a.width))
  rwa [ByteArray.empty_append, ← ByteArray.append_assoc] at this

/-- The record region stands behind the header. -/
theorem hasAt_region (hlength : a.tables.length = 256) :
    a.bytes.HasAt Layout.headerSize a.region := by
  have := ByteArray.HasAt.of_append (Header.encodeBuckets a.buckets) a.region
    (ByteArray.join (a.tables.map fun t => t.encode a.width))
  rwa [size_header hlength] at this

/-- The tables stand behind the record region. -/
theorem hasAt_tables (hlength : a.tables.length = 256) :
    a.bytes.HasAt a.recordEnd (ByteArray.join (a.tables.map fun t => t.encode a.width)) := by
  have := ByteArray.HasAt.of_append (Header.encodeBuckets a.buckets ++ a.region)
    (ByteArray.join (a.tables.map fun t => t.encode a.width)) ByteArray.empty
  rwa [ByteArray.append_empty, ByteArray.size_append, size_header hlength] at this

/-! ### Reading the file -/

/-- The descriptors are read as they were written. -/
theorem readBuckets_bytes (hlength : a.tables.length = 256) :
    (Header.readBuckets a.bytes).toList = a.buckets := by
  apply List.ext_getElem
  · simp [length_buckets hlength]
  · intro i h₁ h₂
    have hsize : ∀ piece ∈ a.buckets.map Bucket.encode, piece.size = Layout.descriptorSize := by
      simp
    have hheader := a.hasAt_header
    rw [Header.encodeBuckets_eq_join] at hheader
    have hat := hheader.join_of_size hsize i (by simpa using h₂)
    rw [Nat.zero_add, List.getElem_map] at hat
    simp only [Header.readBuckets, Vector.getElem_toList, Vector.getElem_ofFn]
    exact Bucket.read_of_hasAt hat

/-- The descriptor of a bucket tells where its table lies and how many slots it has. -/
theorem getElem_readBuckets (hlength : a.tables.length = 256) (i : Fin 256) :
    (Header.readBuckets a.bytes)[i] =
      ⟨UInt64.ofNat (a.recordEnd + Draft.tablesSize a.width (a.tables.take i)),
        UInt32.ofNat (a.tables.get (i.cast hlength.symm)).size⟩ := by
  have hi : i.val < a.tables.length := by rw [hlength]; exact i.isLt
  have hget := Draft.getElem_describe a.width a.recordEnd a.tables i.val hi
    (by rw [Draft.length_describe]; exact hi)
  have hread := List.getElem_of_eq (readBuckets_bytes hlength) (i := i.val)
    (by rw [Vector.length_toList]; exact i.isLt)
  rw [Vector.getElem_toList] at hread
  exact hread.trans hget

/-- The first table starts where the record region ends. -/
theorem start_zero (hlength : a.tables.length = 256) (hend : a.recordEnd < 2 ^ 64) :
    (Header.readBuckets a.bytes)[0].start.toNat = a.recordEnd := by
  have hread := getElem_readBuckets hlength 0
  simp only [Fin.getElem_fin, Fin.val_zero] at hread
  rw [hread]
  exact UInt64.toNat_ofNat_of_lt' (show a.recordEnd + 0 < 2 ^ 64 by omega)

namespace Readable

theorem recordEnd_lt (h : a.Readable) : a.recordEnd < 2 ^ 64 :=
  Nat.lt_of_le_of_lt (Nat.le_add_right ..) h.end_lt

/-- The file is accepted. -/
theorem parse_bytes (h : a.Readable) :
    Header.parse a.bytes = .ok ⟨a.width, Header.readBuckets a.bytes⟩ := by
  have hlow := a.headerSize_le_recordEnd
  rw [Header.parse_eq_ok_iff, h.detect_eq, Header.recordEnd, start_zero h.length_eq h.recordEnd_lt,
    readBuckets_bytes h.length_eq, size_bytes h.length_eq]
  exact ⟨by omega, rfl, hlow, Draft.describe_contiguous h.end_lt h.slots_lt⟩

/-- The header is what it was when the file was written. -/
theorem header_eq (h : a.Readable) (hbytes : image.bytes = a.bytes) :
    image.header = ⟨a.width, Header.readBuckets a.bytes⟩ := by
  have hparse := image.parse_eq
  rw [hbytes, h.parse_bytes] at hparse
  exact (Except.ok.inj hparse).symm

theorem width_eq (h : a.Readable) (hbytes : image.bytes = a.bytes) : image.width = a.width := by
  rw [Image.width, h.header_eq hbytes]

theorem recordEnd_eq (h : a.Readable) (hbytes : image.bytes = a.bytes) :
    image.recordEnd = a.recordEnd := by
  rw [Image.recordEnd, h.header_eq hbytes, Header.recordEnd]
  exact start_zero h.length_eq h.recordEnd_lt

theorem bucket_eq (h : a.Readable) (hbytes : image.bytes = a.bytes) (i : Fin 256) :
    image.header.bucket i =
      ⟨UInt64.ofNat (a.recordEnd + Draft.tablesSize a.width (a.tables.take i)),
        UInt32.ofNat (a.tables.get (i.cast h.length_eq.symm)).size⟩ := by
  rw [h.header_eq hbytes, Header.bucket]
  exact getElem_readBuckets h.length_eq i

/-- A bucket has the slots of its table. -/
theorem slots_eq (h : a.Readable) (hbytes : image.bytes = a.bytes) (i : Fin 256) :
    (image.header.bucket i).slots.toNat = (a.tables.get (i.cast h.length_eq.symm)).size := by
  rw [h.bucket_eq hbytes]
  exact UInt32.toNat_ofNat_of_lt' (h.slots_lt _ (List.get_mem ..))

/-- The slots in the file are those of the tables, as far as their width keeps them. -/
theorem slotAt_bytes (h : a.Readable) (hbytes : image.bytes = a.bytes) (i : Fin 256) {j : Nat}
    (hj : j < (a.tables.get (i.cast h.length_eq.symm)).size) :
    image.slotAt (image.header.bucket i) j =
      ((a.tables.get (i.cast h.length_eq.symm))[j]).kept a.width := by
  have hi : i.val < a.tables.length := by rw [h.length_eq]; exact i.isLt
  -- Where table `i` stands, and slot `j` in it.
  have htables := (hasAt_tables h.length_eq).join i.val (by simpa using hi)
  have hsum : ((a.tables.map fun t => t.encode a.width).take i).map ByteArray.size =
      (a.tables.take i).map fun t => t.size * a.width.bytes := by
    rw [← List.map_take, List.map_map]
    congr 1
    funext t
    exact t.size_encode a.width
  rw [List.getElem_map, hsum, SlotTable.encode_eq_join] at htables
  have hsize : ∀ piece ∈ (a.tables[i.val]).toList.map fun s => s.encode a.width,
      piece.size = a.width.bytes := by simp
  have hslot := htables.join_of_size hsize j (by simpa using hj)
  rw [List.getElem_map, Array.getElem_toList] at hslot
  have hread := Slot.read_of_hasAt hslot
  have hle := hslot.le
  have hend := h.end_lt
  rw [Slot.size_encode] at hle
  rw [Slot.read, if_pos hle, Except.ok.injEq] at hread
  rw [size_bytes h.length_eq] at hle
  have hstart : (UInt64.ofNat (a.recordEnd + Draft.tablesSize a.width (a.tables.take i))).toNat =
      a.recordEnd + Draft.tablesSize a.width (a.tables.take i) := by
    apply UInt64.toNat_ofNat_of_lt'
    have hpos : a.recordEnd + Draft.tablesSize a.width (a.tables.take i) < 2 ^ 64 := by
      simp only [Draft.tablesSize] at hle hend ⊢
      omega
    exact hpos
  rw [Image.slotAt, h.bucket_eq hbytes, h.width_eq hbytes, hbytes, hstart]
  exact hread

end Readable

end Assembly

end ConstDb
