import ConstDb.Layout.Header
import ConstDb.Record
import ConstDb.SlotTable

/-! # Drafts

A draft is a database in the making.  It holds the bytes of the records that were added and, for
each of them, what the index has to remember.  `Draft.add` refuses keys, values and numbers of
records beyond the limits of the format.  Keys may repeat: each addition is a further occurrence.

`Draft.image` gives the finished file: header, records, padding and slot tables. -/

namespace ConstDb

/-- A database in the making. -/
structure Draft where
  /-- The bytes of the records, in the order in which they were added. -/
  body : ByteArray
  /-- The index entries of the records, in the same order. -/
  entries : Array IndexEntry

namespace Draft

/-- The draft without records. -/
def empty : Draft := ⟨ByteArray.empty, #[]⟩

/-- How many records were added. -/
def size (d : Draft) : Nat := d.entries.size

/-- The offset of the next record. -/
def position (d : Draft) : Nat := Layout.headerSize + d.body.size

/-- Refuses a size beyond its limit. -/
def checkSize (what : Quantity) (size bound : Nat) : Except Error Unit :=
  if bound < size then .error (.limit what size bound) else .ok ()

/-- Refuses a record whose fields have the given sizes: a long key first, then a long value, then
one record too many. -/
def checkSizes (d : Draft) (keySize valueSize : Nat) : Except Error Unit := do
  checkSize .keyLength keySize Layout.maxFieldSize
  checkSize .valueLength valueSize Layout.maxFieldSize
  checkSize .recordCount (d.size + 1) Layout.maxRecords

/-- The draft with one more record at the end. -/
def append (d : Draft) (r : Record) : Draft :=
  -- The entry comes first: nothing asks for the old body afterwards, so it grows in place.
  let entry : IndexEntry :=
    ⟨Hash.ofBytes r.key, UInt32.ofNat r.key.size, UInt64.ofNat d.position⟩
  ⟨d.body ++ r.encode, d.entries.push entry⟩

/-- Adds a record, unless it is beyond the limits. -/
def add (d : Draft) (r : Record) : Except Error Draft := do
  d.checkSizes r.key.size r.value.size
  return d.append r

@[simp] theorem size_append (d : Draft) (r : Record) : (d.append r).size = d.size + 1 := by
  simp [append, size]

/-- Adding a record moves the position behind it. -/
theorem position_append (d : Draft) (r : Record) :
    (d.append r).position = d.position + Record.encodedSize r.key.size r.value.size := by
  simp only [append, position, ByteArray.size_append, Record.size_encode]
  omega

/-- The draft of a list of records. -/
def ofRecords (rs : List Record) : Draft := rs.foldl append empty

@[simp] theorem ofRecords_nil : ofRecords [] = empty := rfl

/-- The last record of a list is the last to be added. -/
theorem ofRecords_append_singleton (rs : List Record) (r : Record) :
    ofRecords (rs ++ [r]) = (ofRecords rs).append r := by
  simp [ofRecords]

/-- A draft has as many records as were added. -/
@[simp] theorem size_foldl_append (rs : List Record) (d : Draft) :
    (rs.foldl append d).size = d.size + rs.length := by
  induction rs generalizing d with
  | nil => rfl
  | cons r rest ih =>
    rw [List.foldl_cons, ih, size_append, List.length_cons]
    omega

@[simp] theorem size_ofRecords (rs : List Record) : (ofRecords rs).size = rs.length := by
  rw [ofRecords, size_foldl_append]
  simp [empty, size]

/-- The index entries of a bucket, in the order in which their records were added. -/
def entriesOf (d : Draft) (i : Fin 256) : List IndexEntry :=
  (d.entries.filter fun e => decide (e.bucket = i)).toList

/-- They are some of the entries of the draft. -/
theorem entriesOf_eq_filter (d : Draft) (i : Fin 256) :
    d.entriesOf i = d.entries.toList.filter fun e => decide (e.bucket = i) := by
  rw [entriesOf, Array.toList_filter]

/-- The slot tables of all buckets. -/
def tables (d : Draft) : List SlotTable :=
  (List.finRange 256).map fun i => SlotTable.ofEntries (d.entriesOf i)

/-- Where the record region ends, padding included. -/
def recordEnd (d : Draft) : Nat := d.position + Layout.paddingFor d.position

/-- The width of the slots. -/
def width (d : Draft) : SlotWidth := .forRecordEnd d.recordEnd

/-- The descriptors of slot tables that lie one behind the other from `pos` on. -/
def describe (width : SlotWidth) : (pos : Nat) → List SlotTable → List Bucket
  | _, [] => []
  | pos, t :: rest =>
    ⟨UInt64.ofNat pos, UInt32.ofNat t.size⟩ :: describe width (pos + t.size * width.bytes) rest

/-- The bucket descriptors. -/
def buckets (d : Draft) : List Bucket := describe d.width d.recordEnd d.tables

/-- The finished file. -/
def image (d : Draft) : ByteArray :=
  let tables := d.tables
  Header.encodeBuckets (describe d.width d.recordEnd tables)
    ++ d.body
    ++ ByteArray.replicate (Layout.paddingFor d.position) Layout.paddingByte
    ++ (tables.map (SlotTable.encode · d.width)).foldl (· ++ ·) ByteArray.empty

/-- A file has the descriptors in front, then the records, then the slot tables. -/
theorem image_eq (d : Draft) :
    d.image = Header.encodeBuckets d.buckets
      ++ d.body
      ++ ByteArray.replicate (Layout.paddingFor d.position) Layout.paddingByte
      ++ (d.tables.map (SlotTable.encode · d.width)).foldl (· ++ ·) ByteArray.empty := rfl

end Draft

end ConstDb
