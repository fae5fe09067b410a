import ConstDb.Error
import ConstDb.Hash
import ConstDb.Layout.Bucket

/-! # Headers

`Header.parse` reads the 256 bucket descriptors of a file and accepts them when the slot tables
follow each other without gap from the end of the record region, which lies behind the header, to
the end of the file.  It names the first descriptor that does not fit. -/

namespace ConstDb

/-- The bucket descriptors of a file and the width of its slots. -/
structure Header where
  width : SlotWidth
  buckets : Vector Bucket 256

namespace Header

/-- The descriptors stored at the front of a file. -/
def readBuckets (data : ByteArray) : Vector Bucket 256 :=
  Vector.ofFn fun i => Bucket.read data i.val

/-- Follows the slot tables from `expected` on: each must start where the one before it ends, and
end inside the file.  The result is where the last one ends; `index` counts the buckets. -/
def followTables (width : SlotWidth) (fileSize : Nat) :
    (index expected : Nat) → List Bucket → Except Error Nat
  | _, expected, [] => .ok expected
  | index, expected, b :: rest =>
    if b.start.toNat ≠ expected then
      .error (.format (index * Layout.descriptorSize)
        (.tableMisplaced index b.start.toNat expected))
    else if fileSize < b.tableEnd width then
      .error (.format (index * Layout.descriptorSize)
        (.tableTooLong index b.slots.toNat fileSize))
    else followTables width fileSize (index + 1) (b.tableEnd width) rest

/-- Accepts descriptors whose tables go from the end of the record region to the end of the file. -/
def accept (fileSize : Nat) (width : SlotWidth) (buckets : Vector Bucket 256) :
    Except Error Header :=
  -- The first slot table starts where the record region ends.
  let recordEnd := buckets[0].start.toNat
  if recordEnd < Layout.headerSize ∨ fileSize < recordEnd then
    .error (.format 0 (.recordEndOutside recordEnd Layout.headerSize fileSize))
  else
    match followTables width fileSize 0 recordEnd buckets.toList with
    | .error e => .error e
    | .ok tablesEnd =>
      if tablesEnd ≠ fileSize then
        .error (.format tablesEnd (.tablesEndEarly tablesEnd fileSize))
      else .ok ⟨width, buckets⟩

/-- Reads the header of a file, or says what is wrong with it. -/
def parse (data : ByteArray) : Except Error Header :=
  if data.size < Layout.headerSize then
    .error (.format 0 (.headerTooSmall data.size))
  else accept data.size (.detect data.size data) (readBuckets data)

/-- The descriptor of a bucket. -/
def bucket (h : Header) (i : Fin 256) : Bucket := h.buckets[i]

/-- Where the record region, padding included, ends: the first slot table starts there. -/
def recordEnd (h : Header) : Nat := h.buckets[0].start.toNat

/-- How many slots all tables have together. -/
def slotTotal (h : Header) : Nat := h.buckets.toList.foldl (fun total b => total + b.slots.toNat) 0

/-- How many records the slot tables have room for: a table has two slots for each record. -/
def recordCount (h : Header) : Nat := h.slotTotal / 2

/-- The bytes of a header. -/
def encodeBuckets (buckets : List Bucket) : ByteArray :=
  buckets.foldl (fun bytes b => bytes ++ b.encode) ByteArray.empty

end Header

end ConstDb
