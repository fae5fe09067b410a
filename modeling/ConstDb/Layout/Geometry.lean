import ConstDb.BigEndian

/-! # Geometry of a database file

A database file is a header of 256 bucket descriptors, the records in the order in which they were
added, padding up to a multiple of 16, and one slot table for each bucket.

Slots come in two widths.  A narrow slot addresses records with 32 bits and is used as long as the
record region ends below `2 ^ 32 - 1`; a wide slot addresses them with 64 bits.  The writer chooses
the width from the end of the record region (`SlotWidth.forRecordEnd`), the reader from the size of
the file and the first stored word (`SlotWidth.detect`). -/

namespace ConstDb

namespace Layout

/-- How many buckets a database has. -/
def bucketCount : Nat := 256

/-- How many bytes describe a bucket. -/
def descriptorSize : Nat := 16

/-- How many bytes the header takes; the records start behind it. -/
def headerSize : Nat := 4096

/-- The slot tables start at a multiple of this number. -/
def alignment : Nat := 16

/-- The byte that fills the gap between the records and the slot tables. -/
def paddingByte : UInt8 := 0xff

/-- The longest key and the longest value that a record may have, `2 ^ 31 - 9`. -/
def maxFieldSize : Nat := 0x7ffffff7

/-- The greatest number of records that a database may have, `2 ^ 31 - 1`. -/
def maxRecords : Nat := 0x7fffffff

/-- How many padding bytes follow a record region that ends at `pos`. -/
def paddingFor (pos : Nat) : Nat := (alignment - pos % alignment) % alignment

theorem paddingFor_lt (pos : Nat) : paddingFor pos < alignment := Nat.mod_lt _ (by decide)

/-- After the padding the position is a multiple of the alignment. -/
theorem add_paddingFor_mod (pos : Nat) : (pos + paddingFor pos) % alignment = 0 := by
  simp only [paddingFor, alignment]
  omega

end Layout

/-- The two forms of a slot. -/
inductive SlotWidth where
  | narrow
  | wide
deriving DecidableEq, Repr

namespace SlotWidth

/-- The binary logarithm of the size of a slot. -/
def shift : SlotWidth → Nat
  | narrow => 3
  | wide => 4

/-- How many bytes a slot takes. -/
def bytes : SlotWidth → Nat
  | narrow => 8
  | wide => 16

/-- The first position that is out of reach of narrow slots, `2 ^ 32 - 1`. -/
def narrowLimit : Nat := 0xffffffff

/-- The width that a writer uses when the padded record region ends at `recordEnd`. -/
def forRecordEnd (recordEnd : Nat) : SlotWidth :=
  if recordEnd < narrowLimit then narrow else wide

/-- The width that a reader finds in a file of `fileSize` bytes.  In a larger file the upper half of
the first stored position, which is the end of the record region, decides. -/
def detect (fileSize : Nat) (header : ByteArray) : SlotWidth :=
  if fileSize < narrowLimit ∨ header.word32 0 = 0 then narrow else wide

end SlotWidth

end ConstDb
