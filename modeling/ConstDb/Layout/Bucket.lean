import ConstDb.Layout.Geometry

/-! # Bucket descriptors

The header describes each of the 256 buckets by 16 bytes: where the slot table of the bucket starts,
how many slots it has, and four bytes of zero. -/

namespace ConstDb

/-- Where the slot table of a bucket lies. -/
structure Bucket where
  start : UInt64
  slots : UInt32
deriving DecidableEq, Repr

namespace Bucket

/-- The bytes of a descriptor. -/
def encode (b : Bucket) : ByteArray :=
  b.start.bigEndian ++ b.slots.bigEndian ++ ByteArray.replicate 4 0

@[simp] theorem size_encode (b : Bucket) : b.encode.size = Layout.descriptorSize := by
  simp [encode, ByteArray.size_append, Layout.descriptorSize]

/-- The descriptor of bucket `index` in a header.  The last four bytes do not matter. -/
def read (header : ByteArray) (index : Nat) : Bucket :=
  ⟨header.word64 (index * Layout.descriptorSize), header.word32 (index * Layout.descriptorSize + 8)⟩

/-- Writes the descriptor of bucket `index` into a header. -/
def write (header : ByteArray) (index : Nat) (b : Bucket) : ByteArray :=
  header.overwrite (index * Layout.descriptorSize) b.encode

/-- Where the slot table ends. -/
def tableEnd (b : Bucket) (width : SlotWidth) : Nat :=
  b.start.toNat + b.slots.toNat * width.bytes

end Bucket

end ConstDb
