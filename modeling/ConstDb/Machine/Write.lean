import ConstDb.Machine.Format

/-! # Writing a file with machine words

Slots, bucket descriptors and the lengths in front of records, written as the machine does it: each
field is a word that goes to its place in a slice, and a slice of a larger buffer is changed where
it lies.  A place that is not inside is a trap.

Whether a slot is vacant is found out from its bytes, before any word is read from them. -/

namespace ConstDb.Machine

/-- Writes a word of 32 bits to a place of a slice. -/
def write32 (piece : ByteArray) (start : Nat) (w : UInt32) : Except Trap ByteArray :=
  if start + 4 ≤ piece.size then .ok (piece.overwrite start w.bigEndian) else .error .outOfRange

/-- Writes a word of 64 bits to a place of a slice. -/
def write64 (piece : ByteArray) (start : Nat) (w : UInt64) : Except Trap ByteArray :=
  if start + 8 ≤ piece.size then .ok (piece.overwrite start w.bigEndian) else .error .outOfRange

/-- Changes the slice of `len` bytes from `start` on in its buffer. -/
def modify (buffer : ByteArray) (start len : UInt64)
    (change : ByteArray → Except Trap ByteArray) : Except Trap ByteArray := do
  let stop ← add64 start len
  let piece ← slice buffer start stop
  let changed ← change piece
  return buffer.overwrite start.toNat changed

/-! ### Slots -/

/-- Writes the fields of a slot to its bytes. -/
def fillSlot (width : SlotWidth) (s : Slot) (piece : ByteArray) : Except Trap ByteArray := do
  let piece ← write32 piece 0 s.hash
  match width with
  | .narrow => write32 piece 4 s.offset.toUInt32
  | .wide => do
    let piece ← write32 piece 4 (s.keySize.getD 0)
    write64 piece 8 s.offset

/-- Writes a slot to a position of a buffer. -/
def putSlot (buffer : ByteArray) (pos : UInt64) (width : SlotWidth) (s : Slot) :
    Except Trap ByteArray :=
  modify buffer pos (.ofNat width.bytes) (fillSlot width s)

/-- Whether the bytes that hold the offset of a slot are all zero. -/
def hasZeroOffset (width : SlotWidth) (piece : ByteArray) : Except Trap Bool :=
  match width with
  | .narrow => do
    let offset ← slice piece 4 8
    return decide (offset = ByteArray.replicate 4 0)
  | .wide => do
    let offset ← slice piece 8 16
    return decide (offset = ByteArray.replicate 8 0)

/-! ### Descriptors -/

/-- Writes the fields of a descriptor to its bytes. -/
def fillBucket (b : Bucket) (piece : ByteArray) : Except Trap ByteArray := do
  let piece ← write64 piece 0 b.start
  let piece ← write32 piece 8 b.slots
  write32 piece 12 0

/-- Writes the descriptor of a bucket into a header. -/
def putBucket (header : ByteArray) (index : UInt64) (b : Bucket) : Except Trap ByteArray := do
  let start ← mul64 index 16
  modify header start 16 (fillBucket b)

/-! ### Records -/

/-- The two lengths in front of a record. -/
def prologue (keySize valueSize : UInt32) : Except Trap ByteArray := do
  let piece ← write32 (ByteArray.replicate 8 0) 0 keySize
  write32 piece 4 valueSize

/-- How many bytes a record with fields of the given sizes takes. -/
def encodedSize (keySize valueSize : UInt64) : Except Trap UInt64 := do
  let front ← add64 8 keySize
  add64 front valueSize

end ConstDb.Machine
