import ConstDb.Error
import ConstDb.Layout.Geometry

/-! # Slots

A slot is one entry of the hash index: the hash of a key and the offset of a record with that key.
A wide slot stores the length of the key too.  A slot with offset 0 is vacant: offset 0 lies in the
header, where no record can be.

`Slot.decode` and `Slot.encode` convert between a slot and its bytes; `Slot.read`, `Slot.write` and
`Slot.vacantAt` work at a position of a larger byte string. -/

namespace ConstDb

/-- One entry of the hash index. -/
structure Slot where
  hash : UInt32
  keySize : Option UInt32
  offset : UInt64
deriving DecidableEq, Repr

namespace Slot

/-- The slot whose bytes are all zero in narrow form. -/
def vacant : Slot := ⟨0, none, 0⟩

/-- Whether a slot holds no entry. -/
@[inline] def isVacant (s : Slot) : Bool := decide (s.offset = 0)

@[simp] theorem isVacant_vacant : vacant.isVacant = true := rfl

/-- The bytes of a slot.  The narrow form keeps the low 32 bits of the offset and no key length; the
wide form writes an unknown key length as 0. -/
def encode (width : SlotWidth) (s : Slot) : ByteArray :=
  match width with
  | .narrow => s.hash.bigEndian ++ s.offset.toUInt32.bigEndian
  | .wide => s.hash.bigEndian ++ (s.keySize.getD 0).bigEndian ++ s.offset.bigEndian

@[simp] theorem size_encode (width : SlotWidth) (s : Slot) :
    (s.encode width).size = width.bytes := by
  cases width <;> simp [encode, SlotWidth.bytes, ByteArray.size_append]

/-- The slot that the `width.bytes` bytes from position `pos` on stand for. -/
@[inline] def decode (width : SlotWidth) (data : ByteArray) (pos : Nat) : Slot :=
  match width with
  | .narrow => ⟨data.word32 pos, none, (data.word32 (pos + 4)).toUInt64⟩
  | .wide => ⟨data.word32 pos, some (data.word32 (pos + 4)), data.word64 (pos + 8)⟩

/-- The slot at position `pos`, which must lie inside `data`. -/
@[inline] def read (data : ByteArray) (pos : Nat) (width : SlotWidth) : Except Error Slot :=
  if pos + width.bytes ≤ data.size then .ok (decode width data pos)
  else .error (.format pos .slotOutside)

/-- Writes a slot over the bytes at position `pos` of a buffer. -/
def write (buffer : ByteArray) (pos : Nat) (width : SlotWidth) (s : Slot) : ByteArray :=
  buffer.overwrite pos (s.encode width)

/-- Whether the offset stored in the slot at position `pos` is 0. -/
def vacantAt (buffer : ByteArray) (pos : Nat) (width : SlotWidth) : Bool :=
  match width with
  | .narrow => decide (buffer.word32 (pos + 4) = 0)
  | .wide => decide (buffer.word64 (pos + 8) = 0)

end Slot

end ConstDb
