import ConstDb.BigEndian
import ConstDb.Error

/-! # Records

A record is a key and a value.  It is stored as the two lengths, in 32 bits each, followed by the
bytes of the key and of the value.

`Stored` tells where in a file a record lies.  Offsets may come from a damaged index, so
`Stored.read` checks every piece against the end of the record region.  It copies nothing: many
slots may lead to one long record, and most searches only want to know whether it is there.  The
bytes are taken by `Stored.key`, `Stored.value` and `Stored.record`. -/

namespace ConstDb

/-- A key with a value. -/
structure Record where
  key : ByteArray
  value : ByteArray
deriving DecidableEq

namespace Record

/-- How many bytes the two lengths take. -/
def prologueSize : Nat := 8

/-- The two lengths in front of a record. -/
def encodeLengths (keySize valueSize : UInt32) : ByteArray :=
  keySize.bigEndian ++ valueSize.bigEndian

/-- The bytes that store a record. -/
def encode (r : Record) : ByteArray :=
  encodeLengths (UInt32.ofNat r.key.size) (UInt32.ofNat r.value.size) ++ r.key ++ r.value

/-- How many bytes a record with fields of the given sizes takes. -/
def encodedSize (keySize valueSize : Nat) : Nat := prologueSize + keySize + valueSize

@[simp] theorem size_encode (r : Record) :
    r.encode.size = encodedSize r.key.size r.value.size := by
  simp [encode, encodeLengths, encodedSize, prologueSize, ByteArray.size_append]

end Record

/-- A record in a file: where it starts and how long its fields are. -/
structure Stored where
  offset : Nat
  keySize : Nat
  valueSize : Nat
deriving DecidableEq, Repr

namespace Stored

/-- Where the key starts. -/
@[inline] def keyStart (s : Stored) : Nat := s.offset + Record.prologueSize

/-- Where the key ends and the value starts. -/
@[inline] def valueStart (s : Stored) : Nat := s.keyStart + s.keySize

/-- Where the value ends, and the next record starts. -/
@[inline] def next (s : Stored) : Nat := s.valueStart + s.valueSize

/-- The bytes of the key. -/
def key (s : Stored) (data : ByteArray) : ByteArray := data.extract s.keyStart s.valueStart

/-- The bytes of the value. -/
def value (s : Stored) (data : ByteArray) : ByteArray := data.extract s.valueStart s.next

/-- The record itself. -/
def record (s : Stored) (data : ByteArray) : Record := ⟨s.key data, s.value data⟩

/-- What the two lengths at `offset` say, in a record region that ends at `stop`.  The fields need
not lie inside. -/
@[inline] def announced (data : ByteArray) (offset stop : Nat) : Except Error Stored :=
  if offset + Record.prologueSize ≤ min stop data.size then
    .ok ⟨offset, (data.word32 offset).toNat, (data.word32 (offset + 4)).toNat⟩
  else .error (.format offset .recordHeaderTruncated)

/-- Refuses a record whose fields do not lie inside, the key before the value. -/
@[inline] def check (s : Stored) (data : ByteArray) (stop : Nat) : Except Error Unit :=
  if min stop data.size < s.valueStart then .error (.format s.offset (.keyTruncated s.keySize))
  else if min stop data.size < s.next then .error (.format s.offset (.valueTruncated s.valueSize))
  else .ok ()

/-- The record stored at `offset`, in a record region that ends at `stop`. -/
def read (data : ByteArray) (offset stop : Nat) : Except Error Stored :=
  match announced data offset stop with
  | .error e => .error e
  | .ok s => (s.check data stop).map fun () => s

theorem next_eq (s : Stored) :
    s.next = s.offset + Record.encodedSize s.keySize s.valueSize := by
  simp only [next, valueStart, keyStart, Record.encodedSize]
  omega

theorem offset_add_le_next (s : Stored) : s.offset + Record.prologueSize ≤ s.next := by
  simp only [next, valueStart, keyStart]
  omega

/-- A prologue says something just when it lies inside. -/
theorem announced_eq_ok {data : ByteArray} {offset stop : Nat} {s : Stored} :
    announced data offset stop = .ok s ↔
      offset + Record.prologueSize ≤ min stop data.size ∧
        s = ⟨offset, (data.word32 offset).toNat, (data.word32 (offset + 4)).toNat⟩ := by
  unfold announced
  split
  · rename_i h
    simp [h, eq_comm]
  · rename_i h
    simp [h]

/-- A record passes just when it ends inside. -/
theorem check_eq_ok {s : Stored} {data : ByteArray} {stop : Nat} :
    s.check data stop = .ok () ↔ s.next ≤ min stop data.size := by
  have : s.valueStart ≤ s.next := Nat.le_add_right ..
  unfold check
  split
  · simp only [reduceCtorEq, false_iff]
    omega
  · split
    · simp only [reduceCtorEq, false_iff]
      omega
    · simp only [true_iff]
      omega

/-- A record is read just when its prologue announces it and it ends inside. -/
theorem read_eq_ok {data : ByteArray} {offset stop : Nat} {s : Stored} :
    read data offset stop = .ok s ↔
      announced data offset stop = .ok s ∧ s.next ≤ min stop data.size := by
  unfold read
  split
  · rename_i h
    simp [h]
  · rename_i t h
    rw [h]
    cases hc : t.check data stop with
    | error e =>
      simp only [Except.map, reduceCtorEq, Except.ok.injEq, false_iff, not_and]
      rintro rfl hle
      cases hc.symm.trans (check_eq_ok.2 hle)
    | ok u =>
      simp only [Except.map, Except.ok.injEq, iff_self_and]
      rintro rfl
      exact check_eq_ok.1 hc

/-- A record that was read lies where it was looked for. -/
theorem offset_of_read {data : ByteArray} {offset stop : Nat} {s : Stored}
    (h : read data offset stop = .ok s) : s.offset = offset := by
  rw [(announced_eq_ok.1 (read_eq_ok.1 h).1).2]

/-- A key inside the file has the length that was announced. -/
theorem size_key {s : Stored} {data : ByteArray} (h : s.next ≤ data.size) :
    (s.key data).size = s.keySize := by
  simp only [next] at h
  simp only [key, valueStart, ByteArray.size_extract] at h ⊢
  omega

/-- A value inside the file has the length that was announced. -/
theorem size_value {s : Stored} {data : ByteArray} (h : s.next ≤ data.size) :
    (s.value data).size = s.valueSize := by
  simp only [value, next, ByteArray.size_extract] at h ⊢
  omega

end Stored

/-- The record stored at `offset`, in a record region that ends at `stop`. -/
def Record.decode (data : ByteArray) (offset stop : Nat) : Except Error Record :=
  (Stored.read data offset stop).map fun s => s.record data

end ConstDb
