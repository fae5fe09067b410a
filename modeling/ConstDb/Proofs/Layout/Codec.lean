import ConstDb.Layout.Bucket
import ConstDb.Layout.Slot
import ConstDb.Proofs.Bytes.Pieces
import ConstDb.Record

/-! # Slots, descriptors and records in a file

Where the bytes of a slot, of a bucket descriptor or of a record stand in a file, reading there
gives it back.  A slot comes back as far as its width keeps it (`Slot.kept`): the narrow form knows
no key length and only the low 32 bits of an offset.

## Key results

- `Slot.read_of_hasAt`, `Bucket.read_of_hasAt`, `Stored.read_of_hasAt`: what was written is read
- `Slot.hasAt_decode`: what was read is written as it was
- `Stored.key_of_hasAt`, `Stored.value_of_hasAt`: the fields of a record that was written
- `SlotWidth.detect_eq_forRecordEnd`: readers and writers use one width
-/

namespace ConstDb

/-! ### Slots -/

/-- Whether a slot holds an entry. -/
def Slot.isTaken (s : Slot) : Bool := !s.isVacant

/-- What the given width keeps of a slot. -/
def Slot.kept (width : SlotWidth) (s : Slot) : Slot :=
  match width with
  | .narrow => ⟨s.hash, none, s.offset.toUInt32.toUInt64⟩
  | .wide => ⟨s.hash, some (s.keySize.getD 0), s.offset⟩

namespace Slot

/-- A slot is read where it was written. -/
theorem read_of_hasAt {data : ByteArray} {pos : Nat} {width : SlotWidth} {s : Slot}
    (h : data.HasAt pos (s.encode width)) : read data pos width = .ok (s.kept width) := by
  have hle := h.le
  rw [size_encode] at hle
  rw [read, if_pos hle]
  cases width with
  | narrow =>
    obtain ⟨hhash, hoffset⟩ := h.append
    rw [UInt32.size_bigEndian] at hoffset
    simp only [decode, kept, hhash.word32 (by simp), hoffset.word32 (by simp),
      ByteArray.word32_bigEndian]
  | wide =>
    obtain ⟨hfront, hoffset⟩ := h.append
    obtain ⟨hhash, hkey⟩ := hfront.append
    rw [ByteArray.size_append, UInt32.size_bigEndian, UInt32.size_bigEndian] at hoffset
    rw [UInt32.size_bigEndian] at hkey
    simp only [decode, kept, hhash.word32 (by simp), hkey.word32 (by simp),
      hoffset.word64 (by simp), ByteArray.word32_bigEndian, ByteArray.word64_bigEndian]

/-- Reading a slot depends on its own bytes alone. -/
theorem read_congr {a b : ByteArray} {pos : Nat} {width : SlotWidth} (hsize : a.size = b.size)
    (h : ∀ i < width.bytes, a.byteAt (pos + i) = b.byteAt (pos + i)) :
    read a pos width = read b pos width := by
  have hbytes : 8 ≤ width.bytes := by cases width <;> decide
  -- A slot of either width starts with two words of 32 bits, and a wide one has a third of 64.
  have hdecode : decode width a pos = decode width b pos := by
    have hhash : a.word32 pos = b.word32 pos :=
      ByteArray.word32_congr fun i hi => h i (by omega)
    have hsecond : a.word32 (pos + 4) = b.word32 (pos + 4) := by
      apply ByteArray.word32_congr
      intro i hi
      rw [Nat.add_assoc]
      exact h (4 + i) (by omega)
    cases width with
    | narrow => simp only [decode, hhash, hsecond]
    | wide =>
      have hoffset : a.word64 (pos + 8) = b.word64 (pos + 8) := by
        apply ByteArray.word64_congr
        intro i hi
        rw [Nat.add_assoc]
        exact h (8 + i) (by simp only [SlotWidth.bytes]; omega)
      simp only [decode, hhash, hsecond, hoffset]
  rw [read, read, hsize, hdecode]

/-- The slot that some bytes stand for is written as these bytes. -/
theorem hasAt_decode {data : ByteArray} {pos : Nat} {width : SlotWidth}
    (h : pos + width.bytes ≤ data.size) :
    data.HasAt pos ((decode width data pos).encode width) := by
  cases width with
  | narrow =>
    simp only [SlotWidth.bytes] at h
    simp only [decode, encode, UInt32.toUInt32_toUInt64]
    refine (ByteArray.hasAt_word32 (by omega)).concat ?_
    rw [UInt32.size_bigEndian]
    exact ByteArray.hasAt_word32 (by omega)
  | wide =>
    simp only [SlotWidth.bytes] at h
    simp only [decode, encode, Option.getD_some]
    refine ((ByteArray.hasAt_word32 (by omega)).concat ?_).concat ?_
    · rw [UInt32.size_bigEndian]
      exact ByteArray.hasAt_word32 (by omega)
    · rw [ByteArray.size_append, UInt32.size_bigEndian, UInt32.size_bigEndian]
      exact ByteArray.hasAt_word64 (by omega)

@[simp] theorem hash_kept (width : SlotWidth) (s : Slot) : (s.kept width).hash = s.hash := by
  cases width <;> rfl

/-- An offset that a width can address is kept. -/
theorem offset_kept {width : SlotWidth} {s : Slot}
    (h : width = .narrow → s.offset.toNat < 2 ^ 32) : (s.kept width).offset = s.offset := by
  cases width with
  | wide => rfl
  | narrow =>
    have hlt := h rfl
    apply UInt64.toNat_inj.1
    simp only [kept, UInt32.toNat_toUInt64, UInt64.toNat_toUInt32]
    exact Nat.mod_eq_of_lt hlt

/-- A slot is vacant if what is kept of it is, as long as the width can address its offset. -/
theorem isVacant_kept {width : SlotWidth} {s : Slot}
    (h : width = .narrow → s.offset.toNat < 2 ^ 32) : (s.kept width).isVacant = s.isVacant := by
  rw [isVacant, isVacant, offset_kept h]

theorem isTaken_kept {width : SlotWidth} {s : Slot}
    (h : width = .narrow → s.offset.toNat < 2 ^ 32) : (s.kept width).isTaken = s.isTaken := by
  rw [isTaken, isTaken, isVacant_kept h]

end Slot

/-! ### The width of the slots -/

/-- A reader finds the width that the writer used, as long as the record region ends at a multiple
of the alignment.  Without that they would differ where it ends at `2 ^ 32 - 1`. -/
theorem SlotWidth.detect_eq_forRecordEnd {recordEnd fileSize : Nat} {header : ByteArray}
    (hmod : recordEnd % Layout.alignment = 0) (hle : recordEnd ≤ fileSize)
    (hword : (header.word64 0).toNat = recordEnd) :
    detect fileSize header = forRecordEnd recordEnd := by
  have hhalves := header.toNat_word64 0
  have hlow := (header.word32 (0 + 4)).toNat_lt
  have hhigh : header.word32 0 = 0 ↔ (header.word32 0).toNat = 0 := UInt32.toNat_inj.symm
  have hlimit : narrowLimit = 2 ^ 32 - 1 := rfl
  simp only [Layout.alignment] at hmod
  rw [detect, forRecordEnd]
  by_cases hnarrow : recordEnd < narrowLimit
  · rw [if_pos hnarrow, if_pos (.inr (hhigh.2 (by omega)))]
  · rw [if_neg hnarrow, if_neg]
    rintro (hless | hzero)
    · omega
    · have := hhigh.1 hzero
      omega

/-! ### Bucket descriptors -/

/-- A descriptor is read where it was written. -/
theorem Bucket.read_of_hasAt {header : ByteArray} {index : Nat} {b : Bucket}
    (h : header.HasAt (index * Layout.descriptorSize) b.encode) : read header index = b := by
  obtain ⟨hfront, -⟩ := h.append
  obtain ⟨hstart, hslots⟩ := hfront.append
  rw [UInt64.size_bigEndian] at hslots
  rw [read, hstart.word64 (by simp), hslots.word32 (by simp), ByteArray.word64_bigEndian,
    ByteArray.word32_bigEndian]

/-- Reading a descriptor depends on its own bytes alone. -/
theorem Bucket.read_congr {a b : ByteArray} {index : Nat}
    (h : ∀ i < Layout.descriptorSize, a.byteAt (index * Layout.descriptorSize + i) =
      b.byteAt (index * Layout.descriptorSize + i)) : read a index = read b index := by
  simp only [Layout.descriptorSize] at h
  have hstart : a.word64 (index * 16) = b.word64 (index * 16) :=
    ByteArray.word64_congr fun i hi => h i (by omega)
  have hslots : a.word32 (index * 16 + 8) = b.word32 (index * 16 + 8) := by
    apply ByteArray.word32_congr
    intro i hi
    rw [Nat.add_assoc]
    exact h (8 + i) (by omega)
  simp only [read, Layout.descriptorSize, hstart, hslots]

/-! ### Records -/

/-- Where a record lies that was written at `offset`. -/
def Record.storedAt (r : Record) (offset : Nat) : Stored := ⟨offset, r.key.size, r.value.size⟩

@[simp] theorem Record.offset_storedAt (r : Record) (offset : Nat) :
    (r.storedAt offset).offset = offset := rfl

theorem Record.next_storedAt (r : Record) (offset : Nat) :
    (r.storedAt offset).next = offset + r.encode.size := by
  rw [Stored.next_eq, size_encode]
  rfl

namespace Stored

/-- A prologue has 32 bits for each length. -/
theorem sizes_lt_of_announced {data : ByteArray} {offset stop : Nat} {s : Stored}
    (h : announced data offset stop = .ok s) : s.keySize < 2 ^ 32 ∧ s.valueSize < 2 ^ 32 := by
  obtain ⟨-, rfl⟩ := announced_eq_ok.1 h
  exact ⟨UInt32.toNat_lt _, UInt32.toNat_lt _⟩

theorem sizes_lt_of_read {data : ByteArray} {offset stop : Nat} {s : Stored}
    (h : read data offset stop = .ok s) : s.keySize < 2 ^ 32 ∧ s.valueSize < 2 ^ 32 :=
  sizes_lt_of_announced (read_eq_ok.1 h).1

variable {data : ByteArray} {offset : Nat} {r : Record}

/-- The three parts of a record that was written. -/
private theorem parts_of_hasAt (h : data.HasAt offset r.encode) :
    data.HasAt offset (Record.encodeLengths (.ofNat r.key.size) (.ofNat r.value.size)) ∧
      data.HasAt (r.storedAt offset).keyStart r.key ∧
      data.HasAt (r.storedAt offset).valueStart r.value := by
  obtain ⟨hfront, hvalue⟩ := h.append
  obtain ⟨hlengths, hkey⟩ := hfront.append
  have hsize : (Record.encodeLengths (.ofNat r.key.size) (.ofNat r.value.size)).size =
      Record.prologueSize := by
    simp [Record.encodeLengths, ByteArray.size_append, Record.prologueSize]
  rw [hsize] at hkey
  rw [ByteArray.size_append, hsize, ← Nat.add_assoc] at hvalue
  exact ⟨hlengths, hkey, hvalue⟩

/-- The prologue of a record that was written announces it. -/
theorem announced_of_hasAt (h : data.HasAt offset r.encode) (hkey : r.key.size < 2 ^ 32)
    (hvalue : r.value.size < 2 ^ 32) {stop : Nat} (hstop : (r.storedAt offset).next ≤ stop) :
    announced data offset stop = .ok (r.storedAt offset) := by
  have hle := h.le
  have hnext := (r.storedAt offset).offset_add_le_next
  have heq := r.next_storedAt offset
  simp only [Record.offset_storedAt] at hnext
  obtain ⟨hfirst, hsecond⟩ := (parts_of_hasAt h).1.append
  rw [UInt32.size_bigEndian] at hsecond
  rw [announced_eq_ok, hfirst.word32 (by simp), hsecond.word32 (by simp),
    ByteArray.word32_bigEndian, ByteArray.word32_bigEndian, UInt32.toNat_ofNat_of_lt' hkey,
    UInt32.toNat_ofNat_of_lt' hvalue]
  exact ⟨by omega, rfl⟩

/-- A record is read where it was written. -/
theorem read_of_hasAt (h : data.HasAt offset r.encode) (hkey : r.key.size < 2 ^ 32)
    (hvalue : r.value.size < 2 ^ 32) {stop : Nat} (hstop : (r.storedAt offset).next ≤ stop) :
    read data offset stop = .ok (r.storedAt offset) := by
  have hle := h.le
  rw [← r.next_storedAt] at hle
  exact read_eq_ok.2 ⟨announced_of_hasAt h hkey hvalue hstop, by omega⟩

/-- The key of a record that was written. -/
theorem key_of_hasAt (h : data.HasAt offset r.encode) : (r.storedAt offset).key data = r.key :=
  (parts_of_hasAt h).2.1.extract

/-- The value of a record that was written. -/
theorem value_of_hasAt (h : data.HasAt offset r.encode) :
    (r.storedAt offset).value data = r.value :=
  (parts_of_hasAt h).2.2.extract

/-- The record that was written. -/
theorem record_of_hasAt (h : data.HasAt offset r.encode) : (r.storedAt offset).record data = r := by
  rw [record, key_of_hasAt h, value_of_hasAt h]

variable {stop : Nat} {s : Stored}

/-- A record that was read lies where it would lie if it had been written there. -/
theorem storedAt_of_read (h : read data offset stop = .ok s) :
    (s.record data).storedAt offset = s := by
  have hle := (read_eq_ok.1 h).2
  have hend : s.next ≤ data.size := by omega
  rw [Record.storedAt, record, size_key hend, size_value hend, ← offset_of_read h]

/-- A record that was read stands where it was read, with the bytes that store it. -/
theorem hasAt_of_read (h : read data offset stop = .ok s) :
    data.HasAt offset (s.record data).encode := by
  obtain ⟨hannounced, hle⟩ := read_eq_ok.1 h
  obtain ⟨hroom, hs⟩ := announced_eq_ok.1 hannounced
  simp only [Record.prologueSize] at hroom
  have hkeyStart : s.keyStart = offset + 8 := by
    rw [keyStart, offset_of_read h, Record.prologueSize]
  have hvalueStart : s.valueStart = s.keyStart + s.keySize := rfl
  have hnext : s.next = s.valueStart + s.valueSize := rfl
  -- The lengths that are written for the fields are the ones that were read.
  have hkeySize : UInt32.ofNat (s.key data).size = data.word32 offset := by
    rw [size_key (by omega), hs, UInt32.ofNat_toNat]
  have hvalueSize : UInt32.ofNat (s.value data).size = data.word32 (offset + 4) := by
    rw [size_value (by omega), hs, UInt32.ofNat_toNat]
  have hlengths : data.HasAt offset
      (Record.encodeLengths (data.word32 offset) (data.word32 (offset + 4))) := by
    refine (ByteArray.hasAt_word32 (by omega)).concat ?_
    rw [UInt32.size_bigEndian]
    exact ByteArray.hasAt_word32 (by omega)
  have hsize : (Record.encodeLengths (data.word32 offset) (data.word32 (offset + 4))).size = 8 := by
    rw [Record.encodeLengths, ByteArray.size_append, UInt32.size_bigEndian, UInt32.size_bigEndian]
  have hkey : data.HasAt s.keyStart (s.key data) := .of_extract (by omega)
  have hvalue : data.HasAt s.valueStart (s.value data) := .of_extract (by omega)
  rw [record, Record.encode, hkeySize, hvalueSize]
  refine (hlengths.concat ?_).concat ?_
  · rw [hsize, ← hkeyStart]
    exact hkey
  · rw [ByteArray.size_append, hsize, size_key (by omega), ← Nat.add_assoc, ← hkeyStart,
      ← hvalueStart]
    exact hvalue

end Stored

end ConstDb
