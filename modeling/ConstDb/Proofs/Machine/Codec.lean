import ConstDb.Machine.Write
import ConstDb.Proofs.Machine.Fill

/-! # Slots and descriptors that are written and read again

A slot or a descriptor is written into a larger buffer: into the table of a bucket, or into a
header.  It is read again where it was written, as far as its form keeps it, and nothing else in the
buffer changes.  A slot that was read is written back as it stood.

A writer asks the bytes of a slot whether it is vacant, a reader asks the slot that it reads; both
get one answer.

## Key results

- `Machine.putSlot_eq`, `Machine.putBucket_eq`: the machine writes what the format says
- `Machine.put_slot`: what a buffer is after a slot was written
- `Machine.hasZeroOffset_eq`, `Machine.hasZeroOffset_eq_isVacant`: the tests for a vacant slot agree
- `Machine.slots_and_descriptors_read_back`: writing and reading, for every slot and descriptor
-/

namespace ConstDb.Machine

/-! ### Words and slices -/

/-- Writing over what is behind a front leaves the front, and the rest behind. -/
private theorem exists_overwrite_behind {front rest piece : ByteArray} {start more : Nat}
    (hstart : front.size = start) (hrest : rest.size = piece.size + more) :
    start + piece.size ≤ (front ++ rest).size ∧ ∃ rest', rest'.size = more ∧
      (front ++ rest).overwrite start piece = front ++ piece ++ rest' := by
  subst hstart
  refine ⟨by rw [ByteArray.size_append]; omega, rest.extract piece.size rest.size, ?_,
    ByteArray.overwrite_behind front (by omega)⟩
  rw [ByteArray.size_extract]
  omega

/-- Writing a word behind a front. -/
theorem write32_behind {front rest : ByteArray} {start more : Nat} (w : UInt32)
    (hstart : front.size = start) (hrest : rest.size = 4 + more) :
    ∃ rest', rest'.size = more ∧
      write32 (front ++ rest) start w = .ok (front ++ w.bigEndian ++ rest') := by
  rw [← UInt32.size_bigEndian w] at hrest
  obtain ⟨hroom, rest', hmore, hover⟩ := exists_overwrite_behind hstart hrest
  rw [UInt32.size_bigEndian] at hroom
  exact ⟨rest', hmore, by rw [write32, if_pos hroom, hover]⟩

theorem write64_behind {front rest : ByteArray} {start more : Nat} (w : UInt64)
    (hstart : front.size = start) (hrest : rest.size = 8 + more) :
    ∃ rest', rest'.size = more ∧
      write64 (front ++ rest) start w = .ok (front ++ w.bigEndian ++ rest') := by
  rw [← UInt64.size_bigEndian w] at hrest
  obtain ⟨hroom, rest', hmore, hover⟩ := exists_overwrite_behind hstart hrest
  rw [UInt64.size_bigEndian] at hroom
  exact ⟨rest', hmore, by rw [write64, if_pos hroom, hover]⟩

/-- A slice that is inside is changed where it lies. -/
theorem modify_eq {buffer changed : ByteArray} (haddr : Addressable buffer) {start len : UInt64}
    {m n : Nat} (hm : start.toNat = m) (hn : len.toNat = n) (hin : m + n ≤ buffer.size)
    {change : ByteArray → Except Trap ByteArray}
    (hchange : change (buffer.extract m (m + n)) = .ok changed) :
    modify buffer start len change = .ok (buffer.overwrite m changed) := by
  simp only [Addressable] at haddr
  have hstop : (UInt64.ofNat (m + n)).toNat = m + n :=
    UInt64.toNat_ofNat_of_lt' (show m + n < 2 ^ 64 by omega)
  rw [modify, add64_eq_ok hm hn (by omega), ok_bind, slice_eq_ok hm hstop (by omega) hin, ok_bind,
    hchange, ok_bind, hm, pure_eq_ok]

/-- A stretch is zero just when the word in it is. -/
theorem extract_eq_zero_iff {data : ByteArray} {pos : Nat} (h : pos + 4 ≤ data.size) :
    data.extract pos (pos + 4) = ByteArray.replicate 4 0 ↔ data.word32 pos = 0 := by
  have hword := (ByteArray.hasAt_word32 h).extract
  have hzero : ByteArray.replicate 4 0 = (0 : UInt32).bigEndian := by decide
  rw [UInt32.size_bigEndian] at hword
  rw [hword, hzero, UInt32.bigEndian_inj]

theorem extract_eq_zero_iff64 {data : ByteArray} {pos : Nat} (h : pos + 8 ≤ data.size) :
    data.extract pos (pos + 8) = ByteArray.replicate 8 0 ↔ data.word64 pos = 0 := by
  have hword := (ByteArray.hasAt_word64 h).extract
  have hzero : ByteArray.replicate 8 0 = (0 : UInt64).bigEndian := by decide
  rw [UInt64.size_bigEndian] at hword
  rw [hword, hzero, UInt64.bigEndian_inj]

/-! ### Slots -/

/-- The fields of a slot, written one by one, are its bytes. -/
theorem fillSlot_eq {width : SlotWidth} (s : Slot) {piece : ByteArray}
    (hsize : piece.size = width.bytes) : fillSlot width s piece = .ok (s.encode width) := by
  -- Each field is written behind those before it, and the last one fills the piece.
  have hempty : piece = .empty ++ piece := ByteArray.empty_append.symm
  cases width with
  | narrow =>
    obtain ⟨rest₁, h₁, hhash⟩ :=
      @write32_behind .empty piece 0 4 s.hash rfl hsize
    obtain ⟨rest₂, h₂, hoffset⟩ :=
      @write32_behind s.hash.bigEndian rest₁ 4 0 s.offset.toUInt32 (by simp) h₁
    rw [← hempty, ByteArray.empty_append] at hhash
    rw [fillSlot, hhash, ok_bind]
    simp only
    rw [hoffset, ByteArray.size_eq_zero_iff.1 h₂, ByteArray.append_empty, Slot.encode]
  | wide =>
    obtain ⟨rest₁, h₁, hhash⟩ :=
      @write32_behind .empty piece 0 12 s.hash rfl hsize
    obtain ⟨rest₂, h₂, hkey⟩ :=
      @write32_behind s.hash.bigEndian rest₁ 4 8 (s.keySize.getD 0) (by simp) h₁
    obtain ⟨rest₃, h₃, hoffset⟩ :=
      @write64_behind (s.hash.bigEndian ++ (s.keySize.getD 0).bigEndian) rest₂ 8 0 s.offset
        (by simp [ByteArray.size_append]) h₂
    rw [← hempty, ByteArray.empty_append] at hhash
    rw [fillSlot, hhash, ok_bind]
    simp only
    rw [hkey, ok_bind, hoffset, ByteArray.size_eq_zero_iff.1 h₃, ByteArray.append_empty,
      Slot.encode]

theorem toNat_bytes (width : SlotWidth) : (UInt64.ofNat width.bytes).toNat = width.bytes := by
  cases width <;> rfl

/-- The bytes that hold the offset of a slot are zero just when the slot that is read is vacant. -/
theorem hasZeroOffset_eq {data : ByteArray} {pos : Nat} {width : SlotWidth}
    (hin : pos + width.bytes ≤ data.size) :
    hasZeroOffset width (data.extract pos (pos + width.bytes)) =
      .ok (Slot.decode width data pos).isVacant := by
  rw [← Slot.vacantAt_eq]
  have hsize : (data.extract pos (pos + width.bytes)).size = width.bytes := by
    rw [ByteArray.size_extract]
    omega
  -- The offset is the second half of a slot of either width.
  cases width with
  | narrow =>
    simp only [SlotWidth.bytes] at hin hsize ⊢
    have hfour : (4 : UInt64).toNat = 4 := rfl
    have height : (8 : UInt64).toNat = 8 := rfl
    rw [hasZeroOffset, slice_eq_ok hfour height (by decide) (by omega), ok_bind, pure_eq_ok,
      ByteArray.extract_extract, Nat.min_self, Slot.vacantAt]
    simp only [← extract_eq_zero_iff (show pos + 4 + 4 ≤ data.size by omega)]
  | wide =>
    simp only [SlotWidth.bytes] at hin hsize ⊢
    have height : (8 : UInt64).toNat = 8 := rfl
    have hsixteen : (16 : UInt64).toNat = 16 := rfl
    rw [hasZeroOffset, slice_eq_ok height hsixteen (by decide) (by omega), ok_bind, pure_eq_ok,
      ByteArray.extract_extract, Nat.min_self, Slot.vacantAt]
    simp only [← extract_eq_zero_iff64 (show pos + 8 + 8 ≤ data.size by omega)]

/-- Looking at its bytes and reading the word that they make are one test. -/
theorem hasZeroOffset_eq_isVacant {width : SlotWidth} {piece : ByteArray}
    (hsize : piece.size = width.bytes) : hasZeroOffset width piece = isVacant width piece := by
  have hzero := @hasZeroOffset_eq piece 0 width (by omega)
  rw [Nat.zero_add, ← hsize, ByteArray.extract_zero_size, ← Slot.vacantAt_eq] at hzero
  rw [hzero]
  cases width with
  | narrow =>
    simp only [SlotWidth.bytes] at hsize
    rw [isVacant, read32, if_pos (by omega)]
    rfl
  | wide =>
    simp only [SlotWidth.bytes] at hsize
    rw [isVacant, read64, if_pos (by omega)]
    rfl

/-! ### Descriptors -/

/-- The fields of a descriptor, written one by one, are its bytes. -/
theorem fillBucket_eq (b : Bucket) {piece : ByteArray} (hsize : piece.size = 16) :
    fillBucket b piece = .ok b.encode := by
  obtain ⟨rest₁, h₁, hstart⟩ := @write64_behind .empty piece 0 8 b.start rfl hsize
  obtain ⟨rest₂, h₂, hslots⟩ := @write32_behind b.start.bigEndian rest₁ 8 4 b.slots (by simp) h₁
  obtain ⟨rest₃, h₃, hzero⟩ := @write32_behind (b.start.bigEndian ++ b.slots.bigEndian) rest₂ 12 0 0
    (by simp [ByteArray.size_append]) h₂
  have hblank : (0 : UInt32).bigEndian = ByteArray.replicate 4 0 := by decide
  rw [ByteArray.empty_append, ByteArray.empty_append] at hstart
  rw [fillBucket, hstart, ok_bind, hslots, ok_bind, hzero, ByteArray.size_eq_zero_iff.1 h₃,
    ByteArray.append_empty, hblank, Bucket.encode]

section

variable {buffer : ByteArray} (haddr : Addressable buffer)

include haddr

/-- The machine writes a slot where it is written. -/
theorem putSlot_eq {pos : UInt64} {width : SlotWidth} (hin : pos.toNat + width.bytes ≤ buffer.size)
    (s : Slot) : putSlot buffer pos width s = .ok (Slot.write buffer pos.toNat width s) := by
  apply modify_eq haddr rfl (toNat_bytes width) hin
  apply fillSlot_eq
  rw [ByteArray.size_extract]
  omega

/-- The machine writes a descriptor where it is written. -/
theorem putBucket_eq {index : Nat} (hin : index * 16 + 16 ≤ buffer.size) (b : Bucket) :
    putBucket buffer (.ofNat index) b = .ok (Bucket.write buffer index b) := by
  simp only [Addressable] at haddr
  have hindex : (UInt64.ofNat index).toNat = index :=
    UInt64.toNat_ofNat_of_lt' (show index < 2 ^ 64 by omega)
  have hsixteen : (16 : UInt64).toNat = 16 := rfl
  have hstart : (UInt64.ofNat (index * 16)).toNat = index * 16 :=
    UInt64.toNat_ofNat_of_lt' (show index * 16 < 2 ^ 64 by omega)
  rw [putBucket, mul64_eq_ok hindex hsixteen (by omega), ok_bind]
  apply modify_eq haddr hstart hsixteen hin
  apply fillBucket_eq
  rw [ByteArray.size_extract]
  omega

end

/-! ### Writing and reading -/

/-- What a buffer is after a slot was written to a position of it. -/
structure Put (buffer : ByteArray) (width : SlotWidth) (pos : UInt64) (s : Slot)
    (buffer' : ByteArray) : Prop where
  size_eq : buffer'.size = buffer.size
  /-- Only the bytes of the slot change. -/
  byteAt_eq : ∀ i, i < pos.toNat ∨ pos.toNat + width.bytes ≤ i →
    buffer'.byteAt i = buffer.byteAt i
  /-- The narrow form keeps the lower half of the offset, and no length of the key. -/
  narrow : width = .narrow →
    readSlot buffer' pos width = .ok (.ok ⟨s.hash, none, s.offset % 0x100000000⟩)
  /-- The wide form keeps everything, and takes an unknown length of the key for 0. -/
  wide : width = .wide →
    readSlot buffer' pos width = .ok (.ok ⟨s.hash, some (s.keySize.getD 0), s.offset⟩)

/-- A word without its upper half. -/
theorem toUInt64_toUInt32 (w : UInt64) : w.toUInt32.toUInt64 = w % 0x100000000 := by
  apply UInt64.toNat_inj.1
  rw [UInt32.toNat_toUInt64, UInt64.toNat_toUInt32, UInt64.toNat_mod]
  rfl

section

variable {buffer : ByteArray} (haddr : Addressable buffer)

include haddr

/-- A slot that was written is read again, and nothing else changes. -/
theorem put_slot {pos : UInt64} {width : SlotWidth} (hin : pos.toNat + width.bytes ≤ buffer.size)
    (s : Slot) : Put buffer width pos s (Slot.write buffer pos.toNat width s) := by
  have hroom : pos.toNat + (s.encode width).size ≤ buffer.size := by
    rw [Slot.size_encode]
    exact hin
  have hsize := ByteArray.size_overwrite hroom
  have haddr' : Addressable (Slot.write buffer pos.toNat width s) := by
    rw [Addressable, Slot.write, hsize]
    exact haddr
  have hat : (Slot.write buffer pos.toNat width s).HasAt pos.toNat (s.encode width) :=
    .of_overwrite hroom
  -- Both widths read back what the slot keeps; they differ in what that is.
  have hread :
      readSlot (Slot.write buffer pos.toNat width s) pos width = .ok (.ok (s.kept width)) := by
    rw [readSlot_eq haddr', Slot.read_of_hasAt hat]
  refine ⟨hsize, fun i hi => ByteArray.byteAt_overwrite hroom ?_, ?narrow, ?wide⟩
  · rw [Slot.size_encode]
    exact hi
  case narrow =>
    rintro rfl
    rw [hread, Slot.kept, toUInt64_toUInt32]
  case wide =>
    rintro rfl
    rw [hread, Slot.kept]

/-- A slot beside the one that was written is read as before. -/
theorem Put.readSlot_eq {pos pos' : UInt64} {width : SlotWidth} {s : Slot} {buffer' : ByteArray}
    (h : Put buffer width pos s buffer')
    (hbeside : pos'.toNat + width.bytes ≤ pos.toNat ∨ pos.toNat + width.bytes ≤ pos'.toNat) :
    readSlot buffer' pos' width = readSlot buffer pos' width := by
  have haddr' : Addressable buffer' := by
    rw [Addressable, h.size_eq]
    exact haddr
  rw [Machine.readSlot_eq haddr, Machine.readSlot_eq haddr', Slot.read_congr h.size_eq]
  intro i hi
  apply h.byteAt_eq
  omega

/-- A slot that was read is written back as it stood, and its bytes tell whether it is vacant. -/
theorem exists_read_back {pos : UInt64} {width : SlotWidth}
    (hin : pos.toNat + width.bytes ≤ buffer.size) :
    ∃ s, readSlot buffer pos width = .ok (.ok s) ∧ putSlot buffer pos width s = .ok buffer ∧
      hasZeroOffset width (buffer.extract pos.toNat (pos.toNat + width.bytes)) =
        .ok s.isVacant := by
  refine ⟨Slot.decode width buffer pos.toNat, ?_, ?_, hasZeroOffset_eq hin⟩
  · rw [Machine.readSlot_eq haddr, Slot.read, if_pos hin]
  · rw [putSlot_eq haddr hin, Slot.write, ByteArray.overwrite_of_hasAt (Slot.hasAt_decode hin)]

end

/-! ### Tables -/

/-- The position of slot `u` in a table that starts at `base`. -/
def slotPos (width : SlotWidth) (base u : Nat) : UInt64 := .ofNat (base + u * width.bytes)

section

variable {buffer : ByteArray} {width : SlotWidth} {base slots : Nat}

/-- The slots of a table end where the table ends. -/
theorem slot_end_le (htable : base + slots * width.bytes ≤ buffer.size) {u : Nat} (hu : u < slots) :
    base + u * width.bytes + width.bytes ≤ buffer.size := by
  have hle : (u + 1) * width.bytes ≤ slots * width.bytes := Nat.mul_le_mul_right _ hu
  rw [Nat.succ_mul] at hle
  omega

/-- A position in a table does not wrap. -/
theorem toNat_slotPos (haddr : Addressable buffer)
    (htable : base + slots * width.bytes ≤ buffer.size) {u : Nat} (hu : u < slots) :
    (slotPos width base u).toNat = base + u * width.bytes := by
  have hend := slot_end_le htable hu
  simp only [Addressable] at haddr
  exact UInt64.toNat_ofNat_of_lt' (show base + u * width.bytes < 2 ^ 64 by omega)

/-- Two slots of a table do not overlap. -/
theorem slots_apart {u v : Nat} (hne : v ≠ u) :
    base + v * width.bytes + width.bytes ≤ base + u * width.bytes ∨
      base + u * width.bytes + width.bytes ≤ base + v * width.bytes := by
  cases width <;> simp only [SlotWidth.bytes] <;> omega

end

/-- What writing and reading do to the slots of a table in a buffer. -/
structure TableCodec (buffer : ByteArray) (width : SlotWidth) (base slots : Nat) : Prop where
  /-- A slot that was written is read again, and the others are read as before. -/
  written : ∀ u < slots, ∀ s, ∃ buffer',
    putSlot buffer (slotPos width base u) width s = .ok buffer' ∧
      Put buffer width (slotPos width base u) s buffer' ∧
      ∀ v < slots, v ≠ u → readSlot buffer' (slotPos width base v) width =
        readSlot buffer (slotPos width base v) width
  /-- A slot that was read is written back as it stood, and is vacant just when its bytes say so. -/
  restored : ∀ u < slots, ∃ s, readSlot buffer (slotPos width base u) width = .ok (.ok s) ∧
    putSlot buffer (slotPos width base u) width s = .ok buffer ∧
    hasZeroOffset width (buffer.extract (base + u * width.bytes)
      (base + u * width.bytes + width.bytes)) = .ok s.isVacant

section

variable {buffer : ByteArray} (haddr : Addressable buffer)

include haddr

theorem tableCodec {width : SlotWidth} {base slots : Nat}
    (htable : base + slots * width.bytes ≤ buffer.size) : TableCodec buffer width base slots := by
  have hpos {u : Nat} (hu : u < slots) := toNat_slotPos haddr htable hu
  have hin {u : Nat} (hu : u < slots) :
      (slotPos width base u).toNat + width.bytes ≤ buffer.size := by
    rw [hpos hu]
    exact slot_end_le htable hu
  refine ⟨fun u hu s => ?written, fun u hu => ?restored⟩
  case written =>
    have hput := put_slot haddr (hin hu) s
    refine ⟨_, putSlot_eq haddr (hin hu) s, hput, fun v hv hne => hput.readSlot_eq haddr ?_⟩
    rw [hpos hu, hpos hv]
    exact slots_apart hne
  case restored =>
    have hback := exists_read_back haddr (hin hu)
    rwa [hpos hu] at hback

/-- A slot is read just when it ends inside; nothing else is wrong with any slot. -/
theorem exists_readSlot_iff (pos : UInt64) (width : SlotWidth) :
    ((∃ s, readSlot buffer pos width = .ok (.ok s)) ↔ pos.toNat + width.bytes ≤ buffer.size) ∧
      (readSlot buffer pos width = .ok (.error (.format pos.toNat .slotOutside)) ↔
        buffer.size < pos.toNat + width.bytes) := by
  rw [readSlot_eq haddr, Slot.read]
  by_cases hin : pos.toNat + width.bytes ≤ buffer.size
  · rw [if_pos hin]
    refine ⟨⟨fun _ => hin, fun _ => ⟨_, rfl⟩⟩, fun h => ?_, fun hout => ?_⟩
    · cases h
    · omega
  · rw [if_neg hin]
    refine ⟨⟨fun h => ?_, fun h => absurd h hin⟩, fun _ => Nat.lt_of_not_le hin, fun _ => rfl⟩
    obtain ⟨s, h⟩ := h
    cases h

/-- A descriptor that was written into a header is read again, and the others are read as
before. -/
theorem put_bucket (hheader : Layout.headerSize ≤ buffer.size) {index : Nat}
    (hindex : index < Layout.bucketCount) (b : Bucket) :
    ∃ buffer', putBucket buffer (.ofNat index) b = .ok buffer' ∧
      readBucket buffer' (.ofNat index) = .ok b ∧
      ∀ other < Layout.bucketCount, other ≠ index →
        readBucket buffer' (.ofNat other) = readBucket buffer (.ofNat other) := by
  have hroom : index * Layout.descriptorSize + b.encode.size ≤ buffer.size := by
    rw [Bucket.size_encode]
    simp only [Layout.headerSize, Layout.bucketCount, Layout.descriptorSize] at *
    omega
  have hsize := ByteArray.size_overwrite hroom
  have hheader' : Layout.headerSize ≤ (Bucket.write buffer index b).size := by
    rw [Bucket.write, hsize]
    exact hheader
  have hat : (Bucket.write buffer index b).HasAt (index * Layout.descriptorSize) b.encode :=
    .of_overwrite hroom
  refine ⟨Bucket.write buffer index b, putBucket_eq haddr ?_ b, ?read, fun other hother hne => ?_⟩
  · rw [Bucket.size_encode] at hroom
    exact hroom
  case read => rw [readBucket_eq hheader' hindex, Bucket.read_of_hasAt hat]
  -- Another descriptor has none of its bytes where this one was written.
  rw [readBucket_eq hheader' hother, readBucket_eq hheader hother, Bucket.read_congr]
  intro i hi
  apply ByteArray.byteAt_overwrite hroom
  rw [Bucket.size_encode]
  simp only [Layout.descriptorSize] at hi ⊢
  omega

/-- What is written into a buffer is read again where it was written, and nothing else changes:
the slots of a table wherever it lies in the buffer, and the descriptors of a header.  A slot is
refused just when it does not end inside, wherever a reader looks for it. -/
theorem slots_and_descriptors_read_back :
    (∀ width base slots, base + slots * width.bytes ≤ buffer.size →
      TableCodec buffer width base slots) ∧
    (∀ pos width,
      ((∃ s, readSlot buffer pos width = .ok (.ok s)) ↔ pos.toNat + width.bytes ≤ buffer.size) ∧
      (readSlot buffer pos width = .ok (.error (.format pos.toNat .slotOutside)) ↔
        buffer.size < pos.toNat + width.bytes)) ∧
    (Layout.headerSize ≤ buffer.size → ∀ index < Layout.bucketCount, ∀ b,
      ∃ buffer', putBucket buffer (.ofNat index) b = .ok buffer' ∧
        readBucket buffer' (.ofNat index) = .ok b ∧
        ∀ other < Layout.bucketCount, other ≠ index →
          readBucket buffer' (.ofNat other) = readBucket buffer (.ofNat other)) :=
  ⟨fun _ _ _ htable => tableCodec haddr htable, exists_readSlot_iff haddr,
    fun hheader _ hindex b => put_bucket haddr hheader hindex b⟩

end

/-- A table of two wide slots at the front of a header of zeros, and a position at the end of the
address range. -/
theorem slots_and_descriptors_read_back_zeros :
    Addressable (ByteArray.replicate 4096 0) ∧
      TableCodec (ByteArray.replicate 4096 0) .wide 0 2 ∧
      readSlot (ByteArray.replicate 4096 0) (.ofNat (2 ^ 64 - 8)) .wide =
        .ok (.error (.format (2 ^ 64 - 8) .slotOutside)) := by
  have haddr : Addressable (ByteArray.replicate 4096 0) := by
    rw [Addressable, ByteArray.size_replicate]
    decide
  obtain ⟨htables, hslots, -⟩ := slots_and_descriptors_read_back haddr
  refine ⟨haddr, htables .wide 0 2 ?_, ?_⟩
  · rw [ByteArray.size_replicate]
    decide
  · have hpos : (UInt64.ofNat (2 ^ 64 - 8)).toNat = 2 ^ 64 - 8 := rfl
    have hrefused := (hslots (.ofNat (2 ^ 64 - 8)) .wide).2.2
    rw [hpos, ByteArray.size_replicate] at hrefused
    exact hrefused (by decide)

end ConstDb.Machine
