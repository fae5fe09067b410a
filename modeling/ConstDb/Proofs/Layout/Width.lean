import ConstDb.Proofs.Machine.Fill
import Mathlib.Order.Bounds.Defs

/-! # The width of the slots

A writer looks at the end of the padded record region, a reader at the size of the file and at the
upper half of the first stored word.  Between `2 ^ 32 - 1` and `2 ^ 32` the two tests have different
answers, but no multiple of 16 lies there, and padding moves the end of a record region to one.

## Key results

- `Layout.isLeast_add_paddingFor`: padding goes to the next multiple of the alignment
- `Machine.paddedEnd_eq`: the machine computes it without a trap
- `SlotWidth.lt_of_narrow`: what narrow slots have to address
- `SlotWidth.readers_find_width`: readers and writers use one width, and it addresses all records
-/

namespace ConstDb

/-- Padding goes to the next multiple of the alignment, and not further. -/
theorem Layout.isLeast_add_paddingFor (pos : Nat) :
    IsLeast {n | pos ≤ n ∧ alignment ∣ n} (pos + paddingFor pos) := by
  have hmod := add_paddingFor_mod pos
  have hlt := paddingFor_lt pos
  refine ⟨⟨Nat.le_add_right .., Nat.dvd_of_mod_eq_zero hmod⟩, ?_⟩
  rintro n ⟨hle, hdvd⟩
  -- Two multiples of the alignment are not less than it apart.
  have hn := Nat.mod_eq_zero_of_dvd hdvd
  simp only [alignment] at hmod hlt hn
  omega

namespace Machine

/-- The machine computes the padding of a position. -/
theorem paddingFor_eq {pos : Nat} (hpos : pos < 2 ^ 64) :
    paddingFor (.ofNat pos) = .ok (.ofNat (Layout.paddingFor pos)) := by
  have halignment : (UInt64.ofNat Layout.alignment).toNat = Layout.alignment := rfl
  have hne : Layout.alignment ≠ 0 := by decide
  have hpast := Nat.mod_lt pos (Nat.pos_of_ne_zero hne)
  have hsmall : Layout.alignment < 2 ^ 64 := by decide
  rw [paddingFor, rem64_eq_ok (UInt64.toNat_ofNat_of_lt' hpos) halignment hne, ok_bind,
    sub64_eq_ok halignment
      (UInt64.toNat_ofNat_of_lt' (show pos % Layout.alignment < 2 ^ 64 by omega))
      (Nat.le_of_lt hpast), ok_bind,
    rem64_eq_ok (UInt64.toNat_ofNat_of_lt'
      (show Layout.alignment - pos % Layout.alignment < 2 ^ 64 by omega)) halignment hne,
    Layout.paddingFor]

/-- And where the padding ends. -/
theorem paddedEnd_eq {pos : Nat} (hpos : pos < 2 ^ 63) :
    paddedEnd (.ofNat pos) = .ok (.ofNat (pos + Layout.paddingFor pos)) := by
  have hlt := Layout.paddingFor_lt pos
  simp only [Layout.alignment] at hlt
  rw [paddedEnd, paddingFor_eq (by omega), ok_bind,
    add64_eq_ok (UInt64.toNat_ofNat_of_lt' (show pos < 2 ^ 64 by omega))
      (UInt64.toNat_ofNat_of_lt' (show Layout.paddingFor pos < 2 ^ 64 by omega)) (by omega)]

end Machine

/-- A narrow slot, written over any bytes, is read again with its hash and its offset, and it is not
taken for a vacant one. -/
theorem Slot.read_write_narrow {buffer : ByteArray} {start : Nat} {s : Slot}
    (hroom : start + SlotWidth.narrow.bytes ≤ buffer.size) (hfits : s.offset.toNat < 2 ^ 32)
    (hne : s.offset ≠ 0) :
    read (write buffer start .narrow s) start .narrow = .ok ⟨s.hash, none, s.offset⟩ ∧
      vacantAt (write buffer start .narrow s) start .narrow = false ∧
      isVacant ⟨s.hash, none, s.offset⟩ = false := by
  have hat : (write buffer start .narrow s).HasAt start (s.encode .narrow) :=
    .of_overwrite (by rw [size_encode]; exact hroom)
  have hkept : s.kept .narrow = ⟨s.hash, none, s.offset⟩ := by
    have hoffset : (s.kept .narrow).offset = s.offset := offset_kept fun _ => hfits
    rw [← hoffset]
    rfl
  have hvacant : s.isVacant = false := decide_eq_false hne
  exact ⟨hkept ▸ read_of_hasAt hat, (vacantAt_of_hasAt (fun _ => hfits) hat).trans hvacant, hvacant⟩

namespace SlotWidth

/-- Where narrow slots are used, they can address all records. -/
theorem lt_of_narrow {recordEnd : Nat} (h : forRecordEnd recordEnd = .narrow) :
    recordEnd < 2 ^ 32 := by
  have hlimit : narrowLimit < 2 ^ 32 := by decide
  unfold forRecordEnd at h
  split at h
  · omega
  · cases h

/-- Readers and writers use one width.  A record region is padded to the next multiple of 16, which
the machine computes without a trap.  In a file that starts with that position, however long it is,
a reader finds the width that the writer chose.  Where it is the narrow one, no offset of a record
loses anything in a slot, and none is taken for that of a vacant slot. -/
theorem readers_find_width {pos : Nat} (hpos : pos < 2 ^ 63) :
    let recordEnd := pos + Layout.paddingFor pos
    Machine.paddedEnd (.ofNat pos) = .ok (.ofNat recordEnd) ∧
    IsLeast {n | pos ≤ n ∧ Layout.alignment ∣ n} recordEnd ∧
    (∀ fileSize header, recordEnd ≤ fileSize →
      header.HasAt 0 (UInt64.ofNat recordEnd).bigEndian →
      detect fileSize header = forRecordEnd recordEnd) ∧
    (forRecordEnd recordEnd = .narrow → ∀ s : Slot, Layout.headerSize ≤ s.offset.toNat →
      s.offset.toNat < recordEnd → ∀ buffer start, start + narrow.bytes ≤ buffer.size →
        Slot.read (Slot.write buffer start .narrow s) start .narrow =
          .ok ⟨s.hash, none, s.offset⟩ ∧
        Slot.vacantAt (Slot.write buffer start .narrow s) start .narrow = false ∧
        Slot.isVacant ⟨s.hash, none, s.offset⟩ = false) := by
  intro recordEnd
  -- The padded end is a multiple of 16, which leaves no position between the limits of the two
  -- widths.
  have hmod : recordEnd % Layout.alignment = 0 := Layout.add_paddingFor_mod pos
  have hend : recordEnd < 2 ^ 64 := by
    have hlt := Layout.paddingFor_lt pos
    simp only [recordEnd, Layout.alignment] at hlt ⊢
    omega
  refine ⟨Machine.paddedEnd_eq hpos, Layout.isLeast_add_paddingFor pos, ?width, ?slots⟩
  case width =>
    intro fileSize header hle hheader
    have hword : (header.word64 0).toNat = recordEnd := by
      rw [hheader.word64 (by simp), ByteArray.word64_bigEndian]
      exact UInt64.toNat_ofNat_of_lt' hend
    exact detect_eq_forRecordEnd hmod hle hword
  case slots =>
    intro hnarrow s hlow hhigh buffer start hroom
    have hlimit := lt_of_narrow hnarrow
    have hne : s.offset ≠ 0 := by
      intro hzero
      rw [hzero] at hlow
      exact absurd hlow (by decide)
    exact Slot.read_write_narrow hroom (by omega) hne

/-- Fifteen bytes below `2 ^ 32` the padding reaches it, and the slots are wide.  Thirty-one bytes
below, it ends before, and a narrow slot holds the greatest offset of a record. -/
theorem readers_find_width_around :
    detect 0x100000000 (UInt64.bigEndian 0x100000000) = .wide ∧
    detect 0xffffffff (UInt64.bigEndian 0xfffffff0) = .narrow ∧
    Slot.read (Slot.write (ByteArray.replicate 8 0) 0 .narrow ⟨5381, none, 0xffffffef⟩) 0 .narrow =
      .ok ⟨5381, none, 0xffffffef⟩ := by
  obtain ⟨-, -, hwide, -⟩ := readers_find_width (show 0xfffffff1 < 2 ^ 63 by decide)
  obtain ⟨-, -, hnarrow, hslots⟩ := readers_find_width (show 0xffffffe1 < 2 ^ 63 by decide)
  exact ⟨hwide _ _ (by decide) (.refl _), hnarrow _ _ (by decide) (.refl _),
    (hslots (by decide) ⟨5381, none, 0xffffffef⟩ (by decide) (by decide) _ 0 (by decide)).1⟩

end SlotWidth

end ConstDb
