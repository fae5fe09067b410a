import ConstDb.Proofs.Draft.Scan

/-! # Files without slots

A scan never looks at the slot tables, and the header of a file may say that no bucket has any
slots.  So records can stand in a file without being in its index.  A builder never makes such a
file.  The only limit to the number of its records is that positions fit into 64 bits, so a scan may
meet more of them than any database that was built can have (`Crowded`).

## Key results

- `Assembly.readable_unindexed`: a file without slots is accepted
- `Crowded.records_image`: any number of empty records
-/

namespace ConstDb

/-- The parts of a file that has the given record region and no slots. -/
def Assembly.unindexed (region : ByteArray) : Assembly where
  width := .forRecordEnd (Layout.headerSize + region.size)
  region := region
  tables := List.replicate 256 #[]

namespace Assembly

variable {region : ByteArray}

theorem length_tables_unindexed (region : ByteArray) : (unindexed region).tables.length = 256 :=
  List.length_replicate

theorem recordEnd_unindexed (region : ByteArray) :
    (unindexed region).recordEnd = Layout.headerSize + region.size := rfl

theorem tablesSize_unindexed (width : SlotWidth) (region : ByteArray) :
    Draft.tablesSize width (unindexed region).tables = 0 := by
  rw [Draft.tablesSize, unindexed, List.map_replicate, List.sum_replicate_nat, Array.size_empty,
    Nat.zero_mul, Nat.mul_zero]

/-- The file ends with its record region. -/
theorem size_bytes_unindexed (region : ByteArray) :
    (unindexed region).bytes.size = Layout.headerSize + region.size := by
  rw [size_bytes (length_tables_unindexed region), tablesSize_unindexed, recordEnd_unindexed,
    Nat.add_zero]

/-- A file without slots is accepted if its size is a multiple of the alignment. -/
theorem readable_unindexed (hmod : (Layout.headerSize + region.size) % Layout.alignment = 0)
    (hend : Layout.headerSize + region.size < 2 ^ 64) : (unindexed region).Readable where
  length_eq := length_tables_unindexed region
  end_lt := by
    rw [tablesSize_unindexed, recordEnd_unindexed]
    exact hend
  slots_lt t ht := by
    rw [List.eq_of_mem_replicate ht]
    decide
  detect_eq := by
    have hstart := start_zero (length_tables_unindexed region) hend
    have hword : ((unindexed region).bytes.word64 0).toNat = Layout.headerSize + region.size := by
      rw [← recordEnd_unindexed, ← hstart]
      simp [Header.readBuckets, Bucket.read]
    have hle := size_bytes_unindexed region
    exact SlotWidth.detect_eq_forRecordEnd hmod (Nat.le_of_eq hle.symm) hword

end Assembly

/-! ### Empty records

A record with an empty key and an empty value is stored as eight bytes of zero. -/

namespace Crowded

/-- The record. -/
def record : Record := ⟨.empty, .empty⟩

/-- The parts of a file in which it stands `n` times. -/
def assembly (n : Nat) : Assembly := .unindexed (ByteArray.replicate (n * 8) 0)

theorem encode_record : record.encode = ByteArray.replicate 8 0 := by decide

theorem fits_replicate (n : Nat) : ∀ r ∈ List.replicate n record, Draft.Fits r := by
  intro r hr
  rw [List.eq_of_mem_replicate hr]
  exact ⟨by decide, by decide⟩

variable {n : Nat} {image : Image}

/-- The file is accepted if there are two records for each alignment unit. -/
theorem readable (heven : n % 2 = 0) (hn : n < 2 ^ 60) : (assembly n).Readable := by
  apply Assembly.readable_unindexed
  · simp only [ByteArray.size_replicate, Layout.headerSize, Layout.alignment]
    omega
  · simp only [ByteArray.size_replicate, Layout.headerSize]
    omega

/-- A scan meets the record `n` times. -/
theorem records_image (heven : n % 2 = 0) (hn : n < 2 ^ 60)
    (hbytes : image.bytes = (assembly n).bytes) :
    image.records = ⟨List.replicate n record, none⟩ := by
  have hjoin : ByteArray.join ((List.replicate n record).map Record.encode) =
      ByteArray.replicate (n * 8) 0 := by
    rw [List.map_replicate, encode_record, ByteArray.join_replicate]
  have hsize : Placed.size (List.replicate n record) = n * 8 := by
    rw [Placed.size, List.map_replicate, List.sum_replicate_nat, encode_record,
      ByteArray.size_replicate]
  have hend : image.recordEnd = Layout.headerSize + n * 8 := by
    rw [(readable heven hn).recordEnd_eq hbytes, assembly, Assembly.recordEnd_unindexed,
      ByteArray.size_replicate]
  have hregion : image.bytes.HasAt Layout.headerSize
      (ByteArray.join ((List.replicate n record).map Record.encode)) := by
    rw [hbytes, hjoin]
    exact Assembly.hasAt_region (readable heven hn).length_eq
  -- Nothing is left for padding.
  have hpadding : image.bytes.HasAt (Layout.headerSize + Placed.size (List.replicate n record))
      (ByteArray.replicate 0 Layout.paddingByte) := by
    refine .empty ?_
    rw [hsize, ← hend]
    exact image.recordEnd_le_size
  refine Draft.records_of_hasAt (fits_replicate n) hregion hpadding (by decide) ?_
  rw [hsize, hend, Nat.add_zero]

end Crowded

end ConstDb
