import ConstDb.Proofs.Draft.Assembly
import Mathlib.Algebra.BigOperators.Fin

/-! # The file of a draft

The file of a draft is put together from its records, the padding behind them, and the tables of its
entries.  It is accepted when it is read again, and its header tells what the draft holds: the width
of the slots, the end of the record region and, for each bucket, twice as many slots as it has
entries.

All of this needs that positions fit into 64 bits and numbers of slots into 32 (`Addressable`).

## Key results

- `Draft.Addressable.parse_image`: the file of a draft is accepted
- `Draft.Addressable.slotAt_image`: the slots in the file are those of the tables
- `Draft.sum_size_tables`: all tables together have two slots for each record
-/

namespace ConstDb

namespace Draft

/-! ### The tables of a draft -/

variable {d : Draft}

@[simp] theorem length_tables (d : Draft) : d.tables.length = 256 := by simp [tables]

@[simp] theorem getElem_tables (d : Draft) (i : Fin 256) (h : i.val < d.tables.length) :
    d.tables[i.val] = SlotTable.ofEntries (d.entriesOf i) := by
  simp [tables]

/-- Every entry belongs to one bucket. -/
theorem sum_length_entriesOf (d : Draft) :
    ((List.finRange 256).map fun i => (d.entriesOf i).length).sum = d.size := by
  have hcount (i : Fin 256) : (d.entriesOf i).length =
      (Multiset.ofList (d.entries.toList.map IndexEntry.bucket)).count i := by
    rw [Multiset.coe_count, List.count_eq_countP, List.countP_map, entriesOf_eq_filter,
      List.countP_eq_length_filter]
    congr 2
  rw [← Fin.sum_univ_def]
  simp only [hcount]
  rw [Multiset.sum_count_eq_card fun _ _ => Finset.mem_univ _]
  simp [size]

/-- All tables together have two slots for each record. -/
theorem sum_size_tables (d : Draft) : (d.tables.map Array.size).sum = 2 * d.size := by
  rw [tables, List.map_map, ← d.sum_length_entriesOf, ← List.sum_map_mul_left]
  congr 2
  funext i
  exact SlotTable.size_ofEntries _

theorem tablesSize_eq (d : Draft) (width : SlotWidth) :
    tablesSize width d.tables = 2 * d.size * width.bytes := by
  rw [tablesSize, List.sum_map_mul_right, d.sum_size_tables]

/-- Positions in the file fit into 64 bits, and numbers of slots into 32. -/
structure Addressable (d : Draft) : Prop where
  end_lt : d.recordEnd + tablesSize d.width d.tables < 2 ^ 64
  slots_lt : ∀ t ∈ d.tables, t.size < 2 ^ 32

/-! ### Where the parts of the file are -/

/-- The parts of a draft's file. -/
def assembly (d : Draft) : Assembly where
  width := d.width
  region := d.body ++ ByteArray.replicate (Layout.paddingFor d.position) Layout.paddingByte
  tables := d.tables

theorem recordEnd_assembly (d : Draft) : d.assembly.recordEnd = d.recordEnd := by
  rw [Assembly.recordEnd, assembly, ByteArray.size_append, ByteArray.size_replicate,
    ← Nat.add_assoc]
  rfl

/-- The file of a draft is put together from its parts. -/
theorem image_eq_bytes (d : Draft) : d.image = d.assembly.bytes := by
  rw [image_eq, ByteArray.foldl_append_eq, ByteArray.empty_append, Assembly.bytes,
    Assembly.buckets, recordEnd_assembly]
  simp only [assembly, buckets, ByteArray.append_assoc]

/-- The file ends behind the tables. -/
theorem size_image (d : Draft) : d.image.size = d.recordEnd + tablesSize d.width d.tables := by
  rw [image_eq_bytes, Assembly.size_bytes d.length_tables, recordEnd_assembly]
  rfl

/-- The record region holds the records, and the padding behind them. -/
theorem image_hasAt_region (d : Draft) :
    d.image.HasAt Layout.headerSize d.body ∧
      d.image.HasAt d.position
        (ByteArray.replicate (Layout.paddingFor d.position) Layout.paddingByte) := by
  have hregion := Assembly.hasAt_region (a := d.assembly) d.length_tables
  rw [← image_eq_bytes] at hregion
  exact hregion.append

/-- The record region behind its padding ends at a multiple of 16. -/
theorem recordEnd_mod (d : Draft) : d.recordEnd % Layout.alignment = 0 :=
  Layout.add_paddingFor_mod d.position

namespace Addressable

/-- A reader finds out the width that the writer used. -/
private theorem detect_image (h : d.Addressable) :
    SlotWidth.detect d.image.size d.image = d.width := by
  have hend := h.end_lt
  have hstart := Assembly.start_zero (a := d.assembly) d.length_tables
    (by rw [recordEnd_assembly]; omega)
  rw [← image_eq_bytes, recordEnd_assembly] at hstart
  have hword : (d.image.word64 0).toNat = d.recordEnd := by
    rw [← hstart]
    simp [Header.readBuckets, Bucket.read]
  have hle : d.recordEnd ≤ d.image.size := by
    rw [size_image]
    exact Nat.le_add_right ..
  exact SlotWidth.detect_eq_forRecordEnd d.recordEnd_mod hle hword

/-- The file of a draft can be read again. -/
theorem readable (h : d.Addressable) : d.assembly.Readable where
  length_eq := d.length_tables
  end_lt := by
    rw [recordEnd_assembly]
    exact h.end_lt
  slots_lt := h.slots_lt
  detect_eq := by
    rw [← image_eq_bytes]
    exact h.detect_image

/-- The file of a draft is accepted. -/
theorem parse_image (h : d.Addressable) :
    Header.parse d.image = .ok ⟨d.width, Header.readBuckets d.image⟩ := by
  rw [image_eq_bytes]
  exact h.readable.parse_bytes

variable {image : Image}

/-- The header of a draft's file is what it was when the file was written. -/
theorem header_eq (h : d.Addressable) (hbytes : image.bytes = d.image) :
    image.header = ⟨d.width, Header.readBuckets d.image⟩ := by
  rw [image_eq_bytes] at hbytes ⊢
  exact h.readable.header_eq hbytes

theorem width_eq (h : d.Addressable) (hbytes : image.bytes = d.image) : image.width = d.width :=
  h.readable.width_eq (hbytes.trans d.image_eq_bytes)

theorem recordEnd_eq (h : d.Addressable) (hbytes : image.bytes = d.image) :
    image.recordEnd = d.recordEnd := by
  rw [h.readable.recordEnd_eq (hbytes.trans d.image_eq_bytes), recordEnd_assembly]

/-- The table of a bucket in the file. -/
private theorem get_tables (d : Draft) (i : Fin 256) :
    d.assembly.tables.get (i.cast d.length_tables.symm) = SlotTable.ofEntries (d.entriesOf i) :=
  d.getElem_tables i (by rw [length_tables]; exact i.isLt)

/-- A bucket has two slots for each of its entries. -/
theorem slots_eq (h : d.Addressable) (hbytes : image.bytes = d.image) (i : Fin 256) :
    (image.header.bucket i).slots.toNat = (SlotTable.ofEntries (d.entriesOf i)).size := by
  rw [h.readable.slots_eq (hbytes.trans d.image_eq_bytes), get_tables]

/-- The slots in the file are those of the tables, as far as their width keeps them. -/
theorem slotAt_image (h : d.Addressable) (hbytes : image.bytes = d.image) (i : Fin 256) {j : Nat}
    (hj : j < (SlotTable.ofEntries (d.entriesOf i)).size) :
    image.slotAt (image.header.bucket i) j =
      (SlotTable.ofEntries (d.entriesOf i))[j].kept d.width := by
  have htable := get_tables d i
  rw [h.readable.slotAt_bytes (hbytes.trans d.image_eq_bytes) i (by rw [htable]; exact hj)]
  simp only [htable]
  rfl

end Addressable

end Draft

end ConstDb
