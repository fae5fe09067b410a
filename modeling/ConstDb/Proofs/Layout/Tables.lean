import ConstDb.Image.Basic
import Mathlib.Algebra.Ring.Nat

/-! # Accepted headers

A header is accepted just when its slot tables follow each other without gap (`Contiguous`) from a
record end behind the header to the end of the file.  All that is read through the header of an
image therefore lies inside the file.

## Key results

- `Header.parse_eq_ok_iff`: which byte strings are accepted
- `Image.slot_le_size`: every slot of every table of an image lies behind the record region and
  inside the file
-/

namespace ConstDb

/-- Slot tables that follow each other without gap, from `pos` to `last`. -/
inductive Contiguous (width : SlotWidth) : (pos : Nat) → List Bucket → (last : Nat) → Prop
  | nil (pos : Nat) : Contiguous width pos [] pos
  | cons {pos last : Nat} {b : Bucket} {rest : List Bucket} (hstart : b.start.toNat = pos)
      (hrest : Contiguous width (b.tableEnd width) rest last) :
      Contiguous width pos (b :: rest) last

namespace Contiguous

variable {width : SlotWidth} {pos last : Nat} {bs : List Bucket}

/-- Tables do not end before they start. -/
theorem le (h : Contiguous width pos bs last) : pos ≤ last := by
  induction h with
  | nil => exact Nat.le_refl _
  | cons hstart _ ih =>
    simp only [Bucket.tableEnd] at ih
    omega

/-- Every table lies between the start of the first and the end of the last. -/
theorem between (h : Contiguous width pos bs last) {b : Bucket} (hb : b ∈ bs) :
    pos ≤ b.start.toNat ∧ b.tableEnd width ≤ last := by
  induction h with
  | nil => simp at hb
  | @cons pos last c rest hstart hrest ih =>
    have hle := hrest.le
    rcases List.mem_cons.1 hb with rfl | hb
    · exact ⟨by omega, hle⟩
    · have hcend : c.start.toNat ≤ c.tableEnd width := Nat.le_add_right ..
      obtain ⟨h₁, h₂⟩ := ih hb
      exact ⟨by omega, h₂⟩

end Contiguous

namespace Header

/-- The slots of all tables are counted one table after the other. -/
theorem slotTotal_eq_sum (h : Header) :
    h.slotTotal = (h.buckets.toList.map fun b => b.slots.toNat).sum := by
  rw [slotTotal, List.sum_eq_foldl_nat, List.foldl_map]

/-- The walk through the tables comes to the end just when they follow each other inside the
file. -/
theorem followTables_eq_ok {width : SlotWidth} {fileSize pos last : Nat} (hpos : pos ≤ fileSize)
    (index : Nat) (bs : List Bucket) :
    followTables width fileSize index pos bs = .ok last ↔
      Contiguous width pos bs last ∧ last ≤ fileSize := by
  -- A table past the end cannot be followed by others that end inside, because tables only go up.
  induction bs generalizing index pos with
  | nil =>
    rw [followTables, Except.ok.injEq]
    constructor
    · rintro rfl
      exact ⟨.nil _, hpos⟩
    · rintro ⟨h, -⟩
      cases h
      rfl
  | cons b rest ih =>
    rw [followTables]
    by_cases hstart : b.start.toNat = pos
    · rw [if_neg (by simpa using hstart)]
      by_cases hend : fileSize < b.tableEnd width
      · rw [if_pos hend]
        simp only [reduceCtorEq, false_iff, not_and]
        rintro (_ | ⟨-, hrest⟩)
        have := hrest.le
        omega
      · rw [if_neg hend, ih (by omega)]
        constructor
        · rintro ⟨h, hle⟩
          exact ⟨.cons hstart h, hle⟩
        · rintro ⟨_ | ⟨-, hrest⟩, hle⟩
          exact ⟨hrest, hle⟩
    · rw [if_pos hstart]
      simp only [reduceCtorEq, false_iff, not_and]
      rintro (_ | ⟨h, -⟩)
      exact absurd h hstart

/-- Descriptors are accepted just when the record region lies behind the header and the slot tables
follow each other from there to the end. -/
theorem accept_eq_ok_iff {fileSize : Nat} {width : SlotWidth} {buckets : Vector Bucket 256}
    {h : Header} :
    accept fileSize width buckets = .ok h ↔
      h = ⟨width, buckets⟩ ∧ Layout.headerSize ≤ h.recordEnd ∧
        Contiguous h.width h.recordEnd h.buckets.toList fileSize := by
  unfold accept
  simp only
  by_cases hend : buckets[0].start.toNat < Layout.headerSize ∨ fileSize < buckets[0].start.toNat
  · rw [if_pos hend]
    simp only [reduceCtorEq, false_iff, not_and]
    rintro rfl hle hcont
    have hlast := hcont.le
    simp only [recordEnd] at hle hlast
    omega
  -- With the start in range, what remains is the walk and the comparison of its end with the file.
  rw [if_neg hend]
  obtain ⟨hlow, hhigh⟩ : Layout.headerSize ≤ buckets[0].start.toNat ∧
      buckets[0].start.toNat ≤ fileSize := by omega
  split
  · rename_i e he
    simp only [reduceCtorEq, false_iff, not_and]
    rintro rfl - hcont
    have hok := (followTables_eq_ok hhigh 0 _).2 ⟨hcont, Nat.le_refl _⟩
    cases he.symm.trans hok
  · rename_i tablesEnd hfollow
    obtain ⟨hcont, -⟩ := (followTables_eq_ok hhigh 0 _).1 hfollow
    by_cases hlast : tablesEnd = fileSize
    · subst hlast
      rw [if_neg (by simp), Except.ok.injEq]
      constructor
      · rintro rfl
        exact ⟨rfl, hlow, hcont⟩
      · rintro ⟨rfl, -⟩
        rfl
    · rw [if_pos hlast]
      simp only [reduceCtorEq, false_iff, not_and]
      rintro rfl - hcont'
      have hok := (followTables_eq_ok hhigh 0 _).2 ⟨hcont', Nat.le_refl _⟩
      exact hlast (Except.ok.inj (hfollow.symm.trans hok))

/-- A byte string is accepted just when it has room for the header, and its descriptors are
accepted. -/
theorem parse_eq_ok_iff {data : ByteArray} {h : Header} :
    parse data = .ok h ↔
      Layout.headerSize ≤ data.size ∧ h = ⟨.detect data.size data, readBuckets data⟩ ∧
        Layout.headerSize ≤ h.recordEnd ∧
        Contiguous h.width h.recordEnd h.buckets.toList data.size := by
  unfold parse
  by_cases hsize : data.size < Layout.headerSize
  · rw [if_pos hsize]
    simp only [reduceCtorEq, false_iff, not_and]
    omega
  · rw [if_neg hsize, accept_eq_ok_iff]
    simp only [Nat.le_of_not_lt hsize, true_and]

end Header

namespace Image

/-- What the header of an image has been checked for. -/
theorem header_spec (image : Image) :
    Layout.headerSize ≤ image.recordEnd ∧
      Contiguous image.width image.recordEnd image.header.buckets.toList image.bytes.size :=
  (Header.parse_eq_ok_iff.1 image.parse_eq).2.2

/-- The record region of an image lies behind the header. -/
theorem headerSize_le_recordEnd (image : Image) : Layout.headerSize ≤ image.recordEnd :=
  image.header_spec.1

/-- The record region of an image lies inside the file. -/
theorem recordEnd_le_size (image : Image) : image.recordEnd ≤ image.bytes.size :=
  image.header_spec.2.le

/-- Every slot of every table of an image lies behind the record region and inside the file. -/
theorem slot_le_size (image : Image) (i : Fin 256) {slot : Nat}
    (hslot : slot < (image.header.bucket i).slots.toNat) :
    image.recordEnd ≤ (image.header.bucket i).start.toNat ∧
      (image.header.bucket i).start.toNat + slot * image.width.bytes + image.width.bytes ≤
        image.bytes.size := by
  have hmem : image.header.bucket i ∈ image.header.buckets.toList := by
    rw [Vector.mem_toList_iff]
    exact Vector.getElem_mem _
  obtain ⟨hstart, hend⟩ := image.header_spec.2.between hmem
  refine ⟨hstart, ?_⟩
  have hmul : (slot + 1) * image.width.bytes ≤
      (image.header.bucket i).slots.toNat * image.width.bytes :=
    Nat.mul_le_mul_right _ hslot
  rw [Nat.add_mul, Nat.one_mul] at hmul
  simp only [Bucket.tableEnd] at hend
  omega

end Image

end ConstDb
