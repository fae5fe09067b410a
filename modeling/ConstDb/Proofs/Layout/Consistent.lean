import ConstDb.Proofs.Draft.Index
import ConstDb.Proofs.Machine.Format
import Mathlib.Algebra.BigOperators.Fin

/-! # Consistent headers

Which headers are accepted is said here about the numbers in the descriptors alone, without a limit
to their size: the first table starts behind the header and inside the file, each further table
starts where the one in front of it ends, and the last one ends with the file
(`Header.Consistent`).  The tables of such a header divide the file behind the record region among
them.  Of any other header the first table that does not fit is named.

## Key results

- `Contiguous.iff_frontier`: contiguous tables, table by table
- `Contiguous.existsUnique_covers`: every position behind the record region is in one table
- `Header.followTables_eq_error`: the first table that does not fit
- `Header.parse_consistency`: which byte strings are accepted, what an accepted header tells, and
  what is said about the others
-/

namespace ConstDb

/-! ### Tables one behind the other -/

/-- Where tables have to start if each starts at the end of the one in front of it; behind the last
one, this is where it ends. -/
def frontier (width : SlotWidth) : (pos : Nat) → List Bucket → Nat → Nat
  | pos, _, 0 => pos
  | pos, [], _ + 1 => pos
  | _, b :: rest, i + 1 => frontier width (b.tableEnd width) rest i

@[simp] theorem frontier_zero (width : SlotWidth) (pos : Nat) (bs : List Bucket) :
    frontier width pos bs 0 = pos := by
  cases bs <;> rfl

/-- The frontier behind a table is its end. -/
theorem frontier_succ {width : SlotWidth} {pos : Nat} {bs : List Bucket} {i : Nat}
    (hi : i < bs.length) : frontier width pos bs (i + 1) = bs[i].tableEnd width := by
  induction bs generalizing pos i with
  | nil => cases hi
  | cons b rest ih =>
    cases i with
    | zero => exact frontier_zero width (b.tableEnd width) rest
    | succ i => exact ih (by simpa using hi)

/-- The last frontier is the end of the last table. -/
theorem frontier_length {width : SlotWidth} {pos n : Nat} {bs : List Bucket}
    (hn : bs.length = n + 1) :
    frontier width pos bs bs.length = (bs.get ⟨n, by omega⟩).tableEnd width := by
  have hlast : n < bs.length := by omega
  simp only [hn]
  exact frontier_succ hlast

namespace Contiguous

variable {width : SlotWidth} {pos last : Nat} {bs : List Bucket}

/-- Tables follow each other just when each starts at its frontier, and the last frontier is where
they end. -/
theorem iff_frontier :
    Contiguous width pos bs last ↔
      (∀ i (hi : i < bs.length), bs[i].start.toNat = frontier width pos bs i) ∧
        last = frontier width pos bs bs.length := by
  induction bs generalizing pos with
  | nil =>
    constructor
    · rintro ⟨⟩
      exact ⟨fun i hi => absurd hi (Nat.not_lt_zero i), rfl⟩
    · rintro ⟨-, rfl⟩
      exact .nil _
  | cons b rest ih =>
    -- From the end of the first table on, the frontiers are those of the rest.
    constructor
    · rintro (_ | ⟨hstart, hrest⟩)
      obtain ⟨hstarts, hlast⟩ := ih.1 hrest
      refine ⟨fun i hi => ?_, hlast⟩
      cases i with
      | zero => exact hstart
      | succ i => exact hstarts i (by simpa using hi)
    · rintro ⟨hstarts, hlast⟩
      refine .cons (hstarts 0 (by simp)) (ih.2 ⟨fun i hi => ?_, hlast⟩)
      exact hstarts (i + 1) (by simpa using hi)

/-- Where tables end is determined by where they start. -/
theorem last_eq {last' : Nat} (h : Contiguous width pos bs last)
    (h' : Contiguous width pos bs last') : last = last' :=
  (iff_frontier.1 h).2.trans (iff_frontier.1 h').2.symm

/-- Every position between the start of the first table and the end of the last is in one table. -/
theorem existsUnique_covers (h : Contiguous width pos bs last) {p : Nat} (hlow : pos ≤ p)
    (hhigh : p < last) :
    ∃! i, ∃ hi : i < bs.length, bs[i].start.toNat ≤ p ∧ p < bs[i].tableEnd width := by
  induction h with
  | nil => omega
  | @cons pos last b rest hstart hrest ih =>
    by_cases hp : p < b.tableEnd width
    · refine ⟨0, ⟨by simp, by simpa [hstart] using hlow, hp⟩, ?_⟩
      rintro (_ | i) ⟨hi, hle, -⟩
      · rfl
      · -- All other tables start behind the first one.
        have hi' : i < rest.length := by simpa using hi
        have hbehind := (hrest.between (List.getElem_mem hi')).1
        simp only [List.getElem_cons_succ] at hle
        omega
    · obtain ⟨i, ⟨hi, hcovers⟩, hunique⟩ := ih (Nat.le_of_not_lt hp) hhigh
      refine ⟨i + 1, ⟨by simpa using hi, hcovers⟩, ?_⟩
      rintro (_ | j) ⟨hj, hcovers'⟩
      · exact absurd hcovers'.2 hp
      · rw [hunique j ⟨by simpa using hj, hcovers'⟩]

end Contiguous

namespace Header

/-- The walk through the tables stops at the first one that does not start at its frontier or runs
past the end of the file. -/
theorem followTables_eq_error {width : SlotWidth} {fileSize index pos : Nat} {bs : List Bucket}
    {e : Error} (h : followTables width fileSize index pos bs = .error e) :
    ∃ i reason, ∃ hi : i < bs.length, e = .format ((index + i) * Layout.descriptorSize) reason ∧
      (bs[i].start.toNat ≠ frontier width pos bs i ∨ fileSize < bs[i].tableEnd width) ∧
      ∀ j (hj : j < i),
        bs[j].start.toNat = frontier width pos bs j ∧ bs[j].tableEnd width ≤ fileSize := by
  -- Each table that fits moves the frontier on, and the tables before it are told by the induction.
  induction bs generalizing index pos with
  | nil => cases h
  | cons b rest ih =>
    rw [followTables] at h
    split at h
    · rename_i hstart
      cases h
      exact ⟨0, _, by simp, rfl, .inl hstart, fun j hj => absurd hj (Nat.not_lt_zero j)⟩
    · rename_i hstart
      split at h
      · rename_i hend
        cases h
        exact ⟨0, _, by simp, rfl, .inr hend, fun j hj => absurd hj (Nat.not_lt_zero j)⟩
      · rename_i hend
        obtain ⟨i, reason, hi, he, hmisfit, hbefore⟩ := ih h
        refine ⟨i + 1, reason, by simpa using hi, ?_, hmisfit, fun j hj => ?_⟩
        · rw [he, Nat.add_right_comm, Nat.add_assoc]
        · cases j with
          | zero => exact ⟨Decidable.not_not.1 hstart, Nat.le_of_not_lt hend⟩
          | succ j => exact hbefore j (by omega)

/-! ### The tables of a file -/

variable {data : ByteArray}

/-- Where the slot table of a bucket has to start: at the end of the one in front of it.  The first
one starts where the record region ends. -/
def dueStart (data : ByteArray) : Nat → Nat
  | 0 => (Bucket.read data 0).start.toNat
  | i + 1 => (Bucket.read data i).tableEnd (.detect data.size data)

/-- Whether the slot table of a bucket starts somewhere else, or runs past the end of the file. -/
def Misfits (data : ByteArray) (i : Nat) : Prop :=
  (Bucket.read data i).start.toNat ≠ dueStart data i ∨
    data.size < (Bucket.read data i).tableEnd (.detect data.size data)

/-- Whether the record region, as the first descriptor places it, lies between the header and the
end of the file. -/
structure PlacesRegion (data : ByteArray) : Prop where
  headerSize_le_size : Layout.headerSize ≤ data.size
  headerSize_le : Layout.headerSize ≤ (Bucket.read data 0).start.toNat
  le_size : (Bucket.read data 0).start.toNat ≤ data.size

/-- Headers whose slot tables go from the end of the record region to the end of the file, each
starting where the one in front of it ends. -/
structure Consistent (data : ByteArray) : Prop extends PlacesRegion data where
  next : ∀ i < 255, (Bucket.read data (i + 1)).start.toNat =
    (Bucket.read data i).start.toNat +
      (Bucket.read data i).slots.toNat * (SlotWidth.detect data.size data).bytes
  last : (Bucket.read data 255).start.toNat +
    (Bucket.read data 255).slots.toNat * (SlotWidth.detect data.size data).bytes = data.size

@[simp] theorem getElem_toList_readBuckets (data : ByteArray) {i : Nat}
    (hi : i < (readBuckets data).toList.length) :
    (readBuckets data).toList[i] = Bucket.read data i := by
  simp [readBuckets]

/-- The frontiers of the tables of a file are where these have to start. -/
theorem frontier_readBuckets (data : ByteArray) {i : Nat} (hi : i < 256) :
    frontier (.detect data.size data) (Bucket.read data 0).start.toNat
      (readBuckets data).toList i = dueStart data i := by
  have hlength : (readBuckets data).toList.length = 256 := Vector.length_toList
  cases i with
  | zero => rw [frontier_zero, dueStart]
  | succ i =>
    have hlt : i < (readBuckets data).toList.length := by omega
    rw [frontier_succ hlt, getElem_toList_readBuckets, dueStart]

/-- The tables of a file follow each other just when each starts where it has to. -/
theorem contiguous_readBuckets_iff {last : Nat} :
    Contiguous (.detect data.size data) (Bucket.read data 0).start.toNat
        (readBuckets data).toList last ↔
      (∀ i < 256, (Bucket.read data i).start.toNat = dueStart data i) ∧
        last = (Bucket.read data 255).tableEnd (.detect data.size data) := by
  have hlength : (readBuckets data).toList.length = 256 := Vector.length_toList
  have hend : frontier (.detect data.size data) (Bucket.read data 0).start.toNat
      (readBuckets data).toList (readBuckets data).toList.length =
        (Bucket.read data 255).tableEnd (.detect data.size data) := by
    rw [frontier_length hlength, List.get_eq_getElem, getElem_toList_readBuckets]
  rw [Contiguous.iff_frontier, hend]
  constructor
  · rintro ⟨hstarts, hlast⟩
    refine ⟨fun i hi => ?_, hlast⟩
    rw [← frontier_readBuckets data hi, ← hstarts i (by omega), getElem_toList_readBuckets]
  · rintro ⟨hstarts, hlast⟩
    refine ⟨fun i hi => ?_, hlast⟩
    have hlt : i < 256 := by omega
    rw [frontier_readBuckets data hlt, getElem_toList_readBuckets, hstarts i hlt]

/-- A header is consistent just when its tables follow each other to the end of the file. -/
theorem consistent_iff :
    Consistent data ↔ PlacesRegion data ∧
      Contiguous (.detect data.size data) (Bucket.read data 0).start.toNat
        (readBuckets data).toList data.size := by
  rw [contiguous_readBuckets_iff]
  constructor
  · intro h
    refine ⟨h.toPlacesRegion, fun i hi => ?_, h.last.symm⟩
    cases i with
    | zero => rfl
    | succ i => exact h.next i (by omega)
  · rintro ⟨hregion, hstarts, hlast⟩
    exact ⟨hregion, fun i hi => hstarts (i + 1) (by omega), hlast.symm⟩

/-- The descriptors of a file, one by one. -/
theorem getElem_readBuckets_eq (data : ByteArray) {i : Nat} (hi : i < 256) :
    (readBuckets data)[i] = Bucket.read data i := by
  simp [readBuckets]

/-- Consistent headers are accepted, and no others. -/
theorem parse_eq_ok_iff_consistent {h : Header} :
    parse data = .ok h ↔
      Consistent data ∧ h = ⟨.detect data.size data, readBuckets data⟩ := by
  rw [parse_eq_ok_iff, consistent_iff]
  constructor
  · rintro ⟨hsize, rfl, hlow, hcont⟩
    simp only [recordEnd, getElem_readBuckets_eq] at hlow hcont
    exact ⟨⟨⟨hsize, hlow, hcont.le⟩, hcont⟩, rfl⟩
  · rintro ⟨⟨hregion, hcont⟩, rfl⟩
    simp only [recordEnd, getElem_readBuckets_eq]
    exact ⟨hregion.headerSize_le_size, trivial, hregion.headerSize_le, hcont⟩

/-- What is said about a header whose record region has no place. -/
theorem parse_of_not_placesRegion (h : ¬PlacesRegion data) :
    ∃ reason, parse data = .error (.format 0 reason) := by
  unfold parse accept
  simp only [getElem_readBuckets_eq]
  by_cases hsize : data.size < Layout.headerSize
  · exact ⟨_, if_pos hsize⟩
  · have hregion : (Bucket.read data 0).start.toNat < Layout.headerSize ∨
        data.size < (Bucket.read data 0).start.toNat := by
      by_contra hnot
      exact h ⟨by omega, by omega, by omega⟩
    rw [if_neg hsize, if_pos hregion]
    exact ⟨_, rfl⟩

/-- What is said about a header whose tables do not follow each other to the end of the file: which
table is the first that does not fit, or else where the last one ends. -/
theorem parse_of_placesRegion (hregion : PlacesRegion data) (h : ¬Consistent data) :
    ∃ offset reason, parse data = .error (.format offset reason) ∧
      ((∃ i < 256, offset = 16 * i ∧ Misfits data i ∧ ∀ j < i, ¬Misfits data j) ∨
        ((∀ i < 256, ¬Misfits data i) ∧
          offset = (Bucket.read data 255).tableEnd (.detect data.size data))) := by
  have hlength : (readBuckets data).toList.length = 256 := Vector.length_toList
  have hlow := hregion.headerSize_le
  have hhigh := hregion.le_size
  have hinside : ¬((Bucket.read data 0).start.toNat < Layout.headerSize ∨
      data.size < (Bucket.read data 0).start.toNat) := by omega
  unfold parse accept
  simp only [getElem_readBuckets_eq]
  rw [if_neg (Nat.not_lt.2 hregion.headerSize_le_size), if_neg hinside]
  split
  · rename_i e hfollow
    obtain ⟨i, reason, hi, rfl, hmisfit, hbefore⟩ := followTables_eq_error hfollow
    rw [hlength] at hi
    rw [getElem_toList_readBuckets, frontier_readBuckets data hi] at hmisfit
    refine ⟨_, reason, rfl, .inl ⟨i, hi, ?_, hmisfit, fun j hj hnot => ?_⟩⟩
    · rw [Nat.zero_add, Nat.mul_comm]
      rfl
    · obtain ⟨hstart, hend⟩ := hbefore j hj
      rw [getElem_toList_readBuckets] at hstart hend
      rw [frontier_readBuckets data (by omega)] at hstart
      exact hnot.elim (absurd hstart) (Nat.not_lt.2 hend)
  · rename_i tablesEnd hfollow
    obtain ⟨hcont, hle⟩ := (followTables_eq_ok hhigh 0 _).1 hfollow
    have hne : tablesEnd ≠ data.size := by
      rintro rfl
      exact h (consistent_iff.2 ⟨hregion, hcont⟩)
    rw [if_pos hne]
    obtain ⟨hstarts, hlast⟩ := contiguous_readBuckets_iff.1 hcont
    refine ⟨_, _, rfl, .inr ⟨fun i hi hmisfit => ?_, hlast⟩⟩
    -- Every table ends at or before the end of the last one.
    have hmem : Bucket.read data i ∈ (readBuckets data).toList := by
      rw [← getElem_toList_readBuckets data (show i < _ by rw [hlength]; exact hi)]
      exact List.getElem_mem _
    have hend := (hcont.between hmem).2
    exact hmisfit.elim (absurd (hstarts i hi)) (by omega)

/-! ### What is read of a header -/

/-- The descriptors of a header, one for each bucket. -/
theorem toList_buckets (h : Header) : h.buckets.toList = (List.finRange 256).map h.bucket := by
  apply List.ext_getElem
  · simp
  · intro i h₁ h₂
    simp [bucket]

/-- A header has room for half as many records as its tables have slots. -/
theorem recordCount_eq_sum (h : Header) :
    h.recordCount = (∑ i : Fin 256, (h.bucket i).slots.toNat) / 2 := by
  rw [recordCount, slotTotal_eq_sum, toList_buckets, List.map_map, Fin.sum_univ_def]
  rfl

/-- The tables of a header that was accepted divide the file behind the record region among them. -/
theorem existsUnique_table {h : Header} {last p : Nat}
    (hcont : Contiguous h.width h.recordEnd h.buckets.toList last) (hlow : h.recordEnd ≤ p)
    (hhigh : p < last) :
    ∃! i : Fin 256, (h.bucket i).start.toNat ≤ p ∧ p < (h.bucket i).tableEnd h.width := by
  have hlength : h.buckets.toList.length = 256 := Vector.length_toList
  obtain ⟨i, ⟨hi, hcovers⟩, hunique⟩ := hcont.existsUnique_covers hlow hhigh
  refine ⟨⟨i, by omega⟩, hcovers, fun j hj => Fin.ext ?_⟩
  exact hunique j.val ⟨by rw [hlength]; exact j.isLt, hj⟩

/-- Which byte strings are accepted as files.  These are the ones with consistent headers.  Then
every table lies behind the record region and inside the file, every position from there to the end
is in exactly one of them, and there is room for half as many records as there are slots.  Any other
byte string is refused with a format error.  If the record region has a place, the error names the
first descriptor whose table does not fit, or where the last table ends if all of them fit; if not,
it names the start of the file.  A machine with checked words of 64 bits says the same. -/
theorem parse_consistency (data : ByteArray) :
    ((∃ h, parse data = .ok h) ↔ Consistent data) ∧
    (∀ h, parse data = .ok h →
      h.width = .detect data.size data ∧ (∀ i : Fin 256, h.bucket i = Bucket.read data i) ∧
      (∀ i, h.recordEnd ≤ (h.bucket i).start.toNat ∧
        (h.bucket i).tableEnd h.width ≤ data.size) ∧
      (∀ p, h.recordEnd ≤ p → p < data.size →
        ∃! i, (h.bucket i).start.toNat ≤ p ∧ p < (h.bucket i).tableEnd h.width) ∧
      h.recordCount = (∑ i : Fin 256, (h.bucket i).slots.toNat) / 2) ∧
    (¬Consistent data →
      ∃ offset reason, parse data = .error (.format offset reason) ∧
        (PlacesRegion data →
          (∃ i < 256, offset = 16 * i ∧ Misfits data i ∧ ∀ j < i, ¬Misfits data j) ∨
          ((∀ i < 256, ¬Misfits data i) ∧
            offset = (Bucket.read data 255).tableEnd (.detect data.size data))) ∧
        (¬PlacesRegion data → offset = 0)) ∧
    (Machine.Addressable data → Machine.parse data = .ok ((parse data).map Machine.Header.of)) := by
  refine ⟨?accepted, ?told, ?refused, Machine.parse_eq⟩
  case accepted =>
    simp only [parse_eq_ok_iff_consistent, exists_and_left, exists_eq, and_true]
  case told =>
    intro h hparse
    obtain ⟨-, hh⟩ := parse_eq_ok_iff_consistent.1 hparse
    obtain ⟨-, -, -, hcont⟩ := parse_eq_ok_iff.1 hparse
    refine ⟨by rw [hh], fun i => ?_, fun i => hcont.between ?_,
      fun p hlow hhigh => existsUnique_table hcont hlow hhigh, recordCount_eq_sum h⟩
    · rw [hh, bucket]
      simp [readBuckets]
    · rw [toList_buckets]
      exact List.mem_map_of_mem (List.mem_finRange i)
  case refused =>
    intro h
    by_cases hregion : PlacesRegion data
    · obtain ⟨offset, reason, hparse, hoffset⟩ := parse_of_placesRegion hregion h
      exact ⟨offset, reason, hparse, fun _ => hoffset, fun hnot => absurd hregion hnot⟩
    · obtain ⟨reason, hparse⟩ := parse_of_not_placesRegion hregion
      exact ⟨0, reason, hparse, fun h => absurd h hregion, fun _ => rfl⟩

namespace Gap

/-- The draft of one record. -/
def draft : Draft := .ofRecords [⟨⟨#[0x6b]⟩, ⟨#[1]⟩⟩]

/-- A header whose first descriptor is that of an empty table, and whose others are blank. -/
def header : ByteArray := (4096 : UInt64).bigEndian ++ ByteArray.replicate 4088 0

theorem size_header : header.size = 4096 := by
  simp [header, ByteArray.size_append]

theorem read_zero : Bucket.read header 0 = ⟨4096, 0⟩ := by decide +kernel

theorem read_one : Bucket.read header 1 = ⟨0, 0⟩ := by decide +kernel

end Gap

/-- In the file of one record each byte behind the record region is in one table.  Of a header whose
second table does not start where the first one ends, the second descriptor is named. -/
theorem parse_consistency_gap :
    (∃ h, parse Gap.draft.image = .ok h ∧ h.recordEnd < Gap.draft.image.size ∧
      ∃! i, (h.bucket i).start.toNat ≤ h.recordEnd ∧ h.recordEnd < (h.bucket i).tableEnd h.width) ∧
    Machine.Addressable Gap.header ∧ PlacesRegion Gap.header ∧ ¬Consistent Gap.header ∧
    ∃ reason, Machine.parse Gap.header = .ok (.error (.format 16 reason)) := by
  constructor
  · have hstorable : Draft.Storable [⟨⟨#[0x6b]⟩, ⟨#[1]⟩⟩] :=
      ⟨by decide, List.forall_mem_singleton.2 ⟨by decide, by decide⟩⟩
    have hparse := hstorable.addressable.parse_image
    have hend : Header.recordEnd ⟨Gap.draft.width, readBuckets Gap.draft.image⟩ =
        Gap.draft.recordEnd := by
      have himage : (Image.mk _ _ hparse).recordEnd = Gap.draft.recordEnd :=
        hstorable.addressable.recordEnd_eq rfl
      exact himage
    have hlt : Gap.draft.recordEnd < Gap.draft.image.size := by
      rw [Draft.size_image, Draft.tablesSize_eq]
      decide
    obtain ⟨-, htold, -⟩ := parse_consistency Gap.draft.image
    obtain ⟨-, -, -, hunique, -⟩ := htold _ hparse
    exact ⟨_, hparse, hend ▸ hlt, hunique _ (Nat.le_refl _) (hend ▸ hlt)⟩
  · have haddr : Machine.Addressable Gap.header := by
      rw [Machine.Addressable, Gap.size_header]
      decide
    have hregion : PlacesRegion Gap.header := by
      refine ⟨?_, ?_, ?_⟩ <;> simp only [Gap.size_header, Gap.read_zero] <;> decide
    have hone : Misfits Gap.header 1 := by
      refine .inl ?_
      rw [dueStart, Gap.read_zero, Gap.read_one, Bucket.tableEnd]
      simp
    have hzero : ¬Misfits Gap.header 0 := by
      rw [Misfits, dueStart, Gap.read_zero, Gap.size_header, Bucket.tableEnd]
      simp
    have hnot : ¬Consistent Gap.header := by
      intro h
      have hnext := h.next 0 (by decide)
      rw [Gap.read_zero, Gap.read_one] at hnext
      simp at hnext
    obtain ⟨-, -, hrefused, hmachine⟩ := parse_consistency Gap.header
    obtain ⟨offset, reason, hparse, hoffset, -⟩ := hrefused hnot
    refine ⟨haddr, hregion, hnot, reason, ?_⟩
    rw [hmachine haddr, hparse]
    -- Of two tables that do not fit, the first one is named.
    obtain ⟨i, -, rfl, hmisfit, hfirst⟩ | ⟨hfits, -⟩ := hoffset hregion
    · obtain rfl : i = 1 := by
        rcases Nat.lt_trichotomy i 1 with hi | rfl | hi
        · obtain rfl : i = 0 := by omega
          exact absurd hmisfit hzero
        · rfl
        · exact absurd hone (hfirst 1 hi)
      rfl
    · exact absurd hone (hfits 1 (by decide))

end Header

end ConstDb
