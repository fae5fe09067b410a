import ConstDb.Proofs.Builder.Commit
import ConstDb.Proofs.Image.Reach
import ConstDb.Proofs.Layout.Consistent
import ConstDb.Proofs.Reader.Mapping

/-! # Torn files

A file that was cut short, or that has bytes behind its end, is refused.  What the header says
decides how long a file is: the tables follow each other from the first position on, and the last
one ends with the file.  The width of the slots seems to stand in the way, since it is detected from
the size of the file.  But in an accepted file the first stored word alone decides it
(`Header.width_eq_of_parse`), because a record region that ends beyond the reach of 32 bits needs a
file that is as long.

## Key results

- `Header.size_eq_of_parse`: files with one header that are both accepted have one size
- `Header.parse_of_torn`: a torn copy is refused with a format error
- `Builder.refused_of_torn`: and so no reader opens a torn copy of a database that was built
-/

namespace ConstDb

/-- The byte strings that a file becomes when it is cut short or when bytes are put behind its end.
-/
inductive Torn (data : ByteArray) : ByteArray → Prop where
  | cut {n : Nat} (h : n < data.size) : Torn data (data.extract 0 n)
  | extended {more : ByteArray} (h : more ≠ .empty) : Torn data (data ++ more)

namespace Torn

variable {data torn : ByteArray}

/-- A torn copy has another size. -/
theorem size_ne (h : Torn data torn) : torn.size ≠ data.size := by
  cases h with
  | cut hn =>
    rw [ByteArray.size_extract]
    omega
  | @extended more hmore =>
    have hsize : more.size ≠ 0 := fun hzero => hmore (ByteArray.size_eq_zero_iff.1 hzero)
    rw [ByteArray.size_append]
    omega

/-- A torn copy agrees with the file as far as both go. -/
theorem byteAt_eq (h : Torn data torn) {i : Nat} (hi : i < data.size) (hi' : i < torn.size) :
    torn.byteAt i = data.byteAt i := by
  cases h with
  | cut hn =>
    rw [ByteArray.byteAt_of_lt hi', ByteArray.byteAt_of_lt hi, ByteArray.getElem_extract]
    simp
  | extended => exact ByteArray.byteAt_append_left _ hi

end Torn

namespace Header

variable {data data' : ByteArray} {h h' : Header}

/-- A header that is not accepted has a format error. -/
theorem isFormat_of_parse {e : Error} (hparse : parse data = .error e) : e.IsFormat := by
  by_cases hregion : PlacesRegion data
  · have hnot : ¬Consistent data := by
      intro hconsistent
      cases hparse.symm.trans (parse_eq_ok_iff_consistent.2 ⟨hconsistent, rfl⟩)
    obtain ⟨offset, reason, herror, -⟩ := parse_of_placesRegion hregion hnot
    exact ⟨offset, reason, Except.error.inj (hparse.symm.trans herror)⟩
  · obtain ⟨reason, herror⟩ := parse_of_not_placesRegion hregion
    exact ⟨0, reason, Except.error.inj (hparse.symm.trans herror)⟩

/-- In an accepted file the first stored word decides the width of the slots. -/
theorem width_eq_of_parse (hparse : parse data = .ok h) :
    h.width = if data.word32 0 = 0 then .narrow else .wide := by
  obtain ⟨hconsistent, rfl⟩ := parse_eq_ok_iff_consistent.1 hparse
  show SlotWidth.detect data.size data = _
  by_cases hword : data.word32 0 = 0
  · rw [if_pos hword, SlotWidth.detect, if_pos (.inr hword)]
  · -- The record region ends beyond the reach of 32 bits, and the file is not shorter.
    have hpos : (data.word32 0).toNat ≠ 0 := fun hzero => hword (UInt32.toNat_inj.1 hzero)
    have hstart : (Bucket.read data 0).start.toNat =
        (data.word32 0).toNat * 0x100000000 + (data.word32 4).toNat :=
      ByteArray.toNat_word64 data 0
    have hle := hconsistent.le_size
    have hlarge : ¬(data.size < SlotWidth.narrowLimit ∨ data.word32 0 = 0) := by
      simp only [SlotWidth.narrowLimit, hword, or_false]
      omega
    rw [if_neg hword, SlotWidth.detect, if_neg hlarge]

/-- Two byte strings store the same header. -/
def Agree (data data' : ByteArray) : Prop :=
  ∀ i < Layout.headerSize, data.byteAt i = data'.byteAt i

namespace Agree

theorem word32_eq (h : Agree data data') {pos : Nat} (hpos : pos + 4 ≤ Layout.headerSize) :
    data.word32 pos = data'.word32 pos := by
  rw [ByteArray.word32, ByteArray.word32, h pos (by omega), h (pos + 1) (by omega),
    h (pos + 2) (by omega), h (pos + 3) (by omega)]

theorem word64_eq (h : Agree data data') {pos : Nat} (hpos : pos + 8 ≤ Layout.headerSize) :
    data.word64 pos = data'.word64 pos := by
  rw [ByteArray.word64, ByteArray.word64, h.word32_eq (by omega), h.word32_eq (by omega)]

/-- The descriptors are those of the header. -/
theorem readBuckets_eq (h : Agree data data') : readBuckets data = readBuckets data' := by
  apply Vector.ext
  intro i hi
  have hend : i * Layout.descriptorSize + 16 ≤ Layout.headerSize := by
    simp only [Layout.descriptorSize, Layout.headerSize]
    omega
  simp only [readBuckets, Vector.getElem_ofFn, Bucket.read]
  rw [h.word64_eq (by omega), h.word32_eq (by omega)]

end Agree

/-- The header tells how long an accepted file is. -/
theorem size_eq_of_parse (hagree : Agree data data') (hparse : parse data = .ok h)
    (hparse' : parse data' = .ok h') : data.size = data'.size := by
  have hwidth : h.width = h'.width := by
    rw [width_eq_of_parse hparse, width_eq_of_parse hparse',
      hagree.word32_eq (by simp only [Layout.headerSize]; omega)]
  obtain ⟨-, hh, -, hcont⟩ := parse_eq_ok_iff.1 hparse
  obtain ⟨-, hh', -, hcont'⟩ := parse_eq_ok_iff.1 hparse'
  have hbuckets : h.buckets = h'.buckets := by rw [hh, hh', hagree.readBuckets_eq]
  rw [recordEnd, hwidth, hbuckets] at hcont
  exact hcont.last_eq hcont'

/-- A torn copy of an accepted file is refused. -/
theorem parse_of_torn {torn : ByteArray} (hparse : parse data = .ok h) (htorn : Torn data torn) :
    ∃ e, parse torn = .error e ∧ e.IsFormat := by
  cases hparse' : parse torn with
  | error e => exact ⟨e, rfl, isFormat_of_parse hparse'⟩
  | ok h' =>
    have hsize := (parse_eq_ok_iff_consistent.1 hparse).1.headerSize_le_size
    have hsize' := (parse_eq_ok_iff_consistent.1 hparse').1.headerSize_le_size
    have hagree : Agree torn data := fun i hi => htorn.byteAt_eq (by omega) (by omega)
    exact absurd (size_eq_of_parse hagree hparse' hparse) htorn.size_ne

end Header

/-- A byte string whose header is not accepted is no image. -/
theorem Image.ofBytes_of_parse_error {bytes : ByteArray} {e : Error}
    (h : Header.parse bytes = .error e) : Image.ofBytes bytes = .error e := by
  cases himage : Image.ofBytes bytes with
  | ok image => cases h.symm.trans (Image.ofBytes_eq_ok himage).2
  | error e' =>
    unfold Image.ofBytes at himage
    split at himage
    · rename_i hparse
      cases himage
      cases hparse.symm.trans h
      rfl
    · cases himage

namespace Reader

variable {s : FileSpace} {path : Path} {f : File}

/-- A file whose header is not accepted is not opened.  If its owner may read it, that is said with
a format error. -/
theorem open_of_parse_error {e : Error} (hstat : s.stat path = .ok (.file f))
    (hparse : Header.parse f.bytes = .error e) :
    ∃ e', Reader.open s path = .error e' ∧ (f.isReadable → e'.IsFormat) := by
  by_cases hreadable : f.isReadable
  · have hnode := FileSpace.openNode_eq_ok_file_iff.2 ⟨hstat, hreadable⟩
    simp only [Reader.open, Mapping.load, hnode, Image.ofBytes_of_parse_error hparse]
    by_cases hsize : f.bytes.size < Layout.headerSize
    · simp only [if_pos hsize]
      exact ⟨_, rfl, fun _ => ⟨_, _, rfl⟩⟩
    · simp only [if_neg hsize]
      exact ⟨e, rfl, fun _ => Header.isFormat_of_parse hparse⟩
  · rw [Reader.open, Mapping.load_of_unreadable hstat (by simpa using hreadable)]
    exact ⟨_, rfl, fun h => absurd h hreadable⟩

end Reader

namespace Builder

/-- A torn copy of an accepted file is refused with a format error, however long the file and the
copy are.  Of a database that was built no torn copy is ever opened, wherever it lies: a copy that
can be read at all is refused with a format error. -/
theorem refused_of_torn :
    (∀ {data torn : ByteArray} {h : Header}, Header.parse data = .ok h → Torn data torn →
      ∃ e, Header.parse torn = .error e ∧ e.IsFormat) ∧
    (∀ {s₀ s₁ s₂ s₃ : FileSpace} {target : Path} {mode : Option Nat} {b b₁ b₂ : Builder}
        {rs : List Record}, Builder.open s₀ target mode = .ok (b, s₁) →
        b.addAll rs = (.ok (), b₁) → b₁.finish s₂ = (.ok (), b₂, s₃) →
      ∃ committed, s₃.stat target = .ok (.file committed) ∧
        ∀ {s : FileSpace} {path : Path} {copy : File}, s.stat path = .ok (.file copy) →
          Torn committed.bytes copy.bytes →
          ∃ e, Reader.open s path = .error e ∧ (copy.isReadable → e.IsFormat)) := by
  refine ⟨fun hparse htorn => Header.parse_of_torn hparse htorn, ?database⟩
  case database =>
    intro s₀ s₁ s₂ s₃ target mode b b₁ b₂ rs hopen hadd hfinish
    obtain ⟨hstorable, hdraft, time, hstat⟩ := file_of_finish hopen hadd hfinish
    refine ⟨_, hstat, fun {s path copy} hcopy htorn => ?_⟩
    rw [hdraft] at htorn
    obtain ⟨e, hparse, -⟩ := Header.parse_of_torn hstorable.addressable.parse_image htorn
    exact Reader.open_of_parse_error hcopy hparse

/-- The file of three records with one more byte. -/
def Sample.overlong : ByteArray := Sample.filled.draft.image ++ ⟨#[0]⟩

/-- A space in which that file took the place of the database. -/
def Sample.torn : FileSpace := Sample.finished.install [[0x61]] Sample.overlong defaultMode

/-- A header without its tables, and a database with one more byte, are refused. -/
theorem refused_of_torn_sample :
    (∃ e, Header.parse (Sample.filled.draft.image.extract 0 4096) = .error e ∧ e.IsFormat) ∧
      ∃ e, Reader.open Sample.torn ⟨[0x61]⟩ = .error e ∧ e.IsFormat := by
  obtain ⟨hparts, hdatabase⟩ := refused_of_torn
  constructor
  · have hstorable := (file_of_finish Sample.open_eq Sample.addAll_eq Sample.finish_eq).1
    have hlong : 4096 < Sample.filled.draft.image.size := by
      rw [Draft.size_image, Draft.tablesSize_eq]
      decide
    exact hparts hstorable.addressable.parse_image (.cut hlong)
  · obtain ⟨committed, hstat, hrefused⟩ :=
      hdatabase Sample.open_eq Sample.addAll_eq Sample.finish_eq
    have hfinished : Sample.finished.stat ⟨[0x61]⟩ =
        .ok (.file ⟨Sample.filled.draft.image, defaultMode, 1⟩) := rfl
    have htorn : Sample.torn.stat ⟨[0x61]⟩ =
        .ok (.file ⟨Sample.overlong, defaultMode, 2⟩) := rfl
    obtain rfl := Node.file.inj (Except.ok.inj (hstat.symm.trans hfinished))
    have hne : (⟨#[0]⟩ : ByteArray) ≠ .empty := by decide
    obtain ⟨e, hopen, hformat⟩ := hrefused htorn (.extended hne)
    exact ⟨e, hopen, hformat rfl⟩

end Builder

end ConstDb
