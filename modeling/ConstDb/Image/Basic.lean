import ConstDb.Layout.Header
import ConstDb.Record
import ConstDb.Walk

/-! # Images

An image is a byte string whose header parses.  The proof travels with the bytes, so everything that
is done with an image may rely on what `Header.parse` has checked.  It says nothing about the record
region and the slots, which may hold anything. -/

namespace ConstDb

/-- A byte string that is a database as far as its header tells. -/
structure Image where
  bytes : ByteArray
  header : Header
  parse_eq : Header.parse bytes = .ok header

namespace Image

/-- Accepts a byte string as a database, or says what is wrong with its header. -/
def ofBytes (bytes : ByteArray) : Except Error Image :=
  match h : Header.parse bytes with
  | .error e => .error e
  | .ok header => .ok ⟨bytes, header, h⟩

/-- Where the record region ends. -/
def recordEnd (image : Image) : Nat := image.header.recordEnd

/-- The width of the slots. -/
def width (image : Image) : SlotWidth := image.header.width

/-- How many records the database has, as its slot tables tell. -/
def recordCount (image : Image) : Nat := image.header.recordCount

/-- A byte string is accepted just when its header parses. -/
theorem ofBytes_eq_ok {bytes : ByteArray} {image : Image} (h : ofBytes bytes = .ok image) :
    image.bytes = bytes ∧ Header.parse bytes = .ok image.header := by
  unfold ofBytes at h
  split at h
  · cases h
  · rename_i header hp
    simp only [Except.ok.injEq] at h
    subst h
    exact ⟨rfl, hp⟩

/-- A byte string whose header parses is accepted. -/
theorem ofBytes_of_parse {bytes : ByteArray} {header : Header}
    (h : Header.parse bytes = .ok header) : ofBytes bytes = .ok ⟨bytes, header, h⟩ := by
  unfold ofBytes
  split
  · rename_i e he
    cases he.symm.trans h
  · rename_i header' h'
    cases h'.symm.trans h
    rfl

/-- The bytes of an image tell its header. -/
theorem eq_of_bytes_eq {image image' : Image} (h : image.bytes = image'.bytes) :
    image = image' := by
  obtain ⟨bytes, header, hparse⟩ := image
  obtain ⟨bytes', header', hparse'⟩ := image'
  simp only at h
  subst h
  cases hparse.symm.trans hparse'
  rfl

end Image

end ConstDb
