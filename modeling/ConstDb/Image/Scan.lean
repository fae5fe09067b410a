import ConstDb.Image.Basic

/-! # Scanning the records

A scan goes through the record region from its start, record by record.  The end of the records is
not stored: the scan ends where fewer than 8 bytes are left, or where the next length is all ones
within the last 15 bytes, which is padding.  All ones any earlier, and a record that does not fit,
are errors, and nothing behind them is read. -/

namespace ConstDb.Image

/-- What a scan finds at offset `pos`: a record, an error, or the end. -/
def recordAt (image : Image) (pos : Nat) : Option (Except Error Stored) :=
  if image.recordEnd < pos + Record.prologueSize then none
  else
    match Stored.announced image.bytes pos image.recordEnd with
    | .error e => some (.error e)
    | .ok s =>
      if s.keySize = 0xffffffff then
        -- No record has a key of that length: four bytes of padding look like it.
        if image.recordEnd - pos < Layout.alignment then none
        else some (.error (.format pos .paddingInside))
      else
        some (Stored.read image.bytes pos image.recordEnd)

/-- A record found at an offset is the one that is read there. -/
theorem read_of_recordAt {image : Image} {pos : Nat} {s : Stored}
    (h : image.recordAt pos = some (.ok s)) :
    Stored.read image.bytes pos image.recordEnd = .ok s := by
  unfold recordAt at h
  split at h
  · cases h
  · split at h
    · simp at h
    · split at h
      · split at h <;> simp at h
      · exact Option.some.inj h

/-- A record that was found ends behind its start and inside the record region. -/
theorem next_le_of_recordAt {image : Image} {pos : Nat} {s : Stored}
    (h : image.recordAt pos = some (.ok s)) : pos < s.next ∧ s.next ≤ image.recordEnd := by
  have hread := read_of_recordAt h
  have hoffset := Stored.offset_of_read hread
  have hle := (Stored.read_eq_ok.1 hread).2
  have hlt := s.offset_add_le_next
  simp only [Record.prologueSize] at hlt
  omega

/-- The scan from offset `pos` on. -/
def scanFrom (image : Image) (pos : Nat) : Walk Stored :=
  match _h : image.recordAt pos with
  | none => .empty
  | some (.error e) => .failed e
  | some (.ok s) => .cons s (image.scanFrom s.next)
termination_by image.recordEnd - pos
decreasing_by
  have := next_le_of_recordAt _h
  omega

/-- The scan of all records, with their offsets. -/
def scan (image : Image) : Walk Stored := image.scanFrom Layout.headerSize

/-- The scan of all records. -/
def records (image : Image) : Walk Record := image.scan.map fun s => s.record image.bytes

end ConstDb.Image
