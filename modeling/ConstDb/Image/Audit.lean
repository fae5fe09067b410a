import ConstDb.Image.Query

/-! # Audits

Three ways to check an image as a whole.  `validate` compares the number of scanned records with the
number that the slot tables have room for.  `hasUniqueKeys` tells whether the index leads from the
key of every record to that very record first.  `stats` looks every record up through the index and
counts how far from its start slot it is. -/

namespace ConstDb

/-- How many distances a histogram tells apart: 0 to 9, and all greater ones together. -/
def Stats.classCount : Nat := 11

/-- How far the records of a database are from their start slots. -/
structure Stats where
  /-- How many records were looked up. -/
  records : Nat
  /-- How many records were found 0, 1, …, 9 slots behind their start slot, and further behind. -/
  distances : Vector Nat Stats.classCount

namespace Stats

/-- The statistics of no records. -/
def empty : Stats := ⟨0, Vector.replicate classCount 0⟩

/-- Counts a record that was the `probes`-th entry of its probe. -/
def add (s : Stats) (probes : Nat) : Stats :=
  let d := min (probes - 1) (classCount - 1)
  ⟨s.records + 1, s.distances.mapIdx fun i n => if i = d then n + 1 else n⟩

/-- One line for the number of records, and one for each class of distances. -/
def text (s : Stats) : String :=
  let line (label : String) (n : Nat) := Text.padRight ' ' 8 label ++ toString n ++ "\n"
  let classes := s.distances.toList.zipIdx.map fun (n, d) =>
    if d + 1 = classCount then line ">9" n else line ("d" ++ toString d) n
  "records " ++ toString s.records ++ "\n" ++ String.join classes

end Stats

namespace Image

/-- The first record that the index leads to for a key. -/
def firstHit (image : Image) (key : ByteArray) : Except Error (Option Stored) :=
  match Probe.start? image key with
  | none => .ok none
  | some p => (p.next image key).1.map fun hit => hit.map Hit.stored

/-- Whether no key occurs twice: the index leads from the key of each record to that record first.
The first occurrence of a key that occurs twice is an earlier record. -/
def hasUniqueKeys (image : Image) : Except Error Bool :=
  image.scan.allM fun s =>
    (image.firstHit (s.key image.bytes)).map fun first =>
      decide (first.map Stored.offset = some s.offset)

/-- Confirms that the scan meets as many records as the slot tables have room for.  The header needs
no second look: an image has a proof that it parses. -/
def validate (image : Image) : Except Error Unit :=
  match image.scan.toExcept with
  | .error e => .error e
  | .ok records =>
    if records.length ≠ image.recordCount then
      .error (.format image.recordEnd (.countMismatch records.length image.recordCount))
    else .ok ()

/-- How many entries a search for the key looks at until it meets the record at `offset`. -/
def probesTo (image : Image) (key : ByteArray) (offset : Nat) : Except Error (Option Nat) :=
  match Probe.start? image key with
  | none => .ok none
  | some p =>
    p.firstSome image key fun hit => if hit.stored.offset = offset then some hit.probes else none

/-- It is the first of all hits of the key that tells. -/
theorem probesTo_eq (image : Image) (key : ByteArray) (offset : Nat) :
    image.probesTo key offset =
      (image.hits key).firstSome fun hit =>
        if hit.stored.offset = offset then some hit.probes else none := by
  unfold probesTo hits
  cases Probe.start? image key with
  | none => rfl
  | some p => exact Probe.firstSome_eq ..

/-- Looks up one more record and counts its distance. -/
def tally (image : Image) (stats : Stats) (s : Stored) : Except Error Stats :=
  match image.probesTo (s.key image.bytes) s.offset with
  | .error e => .error e
  | .ok none => .error (.format s.offset .unreachable)
  | .ok (some probes) => .ok (stats.add probes)

/-- The distances of all records from their start slots. -/
def stats (image : Image) : Except Error Stats :=
  image.scan.foldM image.tally .empty

end Image

end ConstDb
