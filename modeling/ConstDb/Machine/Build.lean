import ConstDb.Draft
import ConstDb.Machine.Fill
import ConstDb.Machine.Write

/-! # Building a file with machine words

A build as the machine does it.  It writes each record as soon as it is added, behind a header of
zeros, and keeps for each bucket what its slot table will have to hold.  Offsets and counts are
words of 64 bits, the sizes that are stored are cut to 32.

When a build is finished, padding is written behind the records, then one slot table after the
other, and the descriptors of the tables go over the zeros at the front. -/

namespace ConstDb.Machine

/-- A database that is being written. -/
structure Build where
  /-- What was written so far. -/
  file : ByteArray
  /-- What each bucket has to remember, in the order in which the records were added. -/
  buckets : Array (Array IndexEntry)
  /-- The offset of the next record. -/
  pos : UInt64
  /-- How many records were added. -/
  records : UInt64

namespace Build

/-- A build without records. -/
def opened : Build where
  file := ByteArray.replicate Layout.headerSize 0
  buckets := Array.replicate Layout.bucketCount #[]
  pos := .ofNat Layout.headerSize
  records := 0

/-! ### Adding records -/

/-- Refuses fields that are too long, the key before the value. -/
def checkFields (r : Record) : Except Error Unit := do
  Draft.checkSize .keyLength r.key.size Layout.maxFieldSize
  Draft.checkSize .valueLength r.value.size Layout.maxFieldSize

/-- Writes a record behind what was written. -/
def writeRecord (file : ByteArray) (r : Record) : Except Trap ByteArray := do
  let lengths ← prologue (.ofNat r.key.size) (.ofNat r.value.size)
  return file ++ (lengths ++ r.key ++ r.value)

/-- Notes an entry in its bucket. -/
def note (buckets : Array (Array IndexEntry)) (e : IndexEntry) :
    Except Trap (Array (Array IndexEntry)) := do
  let pending ← item buckets (bucketOf e.hash)
  return buckets.setIfInBounds (bucketOf e.hash).toNat (pending.push e)

/-- Adds a record, unless it is beyond the limits. -/
def add (b : Build) (r : Record) : Except Trap (Except Error Build) :=
  match checkFields r with
  | .error e => .ok (.error e)
  | .ok () =>
    if Layout.maxRecords ≤ b.records.toNat then do
      let count ← add64 b.records 1
      return .error (.limit .recordCount count.toNat Layout.maxRecords)
    else do
      let file ← writeRecord b.file r
      let buckets ← note b.buckets ⟨Hash.ofBytes r.key, .ofNat r.key.size, b.pos⟩
      let size ← encodedSize (.ofNat r.key.size) (.ofNat r.value.size)
      let pos ← add64 b.pos size
      let records ← add64 b.records 1
      return .ok ⟨file, buckets, pos, records⟩

/-- Offers records one after the other, and goes on behind one that is refused. -/
def offerAll (b : Build) : List Record → Except Trap Build
  | [] => .ok b
  | r :: rest => do
    match ← b.add r with
    | .error _ => b.offerAll rest
    | .ok b => b.offerAll rest

/-! ### Finishing -/

/-- A file to which slot tables are written, with the header that it will get. -/
structure Finishing where
  header : ByteArray
  file : ByteArray
  /-- Where the next slot table starts. -/
  pos : UInt64

/-- Writes the slot table of a bucket, and its descriptor into the header. -/
def layTable (width : SlotWidth) (patience : Nat) (f : Finishing) (index : UInt64)
    (pending : Array IndexEntry) : Except Trap (Option Finishing) := do
  let slots ← mul32 (.ofNat pending.size) 2
  let header ← putBucket f.header index ⟨f.pos, slots⟩
  let bytes ← shl64 1 (shift width)
  let size ← mul64 slots.toUInt64 bytes
  match ← placeAll width slots patience (ByteArray.replicate size.toNat 0) pending.toList with
  | none => return none
  | some table =>
    let pos ← add64 f.pos (.ofNat table.size)
    return some ⟨header, f.file ++ table, pos⟩

/-- Writes the slot tables of buckets, of which the first has the given index. -/
def layTables (width : SlotWidth) (patience : Nat) :
    Finishing → (index : UInt64) → List (Array IndexEntry) → Except Trap (Option Finishing)
  | f, _, [] => .ok (some f)
  | f, index, pending :: rest => do
    match ← layTable width patience f index pending with
    | none => return none
    | some f =>
      let index ← add64 index 1
      layTables width patience f index rest

/-- The finished file, and where its last slot table ends. -/
def finish (patience : Nat) (b : Build) : Except Trap (Option (ByteArray × UInt64)) := do
  let padding ← paddingFor b.pos
  let fill ← slice (ByteArray.replicate 16 Layout.paddingByte) 0 padding
  let pos ← add64 b.pos padding
  match ← layTables (.forRecordEnd pos.toNat) patience
      ⟨ByteArray.replicate Layout.headerSize 0, b.file ++ fill, pos⟩ 0 b.buckets.toList with
  | none => return none
  | some f => return some (f.file.overwrite 0 f.header, f.pos)

end Build

end ConstDb.Machine
