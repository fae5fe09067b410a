import ConstDb.Machine.Probe
import ConstDb.Machine.Scan
import ConstDb.Session.Basic

/-! # Queries with machine words

What a reader is asked, as the machine does it.  A run opens a file and answers queries one by one;
between them it keeps the cursor. -/

namespace ConstDb.Machine

variable {σ α β : Type}

/-! ## Loops -/

/-- Goes through the records of a key. -/
def forHits (m : Mapped) (key : ByteArray) (body : σ → Hit → Except Trap (Turn σ β)) (x : σ) :
    Except Trap (Exit σ β) := do
  let p ← Probe.start? m.header key
  (Probe.hits m key).forEach body x p

/-- The values of a key. -/
def values (m : Mapped) (key : ByteArray) : Feed (Option Probe) ByteArray :=
  (Probe.hits m key).through (Hit.value m.data)

/-- Goes through the values of a key. -/
def forValues (m : Mapped) (key : ByteArray) (body : σ → ByteArray → Except Trap (Turn σ β))
    (x : σ) : Except Trap (Exit σ β) := do
  let p ← Probe.start? m.header key
  (values m key).forEach body x p

/-- Goes through all records. -/
def forEntries (m : Mapped) (body : σ → Entry → Except Trap (Turn σ β)) (x : σ) :
    Except Trap (Exit σ β) := do
  let it ← Scan.start m.header
  (Scan.entries m.data).forEach body x it

/-! ### Their bodies -/

/-- Counts an item. -/
def countOne (n : UInt64) (_ : α) : Except Trap (Turn UInt64 UInt64) := do
  let n ← add64 n 1
  return .more n

/-- Puts an item to the others. -/
def takeIn (f : σ → α → σ) (x : σ) (a : α) : Except Trap (Turn σ σ) := .ok (.more (f x a))

/-- Counts an item, and stops at the one with the number `n`. -/
def countTo (n i : UInt64) (a : α) : Except Trap (Turn UInt64 (Option α)) := do
  let j ← add64 i 1
  return if i = n then .stop (.ok (some a)) else .more j

/-- Stops at an item with the property `p`, with what `f` makes of it. -/
def stopAt (p : α → Prop) [DecidablePred p] (f : α → β) (_ : Unit) (a : α) :
    Except Trap (Turn Unit (Option β)) :=
  .ok (if p a then .stop (.ok (some (f a))) else .more ())

/-! ## Through the index -/

/-- The value of occurrence `n` of a key, counted from 0. -/
def nth (m : Mapped) (key : ByteArray) (n : UInt64) :
    Except Trap (Except Error (Option ByteArray)) := do
  let x ← forValues m key (countTo n) 0
  return x.finish fun _ => none

/-- How often a key occurs. -/
def count (m : Mapped) (key : ByteArray) : Except Trap (Except Error UInt64) := do
  let x ← forValues m key countOne 0
  return x.finish id

/-- All values of a key, behind some others. -/
def findAll (m : Mapped) (key : ByteArray) (found : List ByteArray) :
    Except Trap (Except Error (List ByteArray)) := do
  let x ← forValues m key (takeIn fun values value => values ++ [value]) found
  return x.finish id

/-- All values of several keys, one key after the other. -/
def valuesAt (m : Mapped) (found : List ByteArray) :
    List ByteArray → Except Trap (Except Error (List ByteArray))
  | [] => .ok (.ok found)
  | key :: keys => do
    match ← findAll m key found with
    | .error e => return .error e
    | .ok found => valuesAt m found keys

/-- What the calls of an iterator over the values of a key give. -/
def valueCalls (m : Mapped) (key : ByteArray) :
    Except Trap (List (Option (Except Error ByteArray))) := do
  let p ← Probe.start? m.header key
  (values m key).calls p

/-- Where the first record is that the index leads to for a key. -/
def firstOffset (m : Mapped) (key : ByteArray) : Except Trap (Except Error (Option UInt64)) := do
  match ← Probe.start? m.header key with
  | none => return .ok none
  | some p =>
    let (result, _) ← p.next m key
    return result.map fun hit => hit.map Hit.offset

/-- How many entries a search for the key looks at until it meets the record at `offset`. -/
def probesTo (m : Mapped) (key : ByteArray) (offset : UInt64) :
    Except Trap (Except Error (Option UInt32)) := do
  let x ← forHits m key (stopAt (fun hit => hit.offset = offset) Hit.probes) ()
  return x.finish fun () => none

/-! ## Through a scan -/

/-- Puts all records together. -/
def gatherAll (m : Mapped) (f : σ → Entry → σ) (x : σ) : Except Trap (Except Error σ) := do
  let x ← forEntries m (takeIn f) x
  return x.finish id

/-- The key of the first record that has the value. -/
def keyOf (m : Mapped) (value : ByteArray) : Except Trap (Except Error (Option ByteArray)) := do
  let x ← forEntries m (stopAt (fun entry => entry.value = value) Entry.key) ()
  return x.finish fun () => none

/-- What the calls of an iterator over all records give. -/
def entryCalls (m : Mapped) : Except Trap (List (Option (Except Error Entry))) := do
  let it ← Scan.start m.header
  (Scan.entries m.data).calls it

/-- The record that was read. -/
def Entry.record (e : Entry) : Record := ⟨e.key, e.value⟩

/-- Writes a record behind others, and counts it. -/
def writeOne (x : ByteArray × UInt64) (entry : Entry) :
    Except Trap (Turn (ByteArray × UInt64) UInt64) := do
  let n ← add64 x.2 1
  return .more (x.1 ++ RecordText.line entry.record, n)

/-- The text of all records, as far as they can be read, and their number. -/
def dump (m : Mapped) : Except Trap (Except Error UInt64 × ByteArray) := do
  let x ← forEntries m writeOne (ByteArray.empty, 0)
  let text :=
    match x.result with
    | none => x.state.1 ++ RecordText.terminator
    | some _ => x.state.1
  return (x.finish Prod.snd, text)

/-! ## Audits -/

/-- Stops at a record that is not the first one that the index leads to for its key. -/
def checkFirst (m : Mapped) (_ : Unit) (entry : Entry) : Except Trap (Turn Unit Bool) := do
  match ← firstOffset m entry.key with
  | .error e => return .stop (.error e)
  | .ok first => return if first = some entry.offset then .more () else .stop (.ok false)

/-- Whether no key occurs twice. -/
def hasUniqueKeys (m : Mapped) : Except Trap (Except Error Bool) := do
  let x ← forEntries m (checkFirst m) ()
  return x.finish fun () => true

/-- Reads the header again, and confirms that a scan meets as many records as the slot tables have
room for. -/
def validate (m : Mapped) : Except Trap (Except Error Unit) := do
  match ← parse m.data with
  | .error e => return .error e
  | .ok _ =>
    let x ← forEntries m countOne 0
    match x.finish id with
    | .error e => return .error e
    | .ok scanned =>
      if scanned ≠ m.header.records then
        let recordEnd ← m.header.recordEnd
        return .error (.format recordEnd.toNat
          (.countMismatch scanned.toNat m.header.records.toNat))
      else return .ok ()

/-- How far records are from their start slots. -/
structure Stats where
  records : UInt64
  distances : Vector UInt64 ConstDb.Stats.classCount

namespace Stats

/-- The statistics of no records. -/
def empty : Stats := ⟨0, Vector.replicate _ 0⟩

/-- Counts a record that was the `probes`-th entry of its probe. -/
def add (s : Stats) (probes : UInt32) : Except Trap Stats := do
  let distance ← sub64 probes.toUInt64 1
  let last := UInt64.ofNat (ConstDb.Stats.classCount - 1)
  let d := if distance.toNat < last.toNat then distance else last
  let n ← item s.distances.toArray d
  let n ← add64 n 1
  let records ← add64 s.records 1
  return ⟨records, s.distances.setIfInBounds d.toNat n⟩

/-- The same statistics as numbers. -/
def numbers (s : Stats) : ConstDb.Stats := ⟨s.records.toNat, s.distances.map UInt64.toNat⟩

end Stats

/-- Looks up one more record and counts its distance. -/
def tallyOne (m : Mapped) (stats : Stats) (entry : Entry) : Except Trap (Turn Stats Stats) := do
  match ← probesTo m entry.key entry.offset with
  | .error e => return .stop (.error e)
  | .ok none => return .stop (.error (.format entry.offset.toNat .unreachable))
  | .ok (some probes) =>
    let stats ← stats.add probes
    return .more stats

/-- The distances of all records from their start slots. -/
def stats (m : Mapped) : Except Trap (Except Error Stats) := do
  let x ← forEntries m (tallyOne m) Stats.empty
  return x.finish id

/-! ## The cursor -/

/-- A search that goes on from call to call, and where its key stands. -/
structure Cursor where
  probe : Option Probe
  keyStart : UInt64
  keySize : UInt32

/-- The cursor that finds nothing. -/
def Cursor.nowhere : Cursor := ⟨none, 0, 0⟩

/-- Puts the cursor on the first occurrence of a key. -/
def findKey (m : Mapped) (key : ByteArray) :
    Except Trap (Except Error (Option ByteArray) × Cursor) := do
  match ← Probe.start? m.header key with
  | none => return (.ok none, .nowhere)
  | some p =>
    match ← p.next m key with
    | (.error e, _) => return (.error e, .nowhere)
    | (.ok none, _) => return (.ok none, .nowhere)
    | (.ok (some hit), q) =>
      let value ← hit.value m.data
      return (.ok (some value), ⟨some q, hit.keyStart, hit.keySize⟩)

/-- Moves the cursor to the next occurrence of its key, which is read where it stands. -/
def findNext (m : Mapped) (c : Cursor) :
    Except Trap (Except Error (Option ByteArray) × Cursor) :=
  match c.probe with
  | none => .ok (.ok none, c)
  | some p => do
    let keyStop ← add64 c.keyStart c.keySize.toUInt64
    let key ← slice m.data c.keyStart keyStop
    match ← p.next m key with
    | (.error e, _) => return (.error e, { c with probe := none })
    | (.ok none, _) => return (.ok none, { c with probe := none })
    | (.ok (some hit), q) =>
      let value ← hit.value m.data
      return (.ok (some value), { c with probe := some q })

/-! ## Runs -/

/-- What a reader may be asked. -/
inductive Query where
  | size
  | unique
  | validate
  | nth (key : ByteArray) (n : UInt64)
  | findKey (key : ByteArray)
  | findNext
  | keyOf (value : ByteArray)
  | count (key : ByteArray)
  | hasKey (key : ByteArray)
  | hasValue (value : ByteArray)
  | findAll (key : ByteArray)
  | valuesAt (keys : List ByteArray)
  | keys
  | values
  | pairs
  | toMap
  | invert
  | scan
  | occurrences (key : ByteArray)
  | stats
  /-- Writes all records to a sink that never fails. -/
  | dump

/-- The step of a session that asks the same. -/
def Query.step : Query → ReaderStep
  | .size => .size
  | .unique => .unique
  | .validate => .validate
  | .nth key n => .nth key n.toNat
  | .findKey key => .findKey key
  | .findNext => .findNext
  | .keyOf value => .keyOf value
  | .count key => .count key
  | .hasKey key => .hasKey key
  | .hasValue value => .hasValue value
  | .findAll key => .findAll key
  | .valuesAt ks => .valuesAt ks
  | .keys => .keys
  | .values => .values
  | .pairs => .pairs
  | .toMap => .toMap
  | .invert => .invert
  | .scan => .scan
  | .occurrences key => .occurrences key
  | .stats => .stats
  | .dump => .dump {}

/-- The reply to a query that leaves the cursor where it is. -/
def reply (c : Cursor) (answer : α → Answer) (x : Except Trap (Except Error α)) :
    Except Trap (Reply × Cursor) :=
  x.map fun r => (Session.replyOf answer r, c)

/-- The reply to a query that moves the cursor. -/
def replyMoved (x : Except Trap (Except Error (Option ByteArray) × Cursor)) :
    Except Trap (Reply × Cursor) :=
  x.map fun (r, c) => (Session.replyOf .bytes? r, c)

/-- Answers a query. -/
def perform (m : Mapped) (c : Cursor) : Query → Except Trap (Reply × Cursor)
  | .size => .ok (.ok (.number m.header.records.toNat), c)
  | .unique => reply c .flag (hasUniqueKeys m)
  | .validate => reply c (fun _ => .unit) (validate m)
  | .nth key n => reply c .bytes? (nth m key n)
  | .findKey key => replyMoved (findKey m key)
  | .findNext => replyMoved (findNext m c)
  | .keyOf value => reply c .bytes? (keyOf m value)
  | .count key => reply c (fun n => .number n.toNat) (count m key)
  | .hasKey key => reply c (fun value => .flag value.isSome) (nth m key 0)
  | .hasValue value => reply c (fun key => .flag key.isSome) (keyOf m value)
  | .findAll key => reply c .byteStrings (findAll m key [])
  | .valuesAt ks => reply c .byteStrings (valuesAt m [] ks)
  | .keys => reply c .byteStrings (gatherAll m (fun keys entry => keys ++ [entry.key]) [])
  | .values => reply c .byteStrings (gatherAll m (fun values entry => values ++ [entry.value]) [])
  | .pairs => reply c .records (gatherAll m (fun rs entry => rs ++ [entry.record]) [])
  | .toMap =>
    reply c Session.stepReader.mapRecords
      (gatherAll m (fun map entry => map.insert entry.key entry.value) ∅)
  | .invert =>
    reply c Session.stepReader.mapRecords
      (gatherAll m (fun map entry => map.insert entry.value entry.key) ∅)
  | .scan =>
    (entryCalls m).map fun calls =>
      (.ok (.scanCalls (calls.map fun call => call.map fun r => r.map Entry.record)), c)
  | .occurrences key => (valueCalls m key).map fun calls => (.ok (.occurrenceCalls calls), c)
  | .stats => reply c (fun s => .stats s.numbers) (stats m)
  | .dump => (dump m).map fun (result, text) => (.ok (.dumped (result.map UInt64.toNat) text), c)

/-- Answers queries one by one. -/
def performAll (m : Mapped) (c : Cursor) : List Query → Except Trap (List Reply)
  | [] => .ok []
  | query :: queries => do
    let (reply, c) ← perform m c query
    let replies ← performAll m c queries
    return reply :: replies

/-- Opens a file and answers queries. -/
def run (data : ByteArray) (queries : List Query) :
    Except Trap (Except Error (List Reply)) := do
  match ← parse data with
  | .error e => return .error e
  | .ok header =>
    let replies ← performAll ⟨data, header⟩ .nowhere queries
    return .ok replies

end ConstDb.Machine
