import ConstDb.Image.Probe
import ConstDb.Image.Scan
import Std.Data.TreeMap

/-! # Queries

What can be asked of an image.  Some questions go through the index, by a probe for one key: its
occurrences, the `n`-th of them, their number.  The others go through a scan of all records: the
keys, the values, the pairs, the key of a value, and the two maps.

Bytes are taken out of the file only for an answer that holds them.

An error counts only when it is met before the answer is known: `nth` does not look behind the
occurrence it was asked for, nor `keyOf` behind the first record with the value. -/

namespace ConstDb

/-- A map between byte strings, in the order of its keys. -/
abbrev ByteMap := Std.TreeMap ByteArray ByteArray ByteArray.compareBytes

namespace Image

/-! ## Through the index -/

/-- All records of a key that the index leads to, in build order. -/
def hits (image : Image) (key : ByteArray) : Walk Hit :=
  match Probe.start? image key with
  | none => .empty
  | some p => p.hits image key

/-- All values of a key, in build order. -/
def occurrences (image : Image) (key : ByteArray) : Walk ByteArray :=
  (image.hits key).map (Hit.value image)

/-- The value `n` hits behind the place where a probe for the key stands. -/
def nthFrom (image : Image) (key : ByteArray) (p : Probe) (n : Nat) :
    Except Error (Option ByteArray) :=
  match p.next image key with
  | (.error e, _) => .error e
  | (.ok none, _) => .ok none
  | (.ok (some hit), q) =>
    match n with
    | 0 => .ok (some (hit.value image))
    | n + 1 => image.nthFrom key q n

/-- The value of occurrence `n` of a key, counted from 0. -/
def nth (image : Image) (key : ByteArray) (n : Nat) : Except Error (Option ByteArray) :=
  match Probe.start? image key with
  | none => .ok none
  | some p => image.nthFrom key p n

/-- The value of the first occurrence of a key. -/
def first (image : Image) (key : ByteArray) : Except Error (Option ByteArray) :=
  image.nth key 0

/-- How often a key occurs. -/
def count (image : Image) (key : ByteArray) : Except Error Nat :=
  (image.hits key).toExcept.map List.length

/-- Whether a key occurs. -/
def containsKey (image : Image) (key : ByteArray) : Except Error Bool :=
  (image.first key).map Option.isSome

/-- All values of a key, unless damage is met. -/
def findAll (image : Image) (key : ByteArray) : Except Error (List ByteArray) :=
  (image.hits key).toExcept.map fun hits => hits.map (Hit.value image)

/-- A key is counted by its occurrences. -/
theorem count_eq (image : Image) (key : ByteArray) :
    image.count key = (image.occurrences key).toExcept.map List.length := by
  simp only [count, occurrences, Walk.toExcept_map]
  cases (image.hits key).toExcept <;> simp [Except.map]

/-- The values of a key are those of its occurrences. -/
theorem findAll_eq (image : Image) (key : ByteArray) :
    image.findAll key = (image.occurrences key).toExcept :=
  (Walk.toExcept_map ..).symm

/-- All records of several keys, one key after the other. -/
def hitsAt (image : Image) : List ByteArray → Except Error (List Hit)
  | [] => .ok []
  | key :: keys =>
    match (image.hits key).toExcept with
    | .error e => .error e
    | .ok hits => (image.hitsAt keys).map (hits ++ ·)

/-- All values of several keys, one key after the other. -/
def valuesAt (image : Image) (keys : List ByteArray) : Except Error (List ByteArray) :=
  (image.hitsAt keys).map fun hits => hits.map (Hit.value image)

@[simp] theorem valuesAt_nil (image : Image) : image.valuesAt [] = .ok [] := rfl

theorem valuesAt_cons (image : Image) (key : ByteArray) (keys : List ByteArray) :
    image.valuesAt (key :: keys) =
      match image.findAll key with
      | .error e => .error e
      | .ok values => (image.valuesAt keys).map (values ++ ·) := by
  simp only [valuesAt, hitsAt, findAll]
  cases (image.hits key).toExcept with
  | error e => rfl
  | ok hits => cases image.hitsAt keys <;> simp [Except.map]

/-! ## Through a scan -/

/-- The key of the first record that has the value. -/
def keyOf (image : Image) (value : ByteArray) : Except Error (Option ByteArray) :=
  image.scan.firstSome fun s =>
    if s.value image.bytes = value then some (s.key image.bytes) else none

/-- Whether some record has the value. -/
def containsValue (image : Image) (value : ByteArray) : Except Error Bool :=
  (image.keyOf value).map Option.isSome

/-- All records, in build order. -/
def pairs (image : Image) : Except Error (List Record) := image.records.toExcept

/-- All keys, in build order and with repetitions. -/
def keys (image : Image) : Except Error (List ByteArray) :=
  image.pairs.map fun rs => rs.map Record.key

/-- All values, in build order. -/
def values (image : Image) : Except Error (List ByteArray) :=
  image.pairs.map fun rs => rs.map Record.value

/-- Each key with its last value. -/
def toMap (image : Image) : Except Error ByteMap :=
  image.pairs.map fun rs => rs.foldl (fun m r => m.insert r.key r.value) ∅

/-- Each value with the key of the last record that has it. -/
def invert (image : Image) : Except Error ByteMap :=
  image.pairs.map fun rs => rs.foldl (fun m r => m.insert r.value r.key) ∅

end Image

end ConstDb
