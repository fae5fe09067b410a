import ConstDb.FileSpace.Basic
import ConstDb.Image.Audit
import ConstDb.RecordText.Print
import ConstDb.Text.Quoted

/-! # Readers

A reader keeps the image that a path had when it was opened.  Whatever happens to the path, the
reader goes on with that image until `refresh` finds that the size or the time of the file changed
and takes the new one.

A reader has a cursor for the occurrences of one key: `findKey` puts it on the first one and
`findNext` moves it on.  The cursor remembers where in the image the key stands, not the key itself.
A closed reader answers nothing. -/

namespace ConstDb

/-- An image, and the time of the file that it is from. -/
structure Mapping where
  image : Image
  time : Nat

/-- The file at a path as an image. -/
def Mapping.load (s : FileSpace) (path : Path) : Except Error Mapping :=
  match s.openNode path with
  | .error fault => .error (.file (.path path) fault)
  | .ok .directory => .error (.file (.path path) .noSuchDevice)
  | .ok (.file f) =>
    if f.bytes.size < Layout.headerSize then
      .error (.format 0 (.fileTooSmall path f.bytes.size))
    else (Image.ofBytes f.bytes).map fun image => ⟨image, f.time⟩

/-- A search that goes on from call to call, and where its key stands in the image: in the first
record that was found. -/
structure Cursor where
  probe : Probe
  keyStart : Nat
  keySize : Nat
deriving DecidableEq, Repr

/-- The key that a cursor looks for. -/
def Cursor.key (image : Image) (c : Cursor) : ByteArray :=
  image.bytes.extract c.keyStart (c.keyStart + c.keySize)

/-- A view of the database that a path had at some moment. -/
structure Reader where
  path : Path
  /-- Nothing once the reader is closed. -/
  mapping : Option Mapping
  /-- The search that `findNext` goes on with. -/
  cursor : Option Cursor

namespace Reader

/-- Opens the database at a path. -/
def «open» (s : FileSpace) (path : Path) : Except Error Reader :=
  (Mapping.load s path).map fun mapping => ⟨path, some mapping, none⟩

/-- The mapping of a reader that is not closed. -/
def current (r : Reader) : Except Error Mapping :=
  match r.mapping with
  | none => .error (.misuse .readerClosed)
  | some mapping => .ok mapping

/-- Asks a question of the image of a reader. -/
def ask {α : Type} (r : Reader) (question : Image → Except Error α) : Except Error α :=
  match r.current with
  | .error e => .error e
  | .ok mapping => question mapping.image

/-- Whether a reader is closed. -/
def isClosed (r : Reader) : Bool := r.mapping.isNone

/-- Closes a reader. -/
def close (r : Reader) : Except Error Reader :=
  r.current.map fun _ => { r with mapping := none, cursor := none }

/-- Takes the file that is at the path now, if its size or time differs from what the reader has.
The result tells whether it did.  Only a file that differs has to be readable.  A reader that cannot
take the file stays as it is. -/
def refresh (r : Reader) (s : FileSpace) : Except Error (Bool × Reader) :=
  match r.current with
  | .error e => .error e
  | .ok mapping =>
    match s.stat r.path with
    | .error fault => .error (.file (.path r.path) fault)
    | .ok node =>
      -- Size and time stand for the content: a file that agrees in both counts as unchanged.
      let same :=
        match node with
        | .directory => false
        | .file f => decide (f.bytes.size = mapping.image.bytes.size ∧ f.time = mapping.time)
      if same then .ok (false, r)
      else
        (Mapping.load s r.path).map fun fresh =>
          (true, { r with mapping := some fresh, cursor := none })

/-- A line that describes a reader. -/
def describe (r : Reader) : String :=
  let state :=
    match r.mapping with
    | none => "closed: true"
    | some m =>
      "bytes: " ++ toString m.image.bytes.size ++ ", records: " ++ toString m.image.recordCount
  "Reader \x7b path: " ++ Text.quote r.path.bytes ++ ", " ++ state ++ " \x7d"

/-- Puts the cursor on the first occurrence of a key.  When there is none, the cursor is nowhere. -/
def findKey (r : Reader) (key : ByteArray) : Except Error (Option ByteArray) × Reader :=
  match r.current with
  | .error e => (.error e, r)
  | .ok mapping =>
    let image := mapping.image
    match Probe.start? image key with
    | none => (.ok none, { r with cursor := none })
    | some p =>
      match p.next image key with
      | (.error e, _) => (.error e, { r with cursor := none })
      | (.ok none, _) => (.ok none, { r with cursor := none })
      | (.ok (some hit), q) =>
        (.ok (some (hit.value image)),
          { r with cursor := some ⟨q, hit.stored.keyStart, hit.stored.keySize⟩ })

/-- Moves the cursor to the next occurrence.  At the last one, and on an error, it is nowhere. -/
def findNext (r : Reader) : Except Error (Option ByteArray) × Reader :=
  match r.current with
  | .error e => (.error e, r)
  | .ok mapping =>
    let image := mapping.image
    match r.cursor with
    | none => (.ok none, r)
    | some c =>
      match c.probe.next image (c.key image) with
      | (.error e, _) => (.error e, { r with cursor := none })
      | (.ok none, _) => (.ok none, { r with cursor := none })
      | (.ok (some hit), q) =>
        (.ok (some (hit.value image)), { r with cursor := some { c with probe := q } })

/-- Writes all records to a sink as text. -/
def dump (r : Reader) (sink : Sink) : Except Error Nat × Sink :=
  match r.current with
  | .error e => (.error e, sink)
  | .ok mapping => mapping.image.dump sink

end Reader

end ConstDb
