import ConstDb.Image.Query

/-! # Writing record text

`RecordText.print` gives the text of a list of records: a line for each, and an empty line.  Lengths
are written with the fewest digits.

`Image.dump` writes the records of a database to a sink, line by line.  A sink may fault once it has
taken some number of bytes, or when it is asked to pass on what it holds; what it took before stays.
Of two errors the one that is met first counts, so a full sink hides damage behind the line that did
not fit. -/

namespace ConstDb

namespace RecordText

/-- The line of a record. -/
def line (r : Record) : ByteArray :=
  ("+" ++ toString r.key.size ++ "," ++ toString r.value.size ++ ":").toUTF8
    ++ r.key ++ "->".toUTF8 ++ r.value ++ "\n".toUTF8

/-- The empty line at the end. -/
def terminator : ByteArray := "\n".toUTF8

/-- The lines of records, without the empty line. -/
def lines (rs : List Record) : ByteArray :=
  rs.foldl (fun text r => text ++ line r) ByteArray.empty

/-- The text of records. -/
def print (rs : List Record) : ByteArray := lines rs ++ terminator

/-- Lines behind a text that was there before. -/
theorem foldl_line (before : ByteArray) (rs : List Record) :
    rs.foldl (fun text r => text ++ line r) before = before ++ lines rs := by
  induction rs generalizing before with
  | nil => simp [lines]
  | cons r rest ih =>
    rw [lines, List.foldl_cons, List.foldl_cons, ih, ih, ByteArray.append_assoc,
      ByteArray.empty_append]

theorem lines_cons (r : Record) (rest : List Record) :
    lines (r :: rest) = line r ++ lines rest := by
  rw [lines, List.foldl_cons, foldl_line, ByteArray.empty_append]

theorem print_cons (r : Record) (rest : List Record) :
    print (r :: rest) = line r ++ print rest := by
  rw [print, print, lines_cons, ByteArray.append_assoc]

end RecordText

/-- Takes bytes, up to a point. -/
structure Sink where
  /-- The bytes that the sink took. -/
  taken : ByteArray := ByteArray.empty
  /-- How many more bytes it takes, and its fault when it is given more.  An interruption, after
  which it would only be asked again, is not meant. -/
  room : Option (Nat × Fault) := none
  /-- Its fault when it has to pass on what it holds. -/
  flushFault : Option Fault := none

namespace Sink

/-- Gives bytes to a sink.  A sink without room for all of them takes those that fit. -/
def write (s : Sink) (bytes : ByteArray) : Except Error Unit × Sink :=
  match s.room with
  | none => (.ok (), { s with taken := s.taken ++ bytes })
  | some (room, fault) =>
    if bytes.size ≤ room then
      (.ok (), { s with taken := s.taken ++ bytes, room := some (room - bytes.size, fault) })
    else
      (.error (.stream fault),
        { s with taken := s.taken ++ bytes.extract 0 room, room := some (0, fault) })

/-- Has a sink pass on what it holds. -/
def flush (s : Sink) : Except Error Unit :=
  match s.flushFault with
  | none => .ok ()
  | some fault => .error (.stream fault)

/-- Gives the lines of records to a sink, up to its first fault. -/
def writeLines (s : Sink) : List Record → Except Error Unit × Sink
  | [] => (.ok (), s)
  | r :: rest =>
    match s.write (RecordText.line r) with
    | (.error e, s) => (.error e, s)
    | (.ok (), s) => s.writeLines rest

/-- The front of some bytes that is no less than all of them. -/
private theorem extract_zero_of_le {b : ByteArray} {n : Nat} (h : b.size ≤ n) :
    b.extract 0 n = b := by
  rw [← ByteArray.extract_zero_size (b := b), ByteArray.extract_extract]
  simp [Nat.min_eq_right h]

/-- Into how many pieces bytes are divided makes no difference to a sink. -/
theorem write_append (sink : Sink) (a b : ByteArray) :
    sink.write (a ++ b) =
      match sink.write a with
      | (.error e, sink) => (.error e, sink)
      | (.ok (), sink) => sink.write b := by
  obtain ⟨taken, room, flushFault⟩ := sink
  cases room with
  | none => simp only [write, ByteArray.append_assoc]
  | some entry =>
    obtain ⟨room, fault⟩ := entry
    have hfront : (a ++ b).extract 0 room = a.extract 0 room ++ b.extract 0 (room - a.size) := by
      rw [ByteArray.extract_append, Nat.zero_sub]
    by_cases hfirst : a.size ≤ room
    · have hall : a.size + b.size ≤ room ↔ b.size ≤ room - a.size := by omega
      simp only [write, if_pos hfirst, hall, hfront, extract_zero_of_le hfirst,
        ByteArray.append_assoc, ByteArray.size_append, Nat.sub_add_eq]
    · -- The first piece fills the sink, so nothing of the second is taken.
      have hall : ¬a.size + b.size ≤ room := by omega
      have hnothing : b.extract 0 (room - a.size) = .empty := by
        rw [Nat.sub_eq_zero_of_le (Nat.le_of_not_le hfirst), ByteArray.extract_same]
      simp only [write, if_neg hfirst, ByteArray.size_append, if_neg hall, hfront, hnothing,
        ByteArray.append_empty]

/-- Nor does it that lines are written one by one. -/
theorem writeLines_eq (sink : Sink) (rs : List Record) :
    sink.writeLines rs = sink.write (RecordText.lines rs) := by
  induction rs generalizing sink with
  | nil =>
    obtain ⟨taken, room, flushFault⟩ := sink
    cases room with
    | none => simp [writeLines, write, RecordText.lines]
    | some entry => simp [writeLines, write, RecordText.lines]
  | cons r rest ih => simp only [writeLines, RecordText.lines_cons, write_append, ih]

end Sink

/-- Writes the records of an image as text.  The result is their number. -/
def Image.dump (image : Image) (sink : Sink) : Except Error Nat × Sink :=
  let walk := image.records
  match sink.writeLines walk.items with
  | (.error e, sink) => (.error e, sink)
  | (.ok (), sink) =>
    -- Damage leaves the text without its empty line, so nobody takes it for the whole.
    match walk.failure with
    | some e => (.error e, sink)
    | none =>
      match sink.write RecordText.terminator with
      | (.error e, sink) => (.error e, sink)
      | (.ok (), sink) => (sink.flush.map fun _ => walk.items.length, sink)

end ConstDb
