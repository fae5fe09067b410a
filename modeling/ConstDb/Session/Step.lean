import ConstDb.Advice
import ConstDb.CommandLine.Run

/-! # Steps and answers

What may happen in a session, in which any number of builders and readers work on one space of
files, and what each step answers.  Builders and readers are named by numbers. -/

namespace ConstDb

/-- How a one-go build ends: with success or with an error, and in front of that possibly with a
call of `finish` or `cancel` by the one who fills the builder. -/
structure Ending where
  finishes : Bool := false
  cancels : Bool := false
  fails : Bool := false

/-- What may be done with a builder. -/
inductive BuilderStep where
  | add (r : Record)
  | addMany (rs : List Record)
  /-- Adds a key and a value of zeros with the given sizes. -/
  | addZeros (keySize valueSize : Nat)
  | finish
  | cancel
  | status
  | load (input : Input)

/-- What may be done with a reader. -/
inductive ReaderStep where
  | close
  | refresh
  | advise (name : String)
  | size
  | isEmpty
  | unique
  | validate
  | about
  | nth (key : ByteArray) (n : Nat)
  | findKey (key : ByteArray)
  | findNext
  | keyOf (value : ByteArray)
  | count (key : ByteArray)
  | hasKey (key : ByteArray)
  | hasValue (value : ByteArray)
  | findAll (key : ByteArray)
  | valuesAt (keys : List ByteArray)
  | keys
  | values
  | pairs
  | toMap
  | invert
  /-- A scan, call by call. -/
  | scan
  /-- The occurrences of a key, call by call. -/
  | occurrences (key : ByteArray)
  | stats
  | dump (sink : Sink)

/-- A step of a session. -/
inductive Step where
  | write (path : Path) (data : ByteArray)
  /-- Reads the file `source`, overwrites pieces of it, cuts or fills it, appends, and writes the
  file `path`. -/
  | patch (source path : Path) (edits : List (Nat × ByteArray)) (resize : Option Nat)
      (tail : ByteArray)
  | read (path : Path) (start stop : Option Nat)
  | remove (path : Path)
  | makeDirectory (path : Path)
  | removeDirectory (path : Path)
  | mode (path : Path)
  | setMode (path : Path) (mode : Nat)
  | setTime (path : Path) (time : Nat)
  /-- Lists a directory; an empty path stands for the one that paths start from. -/
  | list (path : Path)
  | build (b : Nat) (path : Path) (mode : Option Nat)
  | drop (b : Nat)
  | builder (b : Nat) (step : BuilderStep)
  | create (path : Path) (mode : Option Nat) (rs : List Record) (ending : Ending)
  | open (r : Nat) (path : Path)
  | reader (r : Nat) (step : ReaderStep)
  | command (args : List ByteArray) (stdin : ByteArray) (settings : Settings)

/-- Why a step has no answer of its own. -/
inductive Refusal where
  /-- An operation of the library failed. -/
  | failed (e : Error)
  /-- There is no such file. -/
  | absent
  | noBuilder
  | noReader
  | unknownAdvice (name : String)

/-- What a step gives when it succeeds. -/
inductive Answer where
  | unit
  | flag (b : Bool)
  | number (n : Nat)
  | bytes? (value : Option ByteArray)
  | byteStrings (values : List ByteArray)
  | records (rs : List Record)
  | scanCalls (calls : List (Option (Except Error Record)))
  | occurrenceCalls (calls : List (Option (Except Error ByteArray)))
  | names (names : List String)
  | piece (size : Nat) (bytes : ByteArray)
  | builderStatus (path : Path) (state : String) (building : Bool) (size : Nat)
      (description : String)
  | readerStatus (path : Path) (closed : Bool) (description : String)
  | stats (s : Stats)
  /-- The result of loading, and how many records the builder holds now. -/
  | loaded (result : Except Error Nat) (size : Nat)
  /-- The result of dumping, and the bytes that reached the sink. -/
  | dumped (result : Except Error Nat) (output : ByteArray)
  | outcome (o : Outcome)

end ConstDb
