import ConstDb.Fault
import ConstDb.FileSpace.Path
import ConstDb.Text.Number

/-! # Errors

Why an operation of the library fails, as a value: a fault of a file or a stream, malformed bytes, a
call out of turn, or a size beyond the limits of the format.  Absence of a key is not an error.

Each cause is a constructor; the wording is in `Reason.text`, `Misuse.text` and `Error.message` and
nowhere else. -/

namespace ConstDb

/-- Why bytes are no database, no record or no record text. -/
inductive Reason where
  /-- The bytes end before the header does. -/
  | headerTooSmall (size : Nat)
  /-- The file at `path` ends before the header does. -/
  | fileTooSmall (path : Path) (size : Nat)
  /-- The record region ends inside the header or past the end of the file. -/
  | recordEndOutside (recordEnd headerSize fileSize : Nat)
  /-- The slot table of a bucket does not start where the one before it ends. -/
  | tableMisplaced (bucket start expected : Nat)
  /-- The slot table of a bucket runs past the end of the file. -/
  | tableTooLong (bucket slots fileSize : Nat)
  /-- The last slot table ends before the file does. -/
  | tablesEndEarly (tablesEnd fileSize : Nat)
  | slotOutside
  | recordHeaderTruncated
  | keyTruncated (size : Nat)
  | valueTruncated (size : Nat)
  /-- The mark of padding stands where at least one more alignment unit follows. -/
  | paddingInside
  /-- The search for a record's key does not meet the record. -/
  | unreachable
  /-- The record region holds another number of records than the slot tables have room for. -/
  | countMismatch (scanned indexed : Nat)
  | expectedRecord (got : UInt8)
  | expectedByte (want : Char) (got : UInt8)
  | endExpectingByte (want : Char)
  | expectedDigit (terminator : Char) (got : UInt8)
  | endInLength
  | lengthOverflow
  | endInField (wanted got : Nat)
  | other (text : String)
deriving DecidableEq, Repr

namespace Reason

/-- A separator of the record text in quotes; the line feed is written as an escape. -/
def quoteSeparator (c : Char) : String :=
  if c = '\n' then "'\\n'" else "'" ++ String.singleton c ++ "'"

/-- A byte as two hexadecimal digits. -/
def showByte (b : UInt8) : String := Text.hex 2 b.toNat

/-- The wording of a reason. -/
def text : Reason → String
  | headerTooSmall size => "file of " ++ toString size ++ " bytes is too small for the header"
  | fileTooSmall path size =>
    path.text ++ ": file of " ++ toString size ++ " bytes is too small for the header"
  | recordEndOutside recordEnd headerSize fileSize =>
    "record region end " ++ toString recordEnd ++ " outside [" ++ toString headerSize ++ ", "
      ++ toString fileSize ++ "]"
  | tableMisplaced bucket start expected =>
    "bucket " ++ toString bucket ++ " table at " ++ toString start ++ " but expected "
      ++ toString expected
  | tableTooLong bucket slots fileSize =>
    "bucket " ++ toString bucket ++ " table of " ++ toString slots
      ++ " slots exceeds file size " ++ toString fileSize
  | tablesEndEarly tablesEnd fileSize =>
    "slot tables end at " ++ toString tablesEnd ++ " but file is " ++ toString fileSize ++ " bytes"
  | slotOutside => "slot lies outside the file"
  | recordHeaderTruncated => "record header runs past the record region"
  | keyTruncated size => "key of " ++ toString size ++ " bytes is truncated"
  | valueTruncated size => "value of " ++ toString size ++ " bytes is truncated"
  | paddingInside => "padding marker inside the record region"
  | unreachable => "record is not reachable through the index"
  | countMismatch scanned indexed =>
    "record region holds " ++ toString scanned ++ " records but slot tables index "
      ++ toString indexed
  | expectedRecord got => "expected '+' or blank line, got " ++ showByte got
  | expectedByte want got => "expected " ++ quoteSeparator want ++ ", got " ++ showByte got
  | endExpectingByte want => "unexpected end of input, expected " ++ quoteSeparator want
  | expectedDigit terminator got =>
    "expected digit or " ++ quoteSeparator terminator ++ ", got " ++ showByte got
  | endInLength => "unexpected end of input in length"
  | lengthOverflow => "length does not fit in 32 bits"
  | endInField wanted got =>
    "unexpected end of input: wanted " ++ toString wanted ++ " bytes, got " ++ toString got
  | other text => text

end Reason

/-- A call out of turn. -/
inductive Misuse where
  | alreadyFinished
  | canceled
  | readerClosed
  | other (text : String)
deriving DecidableEq, Repr

/-- The wording of a misuse. -/
def Misuse.text : Misuse → String
  | alreadyFinished => "builder is already finished"
  | canceled => "builder was canceled"
  | readerClosed => "reader is closed"
  | other text => text

/-- What the format limits. -/
inductive Quantity where
  | keyLength
  | valueLength
  | recordCount
  | other (name : String)
deriving DecidableEq, Repr

/-- The name of a limited quantity. -/
def Quantity.name : Quantity → String
  | keyLength => "key length"
  | valueLength => "value length"
  | recordCount => "record count"
  | other name => name

/-- A file as an error names it. -/
inductive FileName where
  /-- The path as the caller wrote it. -/
  | path (p : Path)
  /-- The temporary file that stands in for the database `target` while it is built. -/
  | temporary (target : String)
deriving DecidableEq, Repr

/-- The text of a file name; the part of a temporary name that differs from run to run is a star. -/
def FileName.text : FileName → String
  | path p => p.text
  | temporary target => "." ++ target ++ ".*.tmp"

/-- Why an operation failed. -/
inductive Error where
  /-- A fault of a known file. -/
  | file (name : FileName) (fault : Fault)
  /-- A fault of an input or an output. -/
  | stream (fault : Fault)
  /-- Malformed bytes, with the offset where they were found out. -/
  | format (offset : Nat) (reason : Reason)
  /-- A call out of turn. -/
  | misuse (cause : Misuse)
  /-- A size beyond the limits of the format. -/
  | limit (what : Quantity) (size bound : Nat)
deriving DecidableEq, Repr

/-- The coarse class of an error. -/
inductive ErrorClass where
  | io
  | format
  | state
  | limit
deriving DecidableEq, Repr

/-- The name of a class. -/
def ErrorClass.name : ErrorClass → String
  | io => "Io"
  | format => "Format"
  | state => "State"
  | limit => "Limit"

namespace Error

/-- The fault behind an error, if it has one. -/
def fault? : Error → Option Fault
  | file _ fault => some fault
  | stream fault => some fault
  | _ => none

/-- The class of an error. -/
def errorClass : Error → ErrorClass
  | file .. => .io
  | stream .. => .io
  | format .. => .format
  | misuse .. => .state
  | limit .. => .limit

/-- Whether a missing file is the cause. -/
def isNotFound (e : Error) : Bool :=
  e.fault?.any fun fault => decide (fault.kind = .notFound)

/-- The text of an error. -/
def message : Error → String
  | file name fault => "io error on " ++ name.text ++ ": " ++ fault.text
  | stream fault => "io error: " ++ fault.text
  | format offset reason => "malformed data at offset " ++ toString offset ++ ": " ++ reason.text
  | misuse cause => "invalid state: " ++ cause.text
  | limit what size bound =>
    what.name ++ " of " ++ toString size ++ " exceeds the limit of " ++ toString bound

/-- The text of an error followed by that of the fault behind it. -/
def chain (e : Error) : String :=
  match e.fault? with
  | some fault => e.message ++ ": " ++ fault.text
  | none => e.message

/-- Whether the text names a temporary file, whose name no two runs share. -/
def namesTemporary : Error → Bool
  | file (.temporary _) _ => true
  | file _ fault => fault.quotesTemporary
  | stream fault => fault.quotesTemporary
  | _ => false

end Error

end ConstDb
