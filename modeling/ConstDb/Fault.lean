/-! # Faults of input, output and files

A fault is what the operating system, an input or a sink reports when it cannot do what it was
asked: a kind, by which callers tell faults apart, and a text for people.  The faults that a space
of files can raise are constants here. -/

namespace ConstDb

/-- The kinds of fault that the library itself tells apart, and all others by name. -/
inductive FaultKind where
  | notFound
  | notADirectory
  | isADirectory
  | invalidInput
  | interrupted
  | other (name : String)
deriving DecidableEq, Repr

namespace FaultKind

/-- The name of a kind. -/
def name : FaultKind → String
  | notFound => "NotFound"
  | notADirectory => "NotADirectory"
  | isADirectory => "IsADirectory"
  | invalidInput => "InvalidInput"
  | interrupted => "Interrupted"
  | other name => name

/-- The kind with a given name. -/
def ofName (s : String) : FaultKind :=
  if s = "NotFound" then notFound
  else if s = "NotADirectory" then notADirectory
  else if s = "IsADirectory" then isADirectory
  else if s = "InvalidInput" then invalidInput
  else if s = "Interrupted" then interrupted
  else other s

theorem name_ofName (s : String) : (ofName s).name = s := by
  unfold ofName
  repeat' split
  all_goals simp_all [name]

end FaultKind

/-- A fault of input, output or files. -/
structure Fault where
  kind : FaultKind
  text : String
  /-- Whether the text quotes the name of a temporary file, which no two runs share. -/
  quotesTemporary : Bool := false
deriving DecidableEq, Repr

namespace Fault

/-- There is no such file or directory. -/
def notFound : Fault := ⟨.notFound, "No such file or directory (os error 2)", false⟩

/-- A file stands where a path needs a directory. -/
def notADirectory : Fault := ⟨.notADirectory, "Not a directory (os error 20)", false⟩

/-- A directory stands where a file is needed. -/
def isADirectory : Fault := ⟨.isADirectory, "Is a directory (os error 21)", false⟩

/-- A name or a path is longer than the operating system allows. -/
def nameTooLong : Fault := ⟨.other "InvalidFilename", "File name too long (os error 36)", false⟩

/-- A path holds the null character. -/
def nullInName : Fault :=
  ⟨.invalidInput, "file name contained an unexpected NUL byte", false⟩

/-- A file may not be read. -/
def permissionDenied : Fault :=
  ⟨.other "PermissionDenied", "Permission denied (os error 13)", false⟩

/-- A directory is in use by its own name. -/
def busy : Fault := ⟨.other "ResourceBusy", "Device or resource busy (os error 16)", false⟩

/-- A directory cannot be mapped into memory. -/
def noSuchDevice : Fault := ⟨.other "Uncategorized", "No such device (os error 19)", false⟩

/-- A database can only replace a regular file. -/
def notRegular : Fault := ⟨.invalidInput, "target exists and is not a regular file", false⟩

end Fault

end ConstDb
