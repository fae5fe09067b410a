import ConstDb.CommandLine.Run

/-! # The command line tool

The outer layer of the tool: it shows a space of files what lies along the paths of a command, runs
the command on that space, prints the outcome, and installs the file that the command made, if it
made one.

The permission bits of existing files cannot be asked for here, only whether a file can be read, so
a database that is replaced without `MCDB_MODE` gets those that new files usually have, and one that
cannot be read stays so. -/

namespace ConstDb.Tool

/-- The file at a path; one that cannot be read has no permission bits. -/
def fileAt (path : String) : IO File := do
  try return ⟨← IO.FS.readBinFile path, 0o644, 0⟩
  catch _ => return ⟨ByteArray.empty, 0, 0⟩

/-- What the operating system has at a path. -/
def nodeAt (path : String) : IO (Option Node) := do
  try
    match (← (← IO.FS.realPath path).metadata).type with
    | .dir => return some .directory
    | _ => return some (.file (← fileAt path))
  catch _ => return none

/-- How many bytes the full path of the working directory has. -/
def workingSize : IO Nat := do
  try return (← IO.currentDir).toString.utf8ByteSize
  catch _ => return 0

/-- Adds what lies along a path to a space of files. -/
def reveal (space : FileSpace) (path : Path) : IO FileSpace := do
  let mut space := space
  let mut loc : Location := []
  let mut shown := if path.isAbsolute then "/" else "./"
  for name in path.names do
    shown := shown ++ Text.Utf8.show name
    if name = Path.dotDot then
      loc := loc.dropLast
    else
      loc := loc ++ [name]
      match ← nodeAt shown with
      | some node => space := space.put loc node
      | none => pure ()
    shown := shown ++ "/"
  return space

/-- The paths that a command works on. -/
def pathsOf : Invocation → List Path
  | .run (.make db input) => if input = Path.ofText "-" then [db] else [db, input]
  | .run (.get db _ _) => [db]
  | .run (.dump db) => [db]
  | .run (.stats db) => [db]
  | .run (.uniq db _) => [db]
  | _ => []

/-- Reads a stream to its end. -/
partial def readAll (stream : IO.FS.Stream) (read : ByteArray) : IO ByteArray := do
  let piece ← stream.read 65536
  if piece.size = 0 then return read else readAll stream (read ++ piece)

/-- The permission bits of a file as the operating system wants them. -/
def rights (mode : Nat) : IO.FileRight :=
  let right (bits : Nat) : IO.AccessRight :=
    ⟨decide (bits / 4 % 2 = 1), decide (bits / 2 % 2 = 1), decide (bits % 2 = 1)⟩
  ⟨right (mode / 64), right (mode / 8), right mode⟩

/-- Installs a file at a path in one step. -/
def install (path : Path) (f : File) : IO Unit := do
  let name := (path.fileName?.map Text.Utf8.show).getD "mcdb"
  let serial ← IO.rand 100000 999999
  let temporary := path.directory.text ++ "/." ++ name ++ "." ++ toString serial ++ ".tmp"
  try
    IO.FS.writeBinFile temporary f.bytes
    IO.setAccessRights temporary (rights f.mode)
    IO.FS.rename temporary path.text
  catch e =>
    try IO.FS.removeFile temporary catch _ => pure ()
    throw e

/-- Runs a command line. -/
def run (args : List String) : IO UInt32 := do
  let invocation := Arguments.parse (args.map String.toUTF8)
  let settings :=
    Settings.ofVariables (← IO.getEnv Settings.modeVariable) (← IO.getEnv Settings.syncVariable)
  let mut space := FileSpace.empty (← workingSize)
  for path in pathsOf invocation do
    space ← reveal space path
  let stdin ←
    match invocation with
    | .run (.make _ input) =>
      if input = Path.ofText "-" then readAll (← IO.getStdin) ByteArray.empty
      else pure ByteArray.empty
    | _ => pure ByteArray.empty
  let (outcome, after) := invocation.perform space settings stdin
  if after.installs ≠ space.installs then
    match pathsOf invocation with
    | db :: _ =>
      match after.file? db with
      | some f => install db f
      | none => pure ()
    | [] => pure ()
  let out ← IO.getStdout
  out.write outcome.output
  out.flush
  match outcome.complaint with
  | some complaint => IO.eprintln complaint.message
  | none => if outcome.status = 2 then IO.eprint Command.usage
  return UInt32.ofNat outcome.status

end ConstDb.Tool

/-- The entry point of the tool. -/
def main (args : List String) : IO UInt32 := do
  try
    ConstDb.Tool.run args
  catch e =>
    IO.eprintln ("mcdbctl: " ++ toString e)
    return 1
