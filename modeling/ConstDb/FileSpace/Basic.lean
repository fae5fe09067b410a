import ConstDb.Error
import ConstDb.FileSpace.Path

/-! # Spaces of files

A space of files is a tree of directories and files below one top directory, in memory.  A file has
bytes, permission bits and a time of change.  Files are only ever replaced as a whole: `install`
puts a new file in the place of the old one and stamps it with the time that the clock shows.

The clock is that of the file system.  It is a part of every space and may be any: it may stand
still, so that files which are written one after the other have the same time, and it may go back.
What depends on times says what it asks of the clock.

Everything here is done by the owner of all files.  The permission bits bind the owner in one way:
a file is only opened to be read if they let its owner read it (`openNode`).  Replacing, removing
and asking about a file never needs them.

The disk is assumed to work: there is room for what is written, and an operation that names and
places allow does not fail for another reason.  So writing to a file that was created, moving in it,
flushing it and setting its permission bits never fail, and neither does the removal of a temporary
file that its path still leads to.

A database that is being built has a temporary file in the directory of its target.  Nobody reads
it, so only its existence is kept, apart from the other files: `temporaries`. -/

namespace ConstDb

/-- Where an entry lies: the names from the top directory down. -/
abbrev Location := List Path.Part

/-- A regular file. -/
structure File where
  bytes : ByteArray
  mode : Nat
  time : Nat

/-- Whether the permission bits of a file let its owner read it: the bit `0o400`. -/
def File.isReadable (f : File) : Bool := f.mode.testBit 8

/-- An entry of a directory. -/
inductive Node where
  | file (f : File)
  | directory

/-- A temporary file: its directory, the name of the database it will replace, and a serial number.
-/
structure TemporaryFile where
  location : Location
  target : String
  serial : Nat
deriving DecidableEq

/-- A temporary file as its owner knows it: by the path of its directory. -/
structure TemporaryHandle where
  directory : Path
  target : String
  serial : Nat
deriving DecidableEq

/-- A tree of files, with the temporary files in it. -/
structure FileSpace where
  /-- How many bytes the full path of the top directory has. -/
  topSize : Nat
  /-- The time that each new file is stamped with: `clock n` for the one that is installed as the
  `n`-th, counted from 1. -/
  clock : Nat → Nat
  nodes : List (Location × Node)
  temporaries : List TemporaryFile
  /-- How many files were installed. -/
  installs : Nat
  /-- How many temporary files were created. -/
  serials : Nat

namespace FileSpace

/-- The space with nothing but its top directory, whose full path has `topSize` bytes. -/
def start (topSize : Nat) (clock : Nat → Nat) : FileSpace := ⟨topSize, clock, [], [], 0, 0⟩

/-- The same with a clock that counts the new files. -/
def empty (topSize : Nat) : FileSpace := start topSize id

/-- What lies at a location. -/
def node? (s : FileSpace) (loc : Location) : Option Node :=
  if loc = [] then some .directory else s.nodes.lookup loc

/-- Follows names from a directory.  Only the last name may lead to nothing. -/
def follow (s : FileSpace) : Location → List Path.Part → Except Fault Location
  | loc, [] => .ok loc
  | loc, name :: rest =>
    match s.node? loc with
    | none => .error .notFound
    | some (.file _) => .error .notADirectory
    | some .directory =>
      -- The length of a name matters only once there is a directory to look it up in.
      if Path.maxNameSize < name.length then .error .nameTooLong
      else s.follow (if name = Path.dotDot then loc.dropLast else loc ++ [name]) rest

/-- Refuses bytes that are no path, whatever the space holds. -/
def checkPath (path : Path) : Except Fault Unit :=
  if 0 ∈ path.bytes then .error .nullInName
  else if path.bytes = [] then .error .notFound
  else if Path.maxSize < path.bytes.length then .error .nameTooLong
  else .ok ()

/-- The location that a path names, whatever is there. -/
def locate (s : FileSpace) (path : Path) : Except Fault Location :=
  match checkPath path with
  | .error fault => .error fault
  | .ok () => s.follow [] path.names

/-- The location that a path names.  There need not be anything, but if there is a file, the path
must not mean a directory. -/
def resolve (s : FileSpace) (path : Path) : Except Fault Location :=
  match s.locate path with
  | .error fault => .error fault
  | .ok loc =>
    match s.node? loc with
    | some (.file _) => if path.meansDirectory then .error .notADirectory else .ok loc
    | _ => .ok loc

/-- What a path leads to. -/
def stat (s : FileSpace) (path : Path) : Except Fault Node :=
  match s.resolve path with
  | .error fault => .error fault
  | .ok loc =>
    match s.node? loc with
    | none => .error .notFound
    | some node => .ok node

/-- The file that a path leads to, if it leads to one. -/
def file? (s : FileSpace) (path : Path) : Option File :=
  match s.stat path with
  | .ok (.file f) => some f
  | _ => none

/-- Opens what a path leads to.  A directory can always be opened, a file only if it is readable. -/
def openNode (s : FileSpace) (path : Path) : Except Fault Node :=
  match s.stat path with
  | .error fault => .error fault
  | .ok .directory => .ok .directory
  | .ok (.file f) => if f.isReadable then .ok (.file f) else .error .permissionDenied

/-- Permission bits decide nothing but whether the file that is there may be opened. -/
theorem openNode_eq_ok_file_iff {s : FileSpace} {path : Path} {f : File} :
    s.openNode path = .ok (.file f) ↔ s.stat path = .ok (.file f) ∧ f.isReadable := by
  unfold openNode
  cases s.stat path with
  | error fault => simp
  | ok node =>
    cases node with
    | directory => simp
    | file g =>
      by_cases hg : g.isReadable
      · simp only [hg, if_true, Except.ok.injEq, Node.file.injEq]
        exact ⟨fun h => ⟨h, h ▸ hg⟩, And.left⟩
      · simp only [hg, if_false, Except.ok.injEq, Node.file.injEq, reduceCtorEq, false_iff]
        rintro ⟨rfl, hf⟩
        exact hg hf

/-- The file that a path leads to, if it leads to one that can be read. -/
def readable? (s : FileSpace) (path : Path) : Option File :=
  match s.openNode path with
  | .ok (.file f) => some f
  | _ => none

/-- The location of the directory that a path leads to. -/
def resolveDirectory (s : FileSpace) (path : Path) : Except Fault Location :=
  match s.resolve path with
  | .error fault => .error fault
  | .ok loc =>
    match s.node? loc with
    | none => .error .notFound
    | some (.file _) => .error .notADirectory
    | some .directory => .ok loc

/-- Puts an entry at a location, in the place of what was there. -/
def put (s : FileSpace) (loc : Location) (node : Node) : FileSpace :=
  { s with nodes := (loc, node) :: s.nodes.filter fun entry => decide (entry.1 ≠ loc) }

/-- What was put at a location lies there; the top directory cannot be replaced. -/
theorem node?_put_self (s : FileSpace) {loc : Location} (node : Node) (h : loc ≠ []) :
    (s.put loc node).node? loc = some node := by
  simp [node?, put, h]

/-- Putting an entry at a location changes no other location. -/
theorem node?_put_of_ne (s : FileSpace) {loc other : Location} (node : Node) (h : other ≠ loc) :
    (s.put loc node).node? other = s.node? other := by
  have hne : (other == loc) = false := by simp [h]
  simp only [node?, put, List.lookup_cons, hne]
  split
  · rfl
  · -- The entries that the filter drops are all at `loc`.
    induction s.nodes with
    | nil => rfl
    | cons entry rest ih =>
      obtain ⟨l, n⟩ := entry
      by_cases hl : l = loc
      · subst hl
        simpa [List.lookup_cons, hne] using ih
      · simp only [List.filter_cons, hl, ne_eq, not_false_eq_true, decide_true, if_true,
          List.lookup_cons]
        split
        · rfl
        · exact ih

/-- The time that the next new file is stamped with. -/
def stamp (s : FileSpace) : Nat := s.clock (s.installs + 1)

/-- Puts a new file at a location and stamps it. -/
def install (s : FileSpace) (loc : Location) (bytes : ByteArray) (mode : Nat) : FileSpace :=
  { s.put loc (.file ⟨bytes, mode, s.stamp⟩) with installs := s.installs + 1 }

/-- Replaces what lies at a path by a new file. -/
def write (s : FileSpace) (path : Path) (bytes : ByteArray) (mode : Nat) :
    Except Fault FileSpace :=
  match s.resolve path with
  | .error fault => .error fault
  | .ok loc =>
    match s.node? loc with
    | some .directory => .error .isADirectory
    | _ => .ok (s.install loc bytes mode)

/-- Changes the file at a path without replacing it. -/
def modifyFile (s : FileSpace) (path : Path) (change : File → File) : Except Fault FileSpace :=
  match s.resolve path with
  | .error fault => .error fault
  | .ok loc =>
    match s.node? loc with
    | none => .error .notFound
    | some .directory => .error .isADirectory
    | some (.file f) => .ok (s.put loc (.file (change f)))

/-- Removes the file at a path. -/
def remove (s : FileSpace) (path : Path) : Except Fault FileSpace :=
  match s.resolve path with
  | .error fault => .error fault
  | .ok loc =>
    match s.node? loc with
    | none => .error .notFound
    | some .directory => .error .isADirectory
    | some (.file _) =>
      .ok { s with nodes := s.nodes.filter fun entry => decide (entry.1 ≠ loc) }

/-- Makes a directory where there is nothing. -/
def makeDirectory (s : FileSpace) (path : Path) : Except Fault FileSpace :=
  match s.resolve path with
  | .error fault => .error fault
  | .ok loc =>
    match s.node? loc with
    | some _ => .error ⟨.other "AlreadyExists", "File exists (os error 17)", false⟩
    | none => .ok (s.put loc .directory)

/-- Removes a directory with everything in it, temporary files too. -/
def removeDirectory (s : FileSpace) (path : Path) : Except Fault FileSpace :=
  match s.resolveDirectory path with
  | .error fault => .error fault
  | .ok loc =>
    .ok { s with
      nodes := s.nodes.filter fun entry => !loc.isPrefixOf entry.1
      temporaries := s.temporaries.filter fun t => !loc.isPrefixOf t.location }

/-- The names in a directory in order, temporary files under the names that they show. -/
def list (s : FileSpace) (path : Path) : Except Fault (List String) :=
  match s.resolveDirectory path with
  | .error fault => .error fault
  | .ok loc =>
    let lies (l : Location) : Option String :=
      if l.dropLast = loc then l.getLast?.map Text.Utf8.show else none
    let names := s.nodes.filterMap fun entry => lies entry.1
    let masked := s.temporaries.filterMap fun t =>
      if t.location = loc then some (FileName.temporary t.target).text else none
    .ok ((names ++ masked).mergeSort fun a b => decide (a ≤ b))

/-! ## Temporary files -/

/-- A fault that is met at a temporary file and quotes its name. -/
def atTemporary (fault : Fault) (directory : Path) (target : String) : Fault :=
  let shown := "\"" ++ directory.text ++ "/" ++ (FileName.temporary target).text ++ "\""
  ⟨fault.kind, fault.text ++ " at path " ++ shown, true⟩

/-- How many bytes the name of a temporary file has more than that of its target: a dot in front,
and behind it a dot, six characters that no other name shares, and the ending. -/
def temporaryExtra : Nat := 12

/-- How many bytes the full path of an entry of a directory has, when its name has `nameSize`. -/
def fullSize (s : FileSpace) (directory : Path) (nameSize : Nat) : Nat :=
  let above := if directory.isAbsolute then 0 else s.topSize + 1
  above + directory.bytes.length + 1 + nameSize

/-- Creates a temporary file in a directory.  Its name holds that of its target as text, which may
be longer than the name itself.  A temporary file goes by its full path, so that it is found again
whatever the working directory is by then; hence that path must not be too long. -/
def createTemporary (s : FileSpace) (directory : Path) (target : String) :
    Except Fault (TemporaryHandle × FileSpace) :=
  let nameSize := target.utf8ByteSize + temporaryExtra
  if Path.maxSize < s.fullSize directory nameSize then
    .error (atTemporary .nameTooLong directory target)
  else
    match s.resolveDirectory directory with
    | .error fault => .error (atTemporary fault directory target)
    | .ok loc =>
      if Path.maxNameSize < nameSize then .error (atTemporary .nameTooLong directory target)
      else
        .ok (⟨directory, target, s.serials⟩,
          { s with
            temporaries := ⟨loc, target, s.serials⟩ :: s.temporaries
            serials := s.serials + 1 })

/-- The temporary file that a handle leads to. -/
def findTemporary (s : FileSpace) (t : TemporaryHandle) : Except Fault TemporaryFile :=
  match s.resolveDirectory t.directory with
  | .error fault => .error fault
  | .ok loc =>
    let found : TemporaryFile := ⟨loc, t.target, t.serial⟩
    if found ∈ s.temporaries then .ok found else .error .notFound

/-- Removes a temporary file. -/
def removeTemporary (s : FileSpace) (t : TemporaryHandle) : Except Fault FileSpace :=
  match s.findTemporary t with
  | .error fault => .error (atTemporary fault t.directory t.target)
  | .ok found => .ok { s with temporaries := s.temporaries.filter fun u => decide (u ≠ found) }

/-- Removes a temporary file if it can be removed. -/
def discardTemporary (s : FileSpace) (t : TemporaryHandle) : FileSpace :=
  match s.removeTemporary t with
  | .error _ => s
  | .ok s => s

/-- Turns a temporary file, which holds `bytes`, into the file at a path.  What was there is
replaced in one step; a directory cannot be replaced. -/
def replaceBy (s : FileSpace) (t : TemporaryHandle) (path : Path) (bytes : ByteArray)
    (mode : Nat) : Except Fault FileSpace :=
  match s.resolveDirectory t.directory with
  | .error fault => .error fault
  | .ok _ =>
    match s.locate path with
    | .error fault => .error fault
    | .ok loc =>
      -- A directory under its own name comes before the temporary file, and that before anything
      -- else that may be at the path.
      if path.endsInDot then
        match s.node? loc with
        | none => .error .notFound
        | some (.file _) => .error .notADirectory
        | some .directory => .error .busy
      else
        match s.findTemporary t with
        | .error fault => .error fault
        | .ok found =>
          if path.meansDirectory then .error .notADirectory
          else
            match s.node? loc with
            | some .directory => .error .isADirectory
            | _ =>
              .ok ({ s with
                temporaries := s.temporaries.filter fun u => decide (u ≠ found) }.install
                loc bytes mode)

end FileSpace

end ConstDb
