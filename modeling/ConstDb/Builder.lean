import ConstDb.Draft
import ConstDb.FileSpace.Basic
import ConstDb.RecordText.Parse
import ConstDb.Settings
import ConstDb.Text.Quoted

/-! # Builders

A builder makes a database and puts it in the place of its target in one step.  While it is building
it owns a temporary file next to the target; the target is not touched before `finish`.  A builder
that finished or was canceled, also by a `finish` that failed, accepts nothing more.

`create` runs a whole session: it opens a builder, lets `fill` work on it, and finishes it if `fill`
succeeds and cancels it if not.

The disk is assumed to work, as it is everywhere (see `FileSpace`).  A temporary file that was
created can be written, and `open` and `add` do not fail because of it.  In `finish` only the last
step may fail, which puts the file in the place of the target: moving in the file, flushing it and
setting its permission bits succeed.  A temporary file can be removed as long as its path leads to
it.  Whether `finish` waits until the file is on the disk makes no difference then, so there is no
choice of it here. -/

namespace ConstDb

/-- Where a builder is in its life.  Only a builder at work owns a temporary file. -/
inductive BuildState where
  | building (temporary : TemporaryHandle)
  | finished
  | canceled

/-- The name of a state. -/
def BuildState.name : BuildState → String
  | building _ => "Building"
  | finished => "Finished"
  | canceled => "Canceled"

/-- A database in the making, and where it will go. -/
structure Builder where
  path : Path
  /-- The permission bits of the new file. -/
  mode : Nat
  state : BuildState
  draft : Draft

namespace Builder

/-- Whether records may still be added. -/
def isBuilding (b : Builder) : Bool :=
  match b.state with
  | .building _ => true
  | _ => false

/-- How many records were added. -/
def size (b : Builder) : Nat := b.draft.size

/-- A line that describes a builder. -/
def describe (b : Builder) : String :=
  "Builder \x7b path: " ++ Text.quote b.path.bytes ++ ", state: " ++ b.state.name
    ++ ", records: " ++ toString b.size ++ ", bytes: " ++ toString b.draft.position ++ " \x7d"

/-- The temporary file of a builder at work; an error for any other. -/
def temporary (b : Builder) : Except Error TemporaryHandle :=
  match b.state with
  | .building t => .ok t
  | .finished => .error (.misuse .alreadyFinished)
  | .canceled => .error (.misuse .canceled)

/-- The permission bits of the new file: those that were asked for, or else those of the file that
it replaces, or else `defaultMode`.  Only a regular file can be replaced. -/
def chooseMode (s : FileSpace) (path : Path) (mode : Option Nat) : Except Error Nat :=
  match s.stat path with
  | .ok .directory => .error (.file (.path path) .notRegular)
  | .ok (.file f) => .ok (mode.getD f.mode)
  | .error fault =>
    if fault.kind = .notFound then .ok (mode.getD defaultMode)
    else .error (.file (.path path) fault)

/-- Starts to build a database for a path. -/
def «open» (s : FileSpace) (path : Path) (mode : Option Nat) :
    Except Error (Builder × FileSpace) :=
  match chooseMode s path mode with
  | .error e => .error e
  | .ok mode =>
    -- In the same directory as the target, so that it can take its place in one step.
    let directory := path.directory
    match s.createTemporary directory ((path.fileName?.map Text.Utf8.show).getD "mcdb") with
    | .error fault => .error (.file (.path directory) fault)
    | .ok (t, s) => .ok (⟨path, mode, .building t, .empty⟩, s)

/-- Refuses a record by the sizes of its fields, before there are any bytes of it. -/
def checkSizes (b : Builder) (keySize valueSize : Nat) : Except Error Unit :=
  match b.temporary with
  | .error e => .error e
  | .ok _ => b.draft.checkSizes keySize valueSize

/-- Adds a record.  A refused record leaves no trace. -/
def add (b : Builder) (r : Record) : Except Error Builder :=
  match b.temporary with
  | .error e => .error e
  | .ok _ => (b.draft.add r).map fun draft => { b with draft := draft }

/-- The builder with one more record, which must not be one that it refuses. -/
def append (b : Builder) (r : Record) : Builder := { b with draft := b.draft.append r }

/-- The sizes of a record alone decide whether it is refused. -/
theorem add_eq_map_append (b : Builder) (r : Record) :
    b.add r = (b.checkSizes r.key.size r.value.size).map fun _ => b.append r := by
  unfold add checkSizes Draft.add append
  cases b.temporary with
  | error e => rfl
  | ok t => cases b.draft.checkSizes r.key.size r.value.size <;> rfl

/-- Adds records one by one, up to the first that is refused. -/
def addAll (b : Builder) : List Record → Except Error Unit × Builder
  | [] => (.ok (), b)
  | r :: rest =>
    -- Looking first lets go of the old builder, so that the bytes of the draft grow in place.
    match b.checkSizes r.key.size r.value.size with
    | .error e => (.error e, b)
    | .ok () => (b.append r).addAll rest

@[simp] theorem addAll_nil (b : Builder) : b.addAll [] = (.ok (), b) := rfl

theorem addAll_cons (b : Builder) (r : Record) (rest : List Record) :
    b.addAll (r :: rest) =
      match b.add r with
      | .error e => (.error e, b)
      | .ok b => b.addAll rest := by
  rw [add_eq_map_append, addAll]
  cases b.checkSizes r.key.size r.value.size <;> rfl

/-- Adds the records that an input delivers as text.  The result is their number. -/
def load (b : Builder) (input : Input) : Except Error Nat × Builder :=
  let walk := RecordText.parse input
  match b.addAll walk.items with
  | (.error e, b) => (.error e, b)
  | (.ok (), b) =>
    match walk.failure with
    | some e => (.error e, b)
    | none => (.ok walk.items.length, b)

/-- Puts the finished database in the place of the target.  When that fails, the temporary file goes
and the builder is canceled. -/
def finish (b : Builder) (s : FileSpace) : Except Error Unit × Builder × FileSpace :=
  match b.temporary with
  | .error e => (.error e, b, s)
  | .ok t =>
    match s.replaceBy t b.path b.draft.image (b.mode % 0o10000) with
    | .ok s => (.ok (), { b with state := .finished }, s)
    | .error fault =>
      (.error (.file (.path b.path) fault), { b with state := .canceled }, s.discardTemporary t)

/-- Gives up a build.  The builder is canceled even when its temporary file is gone already. -/
def cancel (b : Builder) (s : FileSpace) : Except Error Unit × Builder × FileSpace :=
  match b.temporary with
  | .error e => (.error e, b, s)
  | .ok t =>
    match s.removeTemporary t with
    | .ok s => (.ok (), { b with state := .canceled }, s)
    | .error fault =>
      (.error (.file (.temporary t.target) fault), { b with state := .canceled }, s)

/-- Lets go of a builder.  One at work takes its temporary file with it. -/
def drop (b : Builder) (s : FileSpace) : FileSpace :=
  match b.state with
  | .building t => s.discardTemporary t
  | _ => s

/-- What a caller does with a builder before it is finished: calls of `add` (or of `set`, its other
name), `finish` and `cancel`, each chosen in the light of the results before, and success or an
error in the end. -/
inductive Fill where
  | done (result : Except Error Unit)
  | add (r : Record) (next : Except Error Unit → Fill)
  | finish (next : Except Error Unit → Fill)
  | cancel (next : Except Error Unit → Fill)

namespace Fill

/-- What a fill does to a builder and to a space of files, and its result. -/
def run : Fill → Builder → FileSpace → Except Error Unit × Builder × FileSpace
  | done result, b, s => (result, b, s)
  | add r next, b, s =>
    match b.checkSizes r.key.size r.value.size with
    | .error e => (next (.error e)).run b s
    | .ok () => (next (.ok ())).run (b.append r) s
  | finish next, b, s =>
    let (result, b, s) := b.finish s
    (next result).run b s
  | cancel next, b, s =>
    let (result, b, s) := b.cancel s
    (next result).run b s

theorem run_add (r : Record) (next : Except Error Unit → Fill) (b : Builder) (s : FileSpace) :
    (add r next).run b s =
      match b.add r with
      | .error e => (next (.error e)).run b s
      | .ok b => (next (.ok ())).run b s := by
  rw [add_eq_map_append, run]
  cases b.checkSizes r.key.size r.value.size <;> rfl

/-- Goes on after a success, and ends with an error. -/
def after (next : Fill) : Except Error Unit → Fill
  | .ok () => next
  | .error e => done (.error e)

/-- Adds records, up to the first that is refused, and goes on if all were accepted. -/
def addAll (rs : List Record) (next : Fill) : Fill :=
  match rs with
  | [] => next
  | r :: rest => add r (after (addAll rest next))

/-- Adds the records that an input delivers as text. -/
def load (input : Input) : Fill :=
  let walk := RecordText.parse input
  addAll walk.items <| done <|
    match walk.failure with
    | none => .ok ()
    | some e => .error e

end Fill

/-- Builds a database in one go.  An error of `fill` cancels the build, and is the result unless
canceling fails too. -/
def create (s : FileSpace) (path : Path) (mode : Option Nat) (fill : Fill) :
    Except Error Unit × FileSpace :=
  match Builder.open s path mode with
  | .error e => (.error e, s)
  | .ok (b, s) =>
    match fill.run b s with
    | (.ok (), b, s) =>
      let (result, b, s) := b.finish s
      (result, b.drop s)
    | (.error e, b, s) =>
      -- `fill` may have finished or canceled the builder itself before it failed.
      if b.isBuilding then
        match b.cancel s with
        | (.ok (), b, s) => (.error e, b.drop s)
        | (.error e', b, s) => (.error e', b.drop s)
      else (.error e, b.drop s)

end Builder

end ConstDb
