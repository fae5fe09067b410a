import ConstDb.Session.Step

/-! # Sessions

A session is a space of files with the builders and readers at work on it.  `Session.step` says what
one step does to it and answers; everything that can happen is a run of steps. -/

namespace ConstDb

/-- A space of files and all that works on it. -/
structure Session where
  space : FileSpace
  builders : List (Nat × Builder)
  readers : List (Nat × Reader)

/-- What a step answers. -/
abbrev Reply := Except Refusal Answer

namespace Session

/-- How many bytes the full path of the directory of a session has: that of the directory for
temporary files, a slash, and a name of ten bytes. -/
def topSize : Nat := 15

/-- The session in an empty directory, on a file system with some clock. -/
def start (clock : Nat → Nat) : Session := ⟨.start topSize clock, [], []⟩

/-- The same with a clock that counts the new files. -/
def empty : Session := start id

/-- Puts an entry into a numbered list, in the place of one with the same number. -/
def putAt {α : Type} (entries : List (Nat × α)) (n : Nat) (a : α) : List (Nat × α) :=
  (n, a) :: entries.filter fun entry => decide (entry.1 ≠ n)

@[simp] theorem lookup_putAt_self {α : Type} (entries : List (Nat × α)) (n : Nat) (a : α) :
    (putAt entries n a).lookup n = some a := by
  simp [putAt]

/-- Takes an entry out of a numbered list. -/
def dropAt {α : Type} (entries : List (Nat × α)) (n : Nat) : List (Nat × α) :=
  entries.filter fun entry => decide (entry.1 ≠ n)

/-- An error of the library as a reply. -/
def replyOf {α : Type} (answer : α → Answer) : Except Error α → Reply
  | .ok a => .ok (answer a)
  | .error e => .error (.failed e)

/-! ## Files -/

/-- The permission bits of files that the session itself writes. -/
def writtenMode : Nat := 0o644

/-- Takes over a changed space of files. -/
def changed (s : Session) : Except Fault FileSpace → Session × Reply
  | .ok space => ({ s with space := space }, .ok .unit)
  | .error _ => (s, .error .absent)

/-- Stamps the file at a path; where there is none, nothing happens. -/
def stamped (space : FileSpace) (path : Path) (time : Nat) : FileSpace :=
  match space.modifyFile path fun f => { f with time := time } with
  | .ok space => space
  | .error _ => space

/-- The bytes that `patch` makes of the bytes of a file. -/
def patched (bytes : ByteArray) (edits : List (Nat × ByteArray)) (resize : Option Nat)
    (tail : ByteArray) : ByteArray :=
  let edited := edits.foldl (fun bytes edit => bytes.overwrite edit.1 edit.2) bytes
  let resized :=
    match resize with
    | none => edited
    | some n => edited.resized n
  resized ++ tail

/-- The stretch of a file between two offsets, as far as the file goes. -/
def stretch (bytes : ByteArray) (start stop : Option Nat) : ByteArray :=
  bytes.extract (start.getD 0) (stop.getD bytes.size)

/-! ## Builders -/

/-- Lets go of a builder. -/
def dropBuilder (s : Session) (n : Nat) : Session :=
  match s.builders.lookup n with
  | none => s
  | some b => { s with space := b.drop s.space, builders := dropAt s.builders n }

/-- Starts a new builder in the place of an old one. -/
def build (s : Session) (n : Nat) (path : Path) (mode : Option Nat) : Session × Reply :=
  let s := s.dropBuilder n
  match Builder.open s.space path mode with
  | .error e => (s, .error (.failed e))
  | .ok (b, space) => ({ s with space := space, builders := putAt s.builders n b }, .ok .unit)

/-- What a step with a builder does to the builder and to the space of files. -/
def stepBuilder (b : Builder) (space : FileSpace) : BuilderStep → Builder × FileSpace × Reply
  | .add r =>
    let (result, b) := b.addAll [r]
    (b, space, replyOf (fun _ => .number b.size) result)
  | .addMany rs =>
    let (result, b) := b.addAll rs
    (b, space, replyOf (fun _ => .number b.size) result)
  | .addZeros keySize valueSize =>
    match b.checkSizes keySize valueSize with
    | .error e => (b, space, .error (.failed e))
    | .ok () =>
      let b := b.append ⟨.replicate keySize 0, .replicate valueSize 0⟩
      (b, space, .ok (.number b.size))
  | .finish =>
    let (result, b, space) := b.finish space
    (b, space, replyOf (fun _ => .unit) result)
  | .cancel =>
    let (result, b, space) := b.cancel space
    (b, space, replyOf (fun _ => .unit) result)
  | .status =>
    (b, space, .ok (.builderStatus b.path b.state.name b.isBuilding b.size b.describe))
  | .load input =>
    let (result, b) := b.load input
    (b, space, .ok (.loaded result b.size))

/-- What a step with a builder does to a session. -/
def workOn (s : Session) (n : Nat) (step : BuilderStep) : Session × Reply :=
  let ⟨space, builders, readers⟩ := s
  match builders.lookup n with
  | none => (⟨space, builders, readers⟩, .error .noBuilder)
  | some b =>
    -- Meanwhile the session lets go of the builder, so that its draft grows in place.
    let others := dropAt builders n
    let (b, space, reply) := stepBuilder b space step
    (⟨space, (n, b) :: others, readers⟩, reply)

/-- How a fill ends as told. -/
def finale (ending : Ending) : Builder.Fill :=
  let last : Builder.Fill :=
    .done (if ending.fails then .error (.misuse (.other "fill gave up")) else .ok ())
  if ending.finishes then .finish last.after
  else if ending.cancels then .cancel last.after
  else last

/-! ## Readers -/

/-- What a step with a reader does to the reader. -/
def stepReader (r : Reader) (space : FileSpace) : ReaderStep → Reader × Reply
  | .close =>
    match r.close with
    | .error e => (r, .error (.failed e))
    | .ok r => (r, .ok .unit)
  | .refresh =>
    match r.refresh space with
    | .error e => (r, .error (.failed e))
    | .ok (changed, r) => (r, .ok (.flag changed))
  | .advise name =>
    match Advice.ofName? name with
    | none => (r, .error (.unknownAdvice name))
    | some _ => (r, replyOf (fun _ => .unit) r.current)
  | .size => (r, replyOf .number (r.ask fun image => .ok image.recordCount))
  | .isEmpty => (r, replyOf .flag (r.ask fun image => .ok (decide (image.recordCount = 0))))
  | .unique => (r, replyOf .flag (r.ask Image.hasUniqueKeys))
  | .validate => (r, replyOf (fun _ => .unit) (r.ask Image.validate))
  | .about => (r, .ok (.readerStatus r.path r.isClosed r.describe))
  | .nth key n => (r, replyOf .bytes? (r.ask (·.nth key n)))
  | .findKey key =>
    let (result, r) := r.findKey key
    (r, replyOf .bytes? result)
  | .findNext =>
    let (result, r) := r.findNext
    (r, replyOf .bytes? result)
  | .keyOf value => (r, replyOf .bytes? (r.ask (·.keyOf value)))
  | .count key => (r, replyOf .number (r.ask (·.count key)))
  | .hasKey key => (r, replyOf .flag (r.ask (·.containsKey key)))
  | .hasValue value => (r, replyOf .flag (r.ask (·.containsValue value)))
  | .findAll key => (r, replyOf .byteStrings (r.ask (·.findAll key)))
  | .valuesAt keys => (r, replyOf .byteStrings (r.ask (·.valuesAt keys)))
  | .keys => (r, replyOf .byteStrings (r.ask Image.keys))
  | .values => (r, replyOf .byteStrings (r.ask Image.values))
  | .pairs => (r, replyOf .records (r.ask Image.pairs))
  | .toMap => (r, replyOf mapRecords (r.ask Image.toMap))
  | .invert => (r, replyOf mapRecords (r.ask Image.invert))
  | .scan => (r, replyOf .scanCalls (r.ask fun image => .ok image.records.outcomes))
  | .occurrences key =>
    (r, replyOf .occurrenceCalls (r.ask fun image => .ok (image.occurrences key).outcomes))
  | .stats => (r, replyOf .stats (r.ask Image.stats))
  | .dump sink =>
    let (result, sink) := r.dump sink
    (r, .ok (.dumped result sink.taken))
where
  mapRecords (m : ByteMap) : Answer := .records (m.toList.map fun (k, v) => ⟨k, v⟩)

/-! ## All steps -/

/-- What a step does to a session, and its reply. -/
def step (s : Session) : Step → Session × Reply
  | .write path data => s.changed (s.space.write path data writtenMode)
  | .patch source path edits resize tail =>
    match s.space.readable? source with
    | none => (s, .error .absent)
    | some f =>
      let bytes := patched f.bytes edits resize tail
      match s.changed (s.space.write path bytes writtenMode) with
      | (s, .ok _) => (s, .ok (.number bytes.size))
      | (s, .error e) => (s, .error e)
  | .read path start stop =>
    match s.space.readable? path with
    | none => (s, .error .absent)
    | some f => (s, .ok (.piece f.bytes.size (stretch f.bytes start stop)))
  | .remove path => s.changed (s.space.remove path)
  | .makeDirectory path => s.changed (s.space.makeDirectory path)
  | .removeDirectory path => s.changed (s.space.removeDirectory path)
  | .mode path =>
    match s.space.file? path with
    | none => (s, .error .absent)
    | some f => (s, .ok (.number f.mode))
  | .setMode path mode =>
    s.changed (s.space.modifyFile path fun f => { f with mode := mode % 0o10000 })
  | .setTime path time => ({ s with space := stamped s.space path time }, .ok .unit)
  | .list path =>
    match s.space.list path.orHere with
    | .error _ => (s, .error .absent)
    | .ok names => (s, .ok (.names names))
  | .build n path mode => s.build n path mode
  | .drop n => (s.dropBuilder n, .ok .unit)
  | .builder n step => s.workOn n step
  | .create path mode rs ending =>
    let (result, space) := Builder.create s.space path mode (.addAll rs (finale ending))
    ({ s with space := space }, replyOf (fun _ => .unit) result)
  | .open n path =>
    let s := { s with readers := dropAt s.readers n }
    match Reader.open s.space path with
    | .error e => (s, .error (.failed e))
    | .ok r => ({ s with readers := putAt s.readers n r }, .ok .unit)
  | .reader n step =>
    match s.readers.lookup n with
    | none => (s, .error .noReader)
    | some r =>
      let (r, reply) := stepReader r s.space step
      ({ s with readers := putAt s.readers n r }, reply)
  | .command args stdin settings =>
    let (o, space) := (Arguments.parse args).perform s.space settings stdin
    ({ s with space := space }, .ok (.outcome o))

/-- The replies of a run of steps, and the session after it. -/
def run (s : Session) : List Step → List Reply × Session
  | [] => ([], s)
  | step :: rest =>
    let (s, reply) := s.step step
    let (replies, s) := s.run rest
    (reply :: replies, s)

end Session

end ConstDb
