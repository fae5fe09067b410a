import ConstDb.Proofs.Builder.Create
import ConstDb.Proofs.Session.Steps

/-! # Accounts of builders

The account of a builder says what the steps with it came to since it was opened: its target, the
permission bits that were asked for, the file that lay at the target then, and the records that it
accepted.  It is read off the steps alone.  Whatever other builders do meanwhile, a builder agrees
with its account, and so its file does when it finishes.

## Key results

- `Session.tells_account`: every builder agrees with its account
- `Session.replaces_of_finish`, `Session.replaces_of_create`: what a builder leaves at its target
- `Builder.commits_image`: a builder on its own commits the same bytes
-/

namespace ConstDb

/-- What happened to a builder since it was opened. -/
structure Account where
  path : Path
  /-- The permission bits that were asked for. -/
  requested : Option Nat
  /-- The file that lay at the path when the builder was opened. -/
  replaced : Option File
  /-- The records that were accepted. -/
  records : List Record

namespace Account

/-- The account of a builder that was just opened. -/
def new (s : FileSpace) (path : Path) (mode : Option Nat) : Account :=
  ⟨path, mode, s.file? path, []⟩

/-- The permission bits that the file of a builder gets. -/
def mode (a : Account) : Nat := a.requested.getD ((a.replaced.map File.mode).getD defaultMode)

/-- Whether a builder agrees with an account of it. -/
structure Tells (a : Account) (b : Builder) : Prop where
  path : b.path = a.path
  mode : b.mode = a.mode
  draft : b.draft = .ofRecords a.records
  storable : Draft.Storable a.records
  replaced : ∀ f, a.replaced = some f → f.mode < 0o10000

/-- A new builder agrees with its account. -/
theorem tells_new {s s₀ s₁ : FileSpace} {path : Path} {mode : Option Nat} {b : Builder}
    (hs : s.Sound) (hnodes : s₀.nodes = s.nodes) (h : Builder.open s₀ path mode = .ok (b, s₁)) :
    (new s path mode).Tells b := by
  obtain ⟨bits, loc, hmode, -, rfl, -⟩ := Builder.open_cases h
  have hfile : s₀.file? path = s.file? path := by
    rw [FileSpace.file?, FileSpace.file?, FileSpace.stat_of_nodes hnodes]
  have hbits := Builder.chooseMode_eq_ok hmode
  rw [hfile] at hbits
  refine ⟨rfl, hbits, rfl, Draft.storable_nil, ?_⟩
  intro f hf
  obtain ⟨l, -, hnode, -⟩ := FileSpace.stat_eq_ok_file.1 (FileSpace.file?_eq_some.1 hf)
  exact hs.mode l f hnode

/-- A step that a builder agrees with adds the records that the builder accepts. -/
theorem Tells.stepBuilder {a : Account} {b : Builder} (h : a.Tells b) (space : FileSpace)
    (step : BuilderStep) :
    Tells { a with records := a.records ++ b.taken step }
      (Session.stepBuilder b space step).1 := by
  rw [Session.stepBuilder_fst]
  refine ⟨h.path, h.mode, ?_, ?_, h.replaced⟩
  · rw [h.draft, Draft.ofRecords, ← List.foldl_append]
    rfl
  · cases step with
    | add r => exact Builder.storable_accepted h.draft h.storable [r]
    | addMany rs => exact Builder.storable_accepted h.draft h.storable rs
    | addZeros keySize valueSize => exact Builder.storable_accepted h.draft h.storable _
    | load input => exact Builder.storable_accepted h.draft h.storable _
    | _ => simpa [Builder.taken] using h.storable

end Account

/-! ### Accounts of a run -/

namespace Session

/-- The account of a builder after one more step. -/
def note (s : Session) (n : Nat) (account : Option Account) : Step → Option Account
  | .build m path mode =>
    if m = n then
      match (s.build m path mode).2 with
      | .error _ => none
      | .ok _ => some (.new s.space path mode)
    else account
  | .drop m => if m = n then none else account
  | .builder m step =>
    if m = n then
      match s.builders.lookup n with
      | none => account
      | some b => account.map fun a => { a with records := a.records ++ b.taken step }
    else account
  | _ => account

/-- The account of a builder after a run of steps that starts with an earlier account. -/
def accountFrom (n : Nat) : Session → Option Account → List Step → Option Account
  | _, account, [] => account
  | s, account, step :: rest => accountFrom n (s.step step).1 (s.note n account step) rest

/-- The account of a builder after a run of steps from the beginning; there is none unless the
builder was opened and not dropped. -/
def account (clock : Nat → Nat) (n : Nat) (steps : List Step) : Option Account :=
  accountFrom n (start clock) none steps

variable {s : Session} {n : Nat} {account : Option Account}

/-- A step that is about another builder, or about none, adds nothing to an account. -/
theorem note_of_ne {step : Step} (h : step.builder? ≠ some n) :
    s.note n account step = account := by
  cases step with
  | build m path mode =>
    have hne : m ≠ n := fun hm => h (hm ▸ rfl)
    rw [note, if_neg hne]
  | drop m =>
    have hne : m ≠ n := fun hm => h (hm ▸ rfl)
    rw [note, if_neg hne]
  | builder m step =>
    have hne : m ≠ n := fun hm => h (hm ▸ rfl)
    rw [note, if_neg hne]
  | _ => rfl

/-- Each step keeps a builder and its account in agreement. -/
theorem tells_step (hs : s.space.Sound) (h : Option.Rel Account.Tells account (s.builders.lookup n))
    (step : Step) :
    Option.Rel Account.Tells (s.note n account step) ((s.step step).1.builders.lookup n) := by
  -- Steps about other builders change neither the builder nor its account.
  by_cases habout : step.builder? = some n
  · cases step with
    | build m path mode =>
      cases habout
      simp only [note, Session.step, if_true, build_eq]
      cases hopen : Builder.open (s.dropBuilder n).space path mode with
      | error e =>
        simp only [lookup_builders_dropBuilder, if_true]
        exact .none
      | ok opened =>
        obtain ⟨b, space⟩ := opened
        simp only [lookup_putAt, if_true]
        exact .some (Account.tells_new hs (s.nodes_dropBuilder n) hopen)
    | drop m =>
      cases habout
      simp only [note, Session.step, if_true, lookup_builders_dropBuilder]
      exact .none
    | builder m step =>
      cases habout
      simp only [note, Session.step, if_true, lookup_builders_workOn]
      generalize s.builders.lookup n = found at h
      cases h with
      | none => exact .none
      | some htells => exact .some (htells.stepBuilder s.space step)
    | _ => cases habout
  · rw [note_of_ne habout, lookup_builders_step s habout]
    exact h

/-- Every builder of a session that can come about agrees with its account. -/
theorem tells_account (clock : Nat → Nat) (n : Nat) (steps : List Step) :
    Option.Rel Account.Tells (Session.account clock n steps)
      (((start clock).run steps).2.builders.lookup n) := by
  -- Soundness goes along: the bits of a file that is replaced are in range because of it.
  have hrun {s : Session} {account : Option Account} (hs : s.space.Sound)
      (h : Option.Rel Account.Tells account (s.builders.lookup n)) :
      Option.Rel Account.Tells (accountFrom n s account steps)
        ((s.run steps).2.builders.lookup n) := by
    induction steps generalizing s account with
    | nil => exact h
    | cons step rest ih => exact ih (hs.of_changes (s.changes_step step)) (tells_step hs h step)
  exact hrun (FileSpace.sound_start topSize clock) .none

end Session

/-! ### What is committed -/

/-- Whether any builder that is given just these records accepts them, and commits these bytes when
it finishes. -/
def Builder.Commits (rs : List Record) (bytes : ByteArray) : Prop :=
  ∀ s₀ path mode b s₁, Builder.open s₀ path mode = .ok (b, s₁) →
    ∃ b₁, b.addAll rs = (.ok (), b₁) ∧
      ∀ s₂ b₂ s₃, b₁.finish s₂ = (.ok (), b₂, s₃) →
        ∃ f, s₃.stat path = .ok (.file f) ∧ f.bytes = bytes

/-- Records that can be stored are committed as their file, by whatever builder. -/
theorem Builder.commits_image {rs : List Record} (h : Draft.Storable rs) :
    Commits rs (Draft.ofRecords rs).image := by
  intro s₀ path mode b s₁ hopen
  have hadd := addAll_of_storable hopen h
  refine ⟨_, hadd, ?_⟩
  intro s₂ b₂ s₃ hfinish
  obtain ⟨-, hdraft, time, hstat⟩ := file_of_finish hopen hadd hfinish
  exact ⟨_, hstat, by rw [hdraft]⟩

/-- Whether the file of a builder with an account is at its target after a change, and all other
files are as they were. -/
structure Account.Replaces (a : Account) (s s' : FileSpace) (f : File) : Prop where
  stat : s'.stat a.path = .ok (.file f)
  bytes : f.bytes = (Draft.ofRecords a.records).image
  alone : Builder.Commits a.records f.bytes
  requested : ∀ m ≤ 0o7777, a.requested = some m → f.mode = m
  kept : ∀ g, a.requested = none → a.replaced = some g → f.mode = g.mode
  fresh : a.requested = none → a.replaced = none → f.mode = 0o400
  other : ∀ q, s.locate q ≠ s.locate a.path → s'.file? q = s.file? q

/-- A builder that replaces its target commits what its account says. -/
theorem Account.Tells.replaces {a : Account} {b : Builder} {s s' : FileSpace} {t : TemporaryHandle}
    (h : a.Tells b)
    (hreplace : s.replaceBy t b.path b.draft.image (b.mode % 0o10000) = .ok s') :
    ∃ f, a.Replaces s s' f := by
  obtain ⟨time, hstat⟩ := FileSpace.stat_of_replaceBy hreplace
  rw [h.path] at hstat
  have hmode := h.mode
  unfold Account.mode at hmode
  -- In each of the three cases for the bits, taking them modulo `0o10000` changes nothing.
  refine ⟨_, hstat, by rw [h.draft], ?_, ?_, ?_, ?_, ?_⟩
  · rw [h.draft]
    exact Builder.commits_image h.storable
  · intro m hm hrequested
    rw [hrequested] at hmode
    rw [hmode]
    exact Nat.mod_eq_of_lt (Nat.lt_succ_of_le hm)
  · intro g hrequested hreplaced
    rw [hrequested, hreplaced] at hmode
    rw [hmode]
    exact Nat.mod_eq_of_lt (h.replaced g hreplaced)
  · intro hrequested hreplaced
    rw [hrequested, hreplaced] at hmode
    rw [hmode]
    rfl
  · intro q hq
    rw [← h.path] at hq
    exact FileSpace.file?_of_replaceBy hreplace hq

namespace Session

variable {s : Session} {n : Nat}

/-- A `finish` that succeeds puts the file of the builder at its target. -/
theorem replaces_of_finish {account : Option Account}
    (h : Option.Rel Account.Tells account (s.builders.lookup n)) {answer : Answer}
    (hreply : (s.step (.builder n .finish)).2 = .ok answer) :
    ∃ a f, account = some a ∧ a.Replaces s.space (s.step (.builder n .finish)).1.space f := by
  obtain ⟨b, t, hlookup, -, hreplace, -⟩ := step_finish_eq_ok hreply
  rw [hlookup] at h
  cases h with
  | some htells =>
    obtain ⟨f, hf⟩ := htells.replaces hreplace
    exact ⟨_, f, rfl, hf⟩

/-- The end of a fill does with the builder what it is told to. -/
private theorem run_finale (ending : Ending) (b : Builder) (space : FileSpace) :
    ((finale ending).run b space).2 =
      if ending.finishes then (b.finish space).2
      else if ending.cancels then (b.cancel space).2
      else (b, space) := by
  have hlast (result reached : Except Error Unit) (b : Builder) (space : FileSpace) :
      (((Builder.Fill.done result).after reached).run b space).2 = (b, space) := by
    cases reached <;> rfl
  obtain ⟨finishes, cancels, fails⟩ := ending
  cases finishes with
  | true => exact hlast _ _ _ _
  | false =>
    cases cancels with
    | true => exact hlast _ _ _ _
    | false => rfl

/-- It adds no record. -/
private theorem draft_finale (ending : Ending) (b : Builder) (space : FileSpace) :
    ((finale ending).run b space).2.1.draft = b.draft := by
  rw [run_finale]
  split
  · exact Builder.draft_finish b space
  · split
    · exact Builder.draft_cancel b space
    · rfl

/-- It finishes no builder unless it is told to. -/
private theorem finishes_of_finale {ending : Ending} {b : Builder} {t : TemporaryHandle}
    (hstate : b.state = .building t) {space : FileSpace}
    (h : ((finale ending).run b space).2.1.state = .finished) : ending.finishes = true := by
  by_contra hfinishes
  rw [run_finale, if_neg hfinishes] at h
  split at h
  · rw [Builder.cancel_of_building hstate] at h
    cases h
  · rw [hstate] at h
    cases h

/-- A fill that finished its builder, or succeeded, added all its records. -/
private theorem filled {b : Builder} {t : TemporaryHandle} (hstate : b.state = .building t)
    {rs : List Record} {ending : Ending} {space : FileSpace}
    {ran : Except Error Unit × Builder × FileSpace}
    (hran : (Builder.Fill.addAll rs (finale ending)).run b space = ran)
    (h : ran.2.1.state = .finished ∨ ran.1 = .ok ()) :
    b.accepted rs = rs ∧ ran.2.1.draft = rs.foldl Draft.append b.draft ∧
      (ran.2.1.state = .finished → ending.finishes = true) := by
  have hsnd := b.addAll_snd rs
  rw [Builder.Fill.run_addAll] at hran
  generalize hadd : b.addAll rs = added at hran hsnd
  obtain ⟨result, b₁⟩ := added
  cases result with
  | error e =>
    -- A record was refused: the fill failed, and left the builder at work.
    subst hran
    subst hsnd
    simp [hstate] at h
  | ok u =>
    have haccepted : b.accepted rs = rs := Builder.addAll_fst_eq_ok.1 (by rw [hadd])
    rw [haccepted] at hsnd
    subst hsnd
    subst hran
    refine ⟨haccepted, draft_finale _ _ _, fun hfinished => ?_⟩
    exact finishes_of_finale (b := { b with draft := rs.foldl Draft.append b.draft })
      hstate hfinished

/-- A build in one go leaves all files alone and fails, or it puts the file of its records at its
target. -/
theorem replaces_of_create (hs : s.space.Sound) (path : Path) (mode : Option Nat)
    (rs : List Record) (ending : Ending) :
    ((s.step (.create path mode rs ending)).1.space.nodes = s.space.nodes ∧
        ∃ e, (s.step (.create path mode rs ending)).2 = .error e) ∨
      (ending.finishes = true ∨ (s.step (.create path mode rs ending)).2 = .ok .unit) ∧
      ∃ f, Account.Replaces { Account.new s.space path mode with records := rs } s.space
        (s.step (.create path mode rs ending)).1.space f := by
  simp only [Session.step]
  rcases Builder.create_cases s.space path mode (.addAll rs (finale ending)) with
    ⟨e, hcreate⟩ | ⟨b, s₁, hopen, ⟨e, -, hcreate⟩ | ⟨result, s', hreplace, hcreate, hended⟩⟩
  · rw [hcreate]
    exact .inl ⟨rfl, _, rfl⟩
  · rw [hcreate]
    refine .inl ⟨?_, _, rfl⟩
    rw [FileSpace.nodes_discardTemporary, Builder.nodes_open hopen]
  · rw [hcreate]
    refine .inr ?_
    obtain ⟨bits, loc, -, -, hb, -⟩ := Builder.open_cases hopen
    have hstate : b.state = .building (Builder.handleFor s.space path) := by rw [hb]
    have hfresh := Account.tells_new hs rfl hopen
    generalize hran : (Builder.Fill.addAll rs (finale ending)).run b s₁ = ran at hended hreplace
    have hdone : ran.2.1.state = .finished ∨ ran.1 = .ok () := hended.imp_right And.left
    obtain ⟨haccepted, hdraft, hfinishes⟩ := filled hstate hran hdone
    -- The builder agrees with the account of a builder to which the records were added.
    have htells := hfresh.stepBuilder s₁ (.addMany rs)
    rw [stepBuilder_fst, Builder.taken, haccepted] at htells
    have hpath : b.path = path := by rw [hb]
    rw [hdraft, ← hpath] at hreplace
    obtain ⟨f, hf⟩ := htells.replaces (t := Builder.handleFor s.space b.path) hreplace
    refine ⟨?_, f, hf.stat, hf.bytes, hf.alone, hf.requested, hf.kept, hf.fresh, ?_⟩
    · rcases hended with hfinished | ⟨-, rfl⟩
      · exact .inl (hfinishes hfinished)
      · exact .inr rfl
    · -- Opening the builder touched no file, so it makes no difference to start behind that.
      intro q hq
      have hnodes := Builder.nodes_open hopen
      rw [hf.other q]
      · rw [FileSpace.file?, FileSpace.file?, FileSpace.stat_of_nodes hnodes]
      · rwa [FileSpace.locate_of_nodes hnodes, FileSpace.locate_of_nodes hnodes]

end Session

end ConstDb
