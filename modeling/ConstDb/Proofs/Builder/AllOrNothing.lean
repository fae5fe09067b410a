import ConstDb.Proofs.Builder.Built

/-! # All or nothing

Whoever fills a builder may add records, finish it and cancel it, in any order and as often as they
like, and choose each call in the light of the answers before.  The calls of a fill with their
answers say what a build in one go comes to.  At most one of them commits, and then nothing more is
added; a fill that only adds leaves the builder at work, so that the build finishes or cancels it.

## Key results

- `Builder.Fill.calls`: the calls of a fill, with their answers
- `Builder.Fill.Course.finished_iff`, `Builder.Fill.Course.isBuilding_iff`: where the calls leave
  the builder
- `Builder.Fill.recorded_eq`: the records before the commit are all that are accepted
- `Builder.create_all_or_nothing`: a build in one go commits all of them, or nothing
-/

namespace ConstDb.Builder

/-- What a fill may ask of a builder. -/
inductive Request where
  | add (r : Record)
  | finish
  | cancel

/-- A request with the answer to it. -/
structure Call where
  request : Request
  answer : Except Error Unit

namespace Call

/-- Whether a call commits the database. -/
def commits : Call → Bool
  | ⟨.finish, .ok ()⟩ => true
  | _ => false

/-- Whether a call is one of `add`. -/
def isAdd : Call → Bool
  | ⟨.add _, _⟩ => true
  | _ => false

/-- The record that a call adds. -/
def record? : Call → Option Record
  | ⟨.add r, .ok ()⟩ => some r
  | _ => none

end Call

namespace Fill

/-- The calls that a fill makes, with the answers that it gets. -/
def calls : Fill → Builder → FileSpace → List Call
  | done _, _, _ => []
  | add r next, b, s =>
    match b.add r with
    | .error e => ⟨.add r, .error e⟩ :: (next (.error e)).calls b s
    | .ok b => ⟨.add r, .ok ()⟩ :: (next (.ok ())).calls b s
  | finish next, b, s =>
    let (answer, b, s) := b.finish s
    ⟨.finish, answer⟩ :: (next answer).calls b s
  | cancel next, b, s =>
    let (answer, b, s) := b.cancel s
    ⟨.cancel, answer⟩ :: (next answer).calls b s

/-- Whether one of the calls of a fill commits. -/
def Commits (fill : Fill) (b : Builder) (s : FileSpace) : Prop :=
  ∃ c ∈ fill.calls b s, c.commits = true

/-- The records that a fill adds before the call that commits, or at all if there is none. -/
def recorded (fill : Fill) (b : Builder) (s : FileSpace) : List Record :=
  ((fill.calls b s).takeWhile fun c => !c.commits).filterMap Call.record?

variable {b : Builder} {s : FileSpace} {t : TemporaryHandle}

/-- What a fill adds is what its builder accepts. -/
theorem accepted_eq (fill : Fill) (b : Builder) (s : FileSpace) :
    fill.accepted b s = (fill.calls b s).filterMap Call.record? := by
  induction fill generalizing b s with
  | done result => rfl
  | add r next ih =>
    rw [accepted, calls]
    cases b.add r with
    | error e => exact ih _ b s
    | ok b' => exact congrArg (r :: ·) (ih _ b' s)
  | finish next ih => exact ih _ _ _
  | cancel next ih => exact ih _ _ _

/-! ### The shape of a fill -/

/-- Whatever is asked of a builder that is not at work is a misuse. -/
theorem answer_of_ended (fill : Fill) (h : b.isBuilding = false) (s : FileSpace) :
    ∀ c ∈ fill.calls b s, ∃ m, c.answer = .error (.misuse m) := by
  obtain ⟨m, hm⟩ := temporary_of_ended h
  -- Such a builder stays as it is, so all later calls are about the same one.
  induction fill with
  | done result => simp [calls]
  | add r next ih =>
    have hadd : b.add r = .error (.misuse m) := by rw [Builder.add, hm]
    rw [calls, hadd]
    exact List.forall_mem_cons.2 ⟨⟨m, rfl⟩, ih _⟩
  | finish next ih =>
    have hfinish : b.finish s = (.error (.misuse m), b, s) := by rw [Builder.finish, hm]
    rw [calls, hfinish]
    exact List.forall_mem_cons.2 ⟨⟨m, rfl⟩, ih _⟩
  | cancel next ih =>
    have hcancel : b.cancel s = (.error (.misuse m), b, s) := by rw [Builder.cancel, hm]
    rw [calls, hcancel]
    exact List.forall_mem_cons.2 ⟨⟨m, rfl⟩, ih _⟩

/-- The calls of a fill that starts with a builder at work, and the state that they lead to: calls
of `add`, and then it may be one call that ends the work of the builder.  All calls after that one
are misuses. -/
inductive Course (t : TemporaryHandle) : List Call → BuildState → Prop
  | start : Course t [] (.building t)
  | add {calls : List Call} {state : BuildState} (r : Record) (answer : Except Error Unit) :
      Course t calls state → Course t (⟨.add r, answer⟩ :: calls) state
  | ended {last : Call} {rest : List Call} (hlast : last.isAdd = false)
      (hrest : ∀ c ∈ rest, ∃ m, c.answer = .error (.misuse m)) :
      Course t (last :: rest) (if last.commits then .finished else .canceled)

/-- Every fill takes such a course. -/
theorem course (fill : Fill) (h : b.state = .building t) (s : FileSpace) :
    Course t (fill.calls b s) (fill.run b s).2.1.state := by
  -- Once the builder has ended it accepts nothing, so the rest of the fill changes nothing.
  induction fill generalizing b with
  | done result => exact h ▸ .start
  | add r next ih =>
    rw [calls, run_add]
    cases hadd : b.add r with
    | error e => exact .add r _ (ih _ h)
    | ok b' =>
      obtain ⟨-, -, -, rfl⟩ := add_eq_ok.1 hadd
      exact .add r _ (@ih _ (b.append r) h)
  | finish next ih =>
    rw [calls, run, finish_of_building h]
    cases s.replaceBy t b.path b.draft.image (b.mode % 0o10000) with
    | error fault =>
      simp only
      rw [run_of_ended _ rfl]
      exact .ended rfl (answer_of_ended _ rfl _)
    | ok s' =>
      simp only
      rw [run_of_ended _ rfl]
      exact .ended rfl (answer_of_ended _ rfl _)
  | cancel next ih =>
    obtain ⟨answer, hcancel⟩ := exists_cancel_of_building h s
    rw [calls, run, hcancel]
    simp only
    rw [run_of_ended _ rfl]
    exact .ended rfl (answer_of_ended _ rfl _)

namespace Course

variable {calls : List Call} {state : BuildState}

/-- A misuse commits nothing and adds nothing. -/
private theorem effects_of_misuse {rest : List Call}
    (hrest : ∀ c ∈ rest, ∃ m, c.answer = .error (.misuse m)) :
    (∀ c ∈ rest, c.commits = false) ∧ rest.filterMap Call.record? = [] := by
  refine ⟨?_, List.filterMap_eq_nil_iff.2 ?_⟩ <;>
  · rintro ⟨request, answer⟩ hc
    obtain ⟨m, rfl⟩ := hrest _ hc
    cases request <;> rfl

/-- The builder is finished just when a call has committed. -/
theorem finished_iff (h : Course t calls state) :
    state = .finished ↔ ∃ c ∈ calls, c.commits = true := by
  induction h with
  | start => simp
  | add r answer _ ih => simpa [Call.commits] using ih
  | @ended last rest hlast hrest =>
    have hnone := (effects_of_misuse hrest).1
    simp +contextual [hnone]

/-- The builder is at work just when there were no other calls than those of `add`. -/
theorem isBuilding_iff {b : Builder} (h : Course t calls b.state) :
    b.isBuilding = true ↔ ∀ c ∈ calls, c.isAdd = true := by
  unfold isBuilding
  generalize b.state = state at h
  induction h with
  | start => simp
  | add r answer _ ih => simpa [Call.isAdd] using ih
  | @ended last rest hlast hrest => cases last.commits <;> simp [hlast]

/-- At most one call commits. -/
theorem commits_once (h : Course t calls state) :
    (calls.filter Call.commits).length ≤ 1 := by
  induction h with
  | start => exact Nat.zero_le _
  | add r answer _ ih => simpa [Call.commits] using ih
  | @ended last rest hlast hrest =>
    have hnone : rest.filter Call.commits = [] :=
      List.filter_eq_nil_iff.2 (by simpa using (effects_of_misuse hrest).1)
    rw [List.filter_cons, hnone]
    split <;> simp

/-- All records that are added are added before the call that commits. -/
theorem recorded_eq (h : Course t calls state) :
    (calls.takeWhile fun c => !c.commits).filterMap Call.record? =
      calls.filterMap Call.record? := by
  induction h with
  | start => rfl
  | add r answer _ ih =>
    rw [List.takeWhile_cons_of_pos (by rfl), List.filterMap_cons, List.filterMap_cons, ih]
  | @ended last rest hlast hrest =>
    obtain ⟨hnone, hempty⟩ := effects_of_misuse hrest
    have hlast' : last.record? = none := by
      obtain ⟨request, answer⟩ := last
      cases request with
      | add r => cases hlast
      | finish => rfl
      | cancel => rfl
    have hall : ((last :: rest).filterMap Call.record?) = [] := by
      rw [List.filterMap_cons_none hlast', hempty]
    rw [hall]
    have hsublist := ((last :: rest).takeWhile_sublist fun c => !c.commits).filterMap Call.record?
    rwa [hall, List.sublist_nil] at hsublist

end Course

/-- The records that a fill of a builder at work adds before the commit are all that are accepted.
-/
theorem recorded_eq (fill : Fill) (h : b.state = .building t) (s : FileSpace) :
    fill.recorded b s = fill.accepted b s := by
  rw [recorded, (fill.course h s).recorded_eq, accepted_eq]

end Fill

/-! ### Builds in one go -/

variable {s : FileSpace} {path : Path} {mode : Option Nat} {fill : Fill}

/-- What a build in one go promises once its builder is opened. -/
structure AllOrNothing (s : FileSpace) (path : Path) (mode : Option Nat) (fill : Fill)
    (b : Builder) (s₁ : FileSpace) : Prop where
  /-- The temporary file of the build is gone. -/
  gone : ∀ t u, b.state = .building t → s₁.findTemporary t = .ok u →
    u ∉ (create s path mode fill).2.temporaries
  /-- Those of other builds are left alone. -/
  others : s.Sound → (create s path mode fill).2.temporaries = s.temporaries
  /-- A fill commits at most once. -/
  once : ((fill.calls b s₁).filter Call.commits).length ≤ 1
  /-- If the fill committed or the build succeeds, the target is the file of the records that were
  added before the commit, and no other file has changed. -/
  committed : fill.Commits b s₁ ∨ (create s path mode fill).1 = .ok () →
    (∃ time, (create s path mode fill).2.stat path =
      .ok (.file ⟨(Draft.ofRecords (fill.recorded b s₁)).image,
        mode.getD (((s.file? path).map File.mode).getD defaultMode) % 0o10000, time⟩)) ∧
    ∀ q, s.locate q ≠ s.locate path → (create s path mode fill).2.file? q = s.file? q
  /-- Otherwise every path leads to what it led to before. -/
  untouched : ¬fill.Commits b s₁ → ∀ e, (create s path mode fill).1 = .error e →
    ∀ q, (create s path mode fill).2.stat q = s.stat q
  /-- The build succeeds just when the fill does and leaves the builder at work, and the builder can
  be finished then. -/
  ok_iff : (create s path mode fill).1 = .ok () ↔
    (fill.run b s₁).1 = .ok () ∧ (fill.run b s₁).2.1.isBuilding = true ∧
      ((fill.run b s₁).2.1.finish (fill.run b s₁).2.2).1 = .ok ()
  /-- The builder is left at work just when the fill only added records. -/
  building_iff : (fill.run b s₁).2.1.isBuilding = true ↔ ∀ c ∈ fill.calls b s₁, c.isAdd = true
  /-- It is left finished just when the fill committed. -/
  finished_iff : (fill.run b s₁).2.1.state = .finished ↔ fill.Commits b s₁
  /-- An error of the fill is the error of the build. -/
  error_of_error : ∀ e, (fill.run b s₁).1 = .error e → (create s path mode fill).1 = .error e
  /-- A fill that succeeds but finished the builder makes the build fail. -/
  error_of_finished : (fill.run b s₁).1 = .ok () → (fill.run b s₁).2.1.state = .finished →
    (create s path mode fill).1 = .error (.misuse .alreadyFinished)
  /-- So does one that canceled it. -/
  error_of_canceled : (fill.run b s₁).1 = .ok () → (fill.run b s₁).2.1.state = .canceled →
    (create s path mode fill).1 = .error (.misuse .canceled)

section

variable {b : Builder} {s₁ : FileSpace} (hopen : Builder.open s path mode = .ok (b, s₁))
include hopen

/-- After a fill that succeeds the builder is finished, and its answer is that of the build. -/
private theorem create_of_ok (hresult : (fill.run b s₁).1 = .ok ()) :
    (create s path mode fill).1 = ((fill.run b s₁).2.1.finish (fill.run b s₁).2.2).1 := by
  rcases hrun : fill.run b s₁ with ⟨result, b₂, s₂⟩
  rw [hrun] at hresult
  cases hresult
  simp only [create, hopen, hrun]

/-- After a fill that fails nothing hides its error: a temporary file that was not used up is there
to be discarded. -/
private theorem create_of_error {e : Error} (hresult : (fill.run b s₁).1 = .error e) :
    (create s path mode fill).1 = .error e := by
  obtain ⟨bits, loc, -, -, hb, -⟩ := open_cases hopen
  have hstate : b.state = .building (handleFor s path) := by rw [hb]
  obtain ⟨draft, hcases⟩ := fill.run_of_building hstate s₁
  rcases hrun : fill.run b s₁ with ⟨result, b₂, s₂⟩
  rw [hrun] at hresult hcases
  cases hresult
  simp only [create, hopen, hrun]
  obtain hwork | hcanceled | ⟨s', -, hfinished⟩ := hcases
  · obtain ⟨rfl, rfl⟩ := Prod.mk.inj hwork
    obtain ⟨u, hfound⟩ := findTemporary_of_open hopen
    simp only [isBuilding, hstate, if_true, cancel, temporary, FileSpace.removeTemporary, hfound]
  · obtain ⟨rfl, rfl⟩ := Prod.mk.inj hcanceled
    rfl
  · obtain ⟨rfl, rfl⟩ := Prod.mk.inj hfinished
    rfl

/-- In either case only the temporary file of the build is missing from those that there were. -/
private theorem temporaries_of_open {u : TemporaryFile}
    (hfound : s₁.findTemporary (handleFor s path) = .ok u) :
    (create s path mode fill).2.temporaries = (s₁.without u).temporaries := by
  obtain ⟨e, -, hcreate⟩ | ⟨result, s', hreplace, hcreate, -⟩ := create_of_open hopen fill
  · rw [hcreate, FileSpace.discardTemporary_eq, hfound]
  · obtain ⟨loc, u', hfound', -, -, -, -, rfl⟩ := FileSpace.replaceBy_eq_ok.1 hreplace
    cases hfound.symm.trans hfound'
    rw [hcreate]
    rfl

/-- A build that commits leaves the file of the records that were added before. -/
private theorem committed_of_open {s' : FileSpace}
    (hreplace : s₁.replaceBy (handleFor s path) path (fill.run b s₁).2.1.draft.image
      (b.mode % 0o10000) = .ok s') :
    (∃ time, s'.stat path = .ok (.file ⟨(Draft.ofRecords (fill.recorded b s₁)).image,
        mode.getD (((s.file? path).map File.mode).getD defaultMode) % 0o10000, time⟩)) ∧
      ∀ q, s.locate q ≠ s.locate path → s'.file? q = s.file? q := by
  obtain ⟨bits, loc, hmode, -, hb, -⟩ := open_cases hopen
  have hstate : b.state = .building (handleFor s path) := by rw [hb]
  have hdraft : b.draft = .ofRecords [] := by rw [hb]; rfl
  have hnodes := nodes_open hopen
  rw [(fill.draft_run hdraft Draft.storable_nil s₁).1, List.nil_append,
    ← fill.recorded_eq hstate] at hreplace
  constructor
  · rw [← chooseMode_eq_ok hmode]
    rw [show b.mode = bits by rw [hb]] at hreplace
    exact FileSpace.stat_of_replaceBy hreplace
  · intro q hq
    -- The new temporary file is no entry, so opening the builder has moved nothing.
    rw [← FileSpace.locate_of_nodes hnodes, ← FileSpace.locate_of_nodes hnodes path] at hq
    rw [FileSpace.file?_of_replaceBy hreplace hq, FileSpace.file?, FileSpace.file?,
      FileSpace.stat_of_nodes hnodes]

theorem allOrNothing_of_open (fill : Fill) : AllOrNothing s path mode fill b s₁ := by
  obtain ⟨bits, loc, -, -, hb, -⟩ := open_cases hopen
  have hstate : b.state = .building (handleFor s path) := by rw [hb]
  have hcourse := fill.course hstate s₁
  -- The course of the calls says what the builder did; the two outcomes of the build say the rest.
  refine {
    gone := ?gone
    others := fun hs => temporaries_create hs path mode fill
    once := hcourse.commits_once
    committed := ?committed
    untouched := ?untouched
    ok_iff := ?ok_iff
    building_iff := hcourse.isBuilding_iff
    finished_iff := hcourse.finished_iff
    error_of_error := fun e => create_of_error hopen
    error_of_finished := ?error_of_finished
    error_of_canceled := ?error_of_canceled }
  case gone =>
    intro t u ht hfound
    cases hstate.symm.trans ht
    rw [temporaries_of_open hopen hfound]
    simp [FileSpace.without]
  case committed =>
    intro hdone
    obtain ⟨e, hnot, hcreate⟩ | ⟨result, s', hreplace, hcreate, -⟩ := create_of_open hopen fill
    · rw [hcreate, Fill.Commits, ← hcourse.finished_iff] at hdone
      simp [hnot] at hdone
    · rw [hcreate]
      exact committed_of_open hopen hreplace
  case untouched =>
    intro hnot e he q
    have hnodes : (create s path mode fill).2.nodes = s.nodes := by
      refine nodes_create_of_error he fun b' s₁' hopen' => ?_
      cases hopen.symm.trans hopen'
      exact mt hcourse.finished_iff.1 hnot
    exact FileSpace.stat_of_nodes hnodes q
  case ok_iff =>
    cases hresult : (fill.run b s₁).1 with
    | error e => simp [create_of_error hopen hresult]
    | ok u =>
      rw [create_of_ok hopen hresult]
      simp only [true_and, iff_and_self]
      intro hfinish
      by_contra hended
      obtain ⟨m, hm⟩ := finish_of_ended (Bool.eq_false_of_not_eq_true hended) (fill.run b s₁).2.2
      rw [hm] at hfinish
      cases hfinish
  case error_of_finished =>
    intro hresult hfinished
    simp only [create_of_ok hopen hresult, finish, temporary, hfinished]
  case error_of_canceled =>
    intro hresult hcanceled
    simp only [create_of_ok hopen hresult, finish, temporary, hcanceled]

end

/-- A build in one go fails to open its target and does nothing, or it commits all records that were
added before the commit, or nothing. -/
theorem create_all_or_nothing (s : FileSpace) (path : Path) (mode : Option Nat) (fill : Fill) :
    match Builder.open s path mode with
    | .error e => create s path mode fill = (.error e, s)
    | .ok (b, s₁) => AllOrNothing s path mode fill b s₁ := by
  cases hopen : Builder.open s path mode with
  | error e => rw [create, hopen]
  | ok opened => exact allOrNothing_of_open hopen fill

/-- The sample is committed by a fill that finishes the builder itself and fails behind that. -/
theorem create_all_or_nothing_finished :
    let fill := Fill.addAll Sample.records (.finish fun _ => .done (.error (.misuse .canceled)))
    let built := create (.empty 15) ⟨[0x61]⟩ none fill
    built.1 = .error (.misuse .canceled) ∧ built.2.temporaries = [] ∧
      ∃ time, built.2.stat ⟨[0x61]⟩ =
        .ok (.file ⟨(Draft.ofRecords Sample.records).image, 0o400, time⟩) := by
  intro fill built
  have h := create_all_or_nothing (.empty 15) ⟨[0x61]⟩ none fill
  simp only [Sample.open_eq] at h
  have hcommits : fill.Commits Sample.builder Sample.opened := h.finished_iff.1 rfl
  exact ⟨h.error_of_error _ rfl, h.others (FileSpace.sound_start 15 id),
    (h.committed (.inl hcommits)).1⟩

end ConstDb.Builder
