import ConstDb.Proofs.Reader.Calls
import ConstDb.Proofs.Reader.Mapping
import ConstDb.Proofs.Session.Agree

/-! # Readers in a session

A reader keeps its image while other steps go on: all that it answers comes from the image and from
the questions that it was asked before.

## Key results

- `Session.answersOf_eq`: what a reader answers, whatever other steps do in between
- `Session.agree_of_kept`, `Session.agree_of_taken`: what `refresh` comes to
-/

namespace ConstDb

/-- The question that a step asks of a reader. -/
def Step.question? (n : Nat) : Step → Option ReaderStep
  | .reader m step => if m = n ∧ step.isQuestion then some step else none
  | _ => none

namespace Session

variable {s : Session} {n : Nat} {r : Reader}

/-! ### Steps and readers -/

theorem step_reader_of_lookup (h : s.readers.lookup n = some r) (step : ReaderStep) :
    s.step (.reader n step) =
      ({ s with readers := putAt s.readers n (stepReader r s.space step).1 },
        (stepReader r s.space step).2) := by
  simp only [Session.step, h]

theorem step_reader_of_none (h : s.readers.lookup n = none) (step : ReaderStep) :
    s.step (.reader n step) = (s, .error .noReader) := by
  simp only [Session.step, h]

theorem step_refresh_of_ok {flag : Bool} {r' : Reader} (hlookup : s.readers.lookup n = some r)
    (h : r.refresh s.space = .ok (flag, r')) :
    s.step (.reader n .refresh) =
      ({ s with readers := putAt s.readers n r' }, .ok (.flag flag)) := by
  simp only [step_reader_of_lookup hlookup, stepReader, h]

theorem step_open_of_ok {path : Path} (h : Reader.open s.space path = .ok r) :
    s.step (.open n path) =
      ({ s with readers := putAt (dropAt s.readers n) n r }, .ok .unit) := by
  simp only [Session.step, h]

/-- A step touches no reader but the one that it is about. -/
theorem lookup_readers_step {step : Step} (h : step.reader? ≠ some n) :
    (s.step step).1.readers.lookup n = s.readers.lookup n := by
  cases step with
  | «open» m path =>
    have hne : n ≠ m := by
      rintro rfl
      exact h rfl
    simp only [Session.step]
    split
    · rw [lookup_dropAt, if_neg hne]
    · rw [lookup_putAt, if_neg hne, lookup_dropAt, if_neg hne]
  | reader m step =>
    have hne : n ≠ m := by
      rintro rfl
      exact h rfl
    cases hlookup : s.readers.lookup m with
    | none => rw [step_reader_of_none hlookup]
    | some r => rw [step_reader_of_lookup hlookup, lookup_putAt, if_neg hne]
  | _ => rw [s.readers_step rfl]

/-- What a reader that is refreshed comes to: it stays as it is, or it is as a new one would be. -/
theorem stepReader_refresh_cases (r : Reader) (space : FileSpace) :
    ((stepReader r space .refresh).1 = r ∧
        (stepReader r space .refresh).2 ≠ .ok (.flag true) ∧
        ((stepReader r space .refresh).2 = .ok (.flag false) → ∃ m f, r.mapping = some m ∧
          space.stat r.path = .ok (.file f) ∧ f.bytes.size = m.image.bytes.size ∧
          f.time = m.time)) ∨
      ∃ m fresh, stepReader r space .refresh = (fresh, .ok (.flag true)) ∧ r.mapping = some m ∧
        Reader.open space r.path = .ok fresh ∧
        ∀ f, space.stat r.path = .ok (.file f) →
          ¬(f.bytes.size = m.image.bytes.size ∧ f.time = m.time) := by
  simp only [stepReader]
  rcases r.refresh_cases space with
    ⟨e, hrefresh⟩ | ⟨hrefresh, m, f, hsame⟩ | ⟨m, fresh, hrefresh, htaken⟩
  · rw [hrefresh]
    exact .inl ⟨rfl, by simp, by simp⟩
  · rw [hrefresh]
    exact .inl ⟨rfl, by simp, fun _ => ⟨m, f, hsame⟩⟩
  · rw [hrefresh]
    exact .inr ⟨m, fresh, rfl, htaken⟩

/-! ### Answers of a reader -/

/-- Whether a step lets a reader keep its image: it does not open another one under its number, and
does not make it take a new image. -/
def Keeps (n : Nat) (s : Session) : Step → Prop
  | .open m _ => m ≠ n
  | .reader m .refresh => m = n → (s.step (.reader m .refresh)).2 ≠ .ok (.flag true)
  | _ => True

/-- What a reader answers to the questions among the steps of a run. -/
def answersOf (n : Nat) : Session → List Step → List Reply
  | _, [] => []
  | s, step :: rest =>
    match step.question? n with
    | none => answersOf n (s.step step).1 rest
    | some _ => (s.step step).2 :: answersOf n (s.step step).1 rest

/-- A `refresh` that takes nothing leaves the session as it is. -/
theorem agree_of_kept (h : (s.step (.reader n .refresh)).2 ≠ .ok (.flag true)) :
    Agree s (s.step (.reader n .refresh)).1 := by
  cases hlookup : s.readers.lookup n with
  | none =>
    rw [step_reader_of_none hlookup]
    exact .refl s
  | some r =>
    rw [step_reader_of_lookup hlookup] at h ⊢
    rcases stepReader_refresh_cases r s.space with ⟨hsame, -⟩ | ⟨m, fresh, htaken, -⟩
    · rw [hsame]
      exact ⟨rfl, fun _ => rfl, lookup_putAt_of_lookup hlookup⟩
    · rw [htaken] at h
      exact absurd rfl h

/-- A `refresh` that takes a new image is as good as opening a new reader. -/
theorem agree_of_taken (hlookup : s.readers.lookup n = some r)
    (h : (s.step (.reader n .refresh)).2 = .ok (.flag true)) :
    (s.step (.open n r.path)).2 = .ok .unit ∧
      Agree (s.step (.open n r.path)).1 (s.step (.reader n .refresh)).1 := by
  rw [step_reader_of_lookup hlookup] at h ⊢
  rcases stepReader_refresh_cases r s.space with ⟨-, hkept, -⟩ | ⟨m, fresh, htaken, -, hopen, -⟩
  · exact absurd h hkept
  · -- Opening takes the old reader out first, which makes no difference to what is found.
    simp only [Session.step, hopen, htaken]
    refine ⟨trivial, rfl, fun _ => rfl, fun m => ?_⟩
    rw [lookup_putAt, lookup_putAt, lookup_dropAt]
    split <;> rfl

/-- A question is put to the reader that it is for. -/
theorem question_eq_some {step : Step} {question : ReaderStep}
    (h : step.question? n = some question) :
    step = .reader n question ∧ question.isQuestion = true := by
  cases step with
  | reader m step =>
    simp only [Step.question?] at h
    split at h
    · rename_i hquestion
      cases h
      exact ⟨hquestion.1 ▸ rfl, hquestion.2⟩
    · cases h
  | _ => cases h

/-- A reader that is asked answers from its image. -/
theorem step_of_asked (hlookup : s.readers.lookup n = some r) {step : Step}
    {question : ReaderStep} (h : step.question? n = some question) :
    (s.step step).1.readers.lookup n = some (stepReader r (.empty 0) question).1 ∧
      (s.step step).2 = (stepReader r (.empty 0) question).2 := by
  obtain ⟨rfl, hquestion⟩ := question_eq_some h
  rw [step_reader_of_lookup hlookup, stepReader_eq hquestion r s.space (.empty 0)]
  exact ⟨lookup_putAt_self .., rfl⟩

/-- A reader that keeps its image and is not asked stays as it is. -/
theorem Keeps.lookup_of_not_asked {step : Step} (h : Keeps n s step)
    (hlookup : s.readers.lookup n = some r) (hask : step.question? n = none) :
    (s.step step).1.readers.lookup n = some r := by
  by_cases habout : step.reader? = some n
  · cases step with
    | «open» m path => exact absurd (Option.some.inj habout) h
    | reader m step =>
      cases habout
      cases step with
      | refresh => rw [(agree_of_kept (h rfl)).readers n, hlookup]
      | _ => simp [Step.question?, ReaderStep.isQuestion] at hask
    | _ => cases habout
  · rw [lookup_readers_step habout, hlookup]

/-- A reader that keeps its image answers from it alone, whatever other steps do in between. -/
theorem answersOf_eq {rest : List Step} (hlookup : s.readers.lookup n = some r)
    (h : s.Along (Keeps n) rest) :
    answersOf n s rest = r.answers (rest.filterMap (Step.question? n)) := by
  -- Between two questions the reader stays as it is; a question takes it one step further.
  induction rest generalizing s r with
  | nil => rfl
  | cons step rest ih =>
    obtain ⟨hkeeps, hrest⟩ := h
    rw [answersOf, List.filterMap_cons]
    cases hask : step.question? n with
    | none => exact ih (hkeeps.lookup_of_not_asked hlookup hask) hrest
    | some question =>
      obtain ⟨hnext, hreply⟩ := step_of_asked hlookup hask
      simp only [Reader.answers]
      rw [ih hnext hrest, hreply]

end Session

end ConstDb
