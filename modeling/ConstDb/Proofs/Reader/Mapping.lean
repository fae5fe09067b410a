import ConstDb.Proofs.Builder.Commit
import ConstDb.Proofs.Reader.Calls

/-! # What a reader maps

A reader has the image of one file.  It takes another one only when `refresh` says so; all else that
it answers comes from its image and its cursor, and the cursor matters to `findNext` alone.

## Key results

- `Reader.refresh_cases`: what `refresh` may do
- `Session.stepReader_eq`: no other step looks at the files
- `Reader.answers_forget`: a reader answers as if it were new until `findNext` is asked of its
  cursor
-/

namespace ConstDb

variable {s : FileSpace} {path : Path}

/-- Mappings with the same bytes and the same stamp are the same. -/
theorem Mapping.eq_of_bytes_eq {m m' : Mapping} (hbytes : m.image.bytes = m'.image.bytes)
    (htime : m.time = m'.time) : m = m' := by
  obtain ⟨image, time⟩ := m
  obtain ⟨image', time'⟩ := m'
  cases Image.eq_of_bytes_eq hbytes
  cases htime
  rfl

namespace Reader

/-- A file with the size and the stamp of the mapping counts as unchanged. -/
theorem refresh_of_same {r : Reader} {m : Mapping} {f : File} (hmapping : r.mapping = some m)
    (hstat : s.stat r.path = .ok (.file f))
    (hsame : f.bytes.size = m.image.bytes.size ∧ f.time = m.time) :
    r.refresh s = .ok (false, r) := by
  simp only [refresh, current, hmapping, hstat, hsame, and_self, decide_true, if_true]

/-- Anything else is taken as by a new reader. -/
theorem refresh_of_changed {r : Reader} {m : Mapping} {node : Node} (hmapping : r.mapping = some m)
    (hstat : s.stat r.path = .ok node)
    (hchanged : ∀ f, node = .file f → ¬(f.bytes.size = m.image.bytes.size ∧ f.time = m.time)) :
    r.refresh s = (Reader.open s r.path).map fun fresh => (true, fresh) := by
  have htaken : r.refresh s = (Mapping.load s r.path).map fun fresh =>
      (true, { r with mapping := some fresh, cursor := none }) := by
    simp only [refresh, current, hmapping, hstat]
    cases node with
    | directory => rfl
    | file f => simp only [hchanged f rfl, decide_false, Bool.false_eq_true, if_false]
  rw [htaken, Reader.open]
  cases Mapping.load s r.path <;> rfl

/-- A reader that is refreshed fails, or it finds size and stamp of the file unchanged and stays as
it is, or it does as a new reader would. -/
theorem refresh_cases (r : Reader) (s : FileSpace) :
    (∃ e, r.refresh s = .error e) ∨
      (r.refresh s = .ok (false, r) ∧ ∃ m f, r.mapping = some m ∧
        s.stat r.path = .ok (.file f) ∧ f.bytes.size = m.image.bytes.size ∧ f.time = m.time) ∨
      ∃ m fresh, r.refresh s = .ok (true, fresh) ∧ r.mapping = some m ∧
        Reader.open s r.path = .ok fresh ∧
        ∀ f, s.stat r.path = .ok (.file f) →
          ¬(f.bytes.size = m.image.bytes.size ∧ f.time = m.time) := by
  cases hmapping : r.mapping with
  | none => exact .inl ⟨_, by simp only [refresh, current, hmapping]; rfl⟩
  | some m =>
    cases hstat : s.stat r.path with
    | error fault => exact .inl ⟨_, by simp only [refresh, current, hmapping, hstat]; rfl⟩
    | ok node =>
      -- Size and stamp alone decide; anything else at the path is mapped anew.
      by_cases hsame : ∃ f, node = .file f ∧ f.bytes.size = m.image.bytes.size ∧ f.time = m.time
      · obtain ⟨f, rfl, hsame⟩ := hsame
        exact .inr (.inl ⟨refresh_of_same hmapping hstat hsame, m, f, rfl, rfl, hsame⟩)
      · have hchanged : ∀ f, node = .file f →
            ¬(f.bytes.size = m.image.bytes.size ∧ f.time = m.time) :=
          fun f hf h => hsame ⟨f, hf, h⟩
        have htaken := refresh_of_changed hmapping hstat hchanged
        cases hopen : Reader.open s r.path with
        | error e => exact .inl ⟨e, by rw [htaken, hopen]; rfl⟩
        | ok fresh =>
          refine .inr (.inr ⟨m, fresh, by rw [htaken, hopen]; rfl, rfl, rfl, fun f hf => ?_⟩)
          exact hchanged f (Except.ok.inj hf)

end Reader

/-! ### Answers -/

/-- Whether a step with a reader is a question: anything but `refresh`. -/
def ReaderStep.isQuestion : ReaderStep → Bool
  | .refresh => false
  | _ => true

/-- No question looks at the files. -/
theorem Session.stepReader_eq {step : ReaderStep} (h : step.isQuestion = true) (r : Reader)
    (space space' : FileSpace) : stepReader r space step = stepReader r space' step := by
  cases step with
  | refresh => cases h
  | _ => rfl

/-- A question leaves a reader with its image, unless it closes the reader. -/
theorem Session.mapping_stepReader {step : ReaderStep} (h : step.isQuestion = true) (r : Reader)
    (space : FileSpace) :
    (stepReader r space step).1.path = r.path ∧
      ((stepReader r space step).1.mapping = r.mapping ∨
        (stepReader r space step).1.mapping = none) := by
  -- Only `close` touches the mapping, and only the two calls with a cursor touch anything else.
  have hself : r.path = r.path ∧ (r.mapping = r.mapping ∨ r.mapping = none) := ⟨rfl, .inl rfl⟩
  cases step with
  | close =>
    simp only [stepReader, Reader.close]
    cases r.current with
    | error e => exact hself
    | ok m => exact ⟨rfl, .inr rfl⟩
  | refresh => cases h
  | advise name =>
    simp only [stepReader]
    cases Advice.ofName? name <;> exact hself
  | findKey key =>
    simp only [stepReader]
    cases hmapping : r.mapping with
    | none => simp only [Reader.findKey, Reader.current, hmapping, and_self, true_or]
    | some m =>
      obtain ⟨image, time⟩ := m
      rw [Reader.findKey_eq hmapping]
      split
      · exact ⟨rfl, .inl hmapping⟩
      · split <;> exact ⟨rfl, .inl hmapping⟩
  | findNext =>
    simp only [stepReader]
    cases hmapping : r.mapping with
    | none => simp only [Reader.findNext, Reader.current, hmapping, and_self, true_or]
    | some m =>
      obtain ⟨image, time⟩ := m
      cases hcursor : r.cursor with
      | none =>
        rw [Reader.findNext_eq_none hmapping hcursor]
        exact ⟨rfl, .inl hmapping⟩
      | some c =>
        rw [Reader.findNext_eq hmapping hcursor]
        split <;> exact ⟨rfl, .inl hmapping⟩
  | dump sink =>
    rw [stepReader]
    exact hself
  | _ => exact hself

/-- Dumping leaves a reader as it is. -/
theorem Session.stepReader_dump (r : Reader) (space : FileSpace) (sink : Sink) :
    stepReader r space (.dump sink) =
      (r, .ok (.dumped (r.dump sink).1 (r.dump sink).2.taken)) := by
  rw [stepReader]

namespace Reader

/-- What a reader answers to some questions one after the other, wherever there are no files. -/
def answers (r : Reader) : List ReaderStep → List Reply
  | [] => []
  | step :: rest =>
    (Session.stepReader r (.empty 0) step).2 ::
      answers (Session.stepReader r (.empty 0) step).1 rest

/-- Whether no question is one of `findNext` before there is one of `findKey`. -/
def FindsFirst : List ReaderStep → Prop
  | [] => True
  | .findKey _ :: _ => True
  | .findNext :: _ => False
  | _ :: rest => FindsFirst rest

/-- A closed reader has no use for its cursor. -/
private theorem answers_closed (path : Path) (cursor : Option Cursor) {steps : List ReaderStep}
    (hquestions : ∀ step ∈ steps, step.isQuestion = true) :
    answers ⟨path, none, cursor⟩ steps = answers ⟨path, none, none⟩ steps := by
  induction steps with
  | nil => rfl
  | cons step rest ih =>
    have hrest := ih fun step hstep => hquestions step (List.mem_cons_of_mem _ hstep)
    cases step with
    | refresh => cases hquestions _ List.mem_cons_self
    | advise name =>
      simp only [answers, Session.stepReader]
      cases Advice.ofName? name <;> exact congrArg _ hrest
    | _ => exact congrArg _ hrest

/-- A reader answers as if its cursor were nowhere, until `findNext` is asked. -/
theorem answers_forget (path : Path) (mapping : Option Mapping) (cursor : Option Cursor)
    {steps : List ReaderStep} (h : FindsFirst steps)
    (hquestions : ∀ step ∈ steps, step.isQuestion = true) :
    answers ⟨path, mapping, cursor⟩ steps = answers ⟨path, mapping, none⟩ steps := by
  cases mapping with
  | none => exact answers_closed path cursor hquestions
  | some m =>
    -- The two readers differ in the cursor, which no question before the first `findKey` reads.
    induction steps with
    | nil => rfl
    | cons step rest ih =>
      have hrest (h : FindsFirst rest) :=
        ih h fun step hstep => hquestions step (List.mem_cons_of_mem _ hstep)
      cases step with
      | refresh => cases hquestions _ List.mem_cons_self
      | close => rfl
      | advise name =>
        simp only [answers, Session.stepReader]
        cases Advice.ofName? name <;> exact congrArg _ (hrest h)
      | findKey key =>
        -- From here on both readers are the same.
        have hsame : findKey ⟨path, some m, cursor⟩ key = findKey ⟨path, some m, none⟩ key := rfl
        simp only [answers, Session.stepReader, hsame]
      | findNext => exact h.elim
      | dump sink =>
        have hsame : dump ⟨path, some m, cursor⟩ sink = dump ⟨path, some m, none⟩ sink := by
          simp only [dump, current]
        rw [answers, answers, Session.stepReader_dump, Session.stepReader_dump, hsame]
        exact congrArg _ (hrest h)
      | _ => exact congrArg _ (hrest h)

end Reader

end ConstDb
