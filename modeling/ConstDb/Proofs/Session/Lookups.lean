import ConstDb.Proofs.Reader.Cursor
import ConstDb.Proofs.Session.Snapshot

/-! # Lookups in a session

All that a reader is asked about a key is answered from one walk: the occurrences of the key, with
the damage that may end them.  The cursor gives them call by call, whatever else the reader is asked
and whatever else happens in the session between the calls.

## Key results

- `Session.awaits_run`: a cursor is moved by `findNext` alone
- `Session.refines_occurrences`: all lookups of a reader, and its cursor, follow the occurrences
-/

namespace ConstDb

/-- Whether a step is a call of `findNext` of the reader `n`. -/
def Step.findsNext (n : Nat) : Step → Bool
  | .reader m .findNext => decide (m = n)
  | _ => false

namespace Session

variable {s : Session} {n : Nat} {r : Reader} {image : Image} {key : ByteArray}

/-- Whether a step leaves a reader the search that its cursor is at: the reader keeps its image, is
not closed, and is not put on another key. -/
structure LeavesSearch (n : Nat) (s : Session) (step : Step) : Prop where
  keeps : Keeps n s step
  ne_close : step ≠ .reader n .close
  ne_findKey : ∀ key, step ≠ .reader n (.findKey key)

/-- What a reader of a session gives for a key is read off one walk of values. -/
structure AnswersFrom (s : Session) (n : Nat) (key : ByteArray) (w : Walk ByteArray) : Prop where
  /-- Nothing but damage ends the walk early. -/
  isFormat : ∀ e, w.failure = some e → e.IsFormat
  occurrences : (s.step (.reader n (.occurrences key))).2 = .ok (.occurrenceCalls w.outcomes)
  /-- Damage behind the occurrence that is asked for makes no difference. -/
  nth (i : Nat) : (s.step (.reader n (.nth key i))).2 = replyOf .bytes? (w.get? i)
  count : (s.step (.reader n (.count key))).2 = replyOf .number (w.toExcept.map List.length)
  findAll : (s.step (.reader n (.findAll key))).2 = replyOf .byteStrings w.toExcept
  hasKey : (s.step (.reader n (.hasKey key))).2 =
    replyOf .flag ((w.get? 0).map Option.isSome)
  findKey : (s.step (.reader n (.findKey key))).2 = replyOf .bytes? (w.call 0)

/-! ### Steps and runs -/

/-- A step that leaves a reader its search moves the cursor on if it is a call of `findNext`, and
else does nothing to it. -/
theorem awaits_step {step : Step} {j : Nat} (h : LeavesSearch n s step)
    (hlookup : s.readers.lookup n = some r) (hr : r.Awaits image key j) :
    ∃ r', (s.step step).1.readers.lookup n = some r' ∧
      r'.Awaits image key (j + if step.findsNext n then 1 else 0) := by
  -- A step that is no question to this reader leaves it alone, and among the questions only
  -- `findNext` moves its cursor.
  cases hask : step.question? n with
  | none =>
    have hother : step.findsNext n = false := by
      cases step with
      | reader m question =>
        cases question with
        | findNext => simpa [Step.question?, ReaderStep.isQuestion, Step.findsNext] using hask
        | _ => rfl
      | _ => rfl
    exact ⟨r, h.keeps.lookup_of_not_asked hlookup hask, by simpa [hother] using hr⟩
  | some question =>
    obtain ⟨hnext, -⟩ := step_of_asked hlookup hask
    obtain ⟨rfl, hquestion⟩ := question_eq_some hask
    refine ⟨_, hnext, ?_⟩
    cases question with
    | close => exact absurd rfl h.ne_close
    | findKey key => exact absurd rfl (h.ne_findKey key)
    | refresh => cases hquestion
    | findNext =>
      have hcounts : Step.findsNext n (.reader n .findNext) = true := decide_eq_true rfl
      rw [hcounts]
      exact hr.findNext.2
    | advise name =>
      simp only [stepReader]
      split <;> exact hr
    | _ => exact hr

/-- Along a run that leaves a reader its search, the cursor is moved by `findNext` alone. -/
theorem awaits_run {rest : List Step} {j : Nat} (h : s.Along (LeavesSearch n) rest)
    (hlookup : s.readers.lookup n = some r) (hr : r.Awaits image key j) :
    ∃ r', (s.run rest).2.readers.lookup n = some r' ∧
      r'.Awaits image key (j + rest.countP (Step.findsNext n)) := by
  induction rest generalizing s r j with
  | nil => exact ⟨r, hlookup, hr⟩
  | cons step rest ih =>
    obtain ⟨hstep, hrest⟩ := h
    obtain ⟨r₁, hlookup₁, hr₁⟩ := awaits_step hstep hlookup hr
    obtain ⟨r₂, hlookup₂, hr₂⟩ := ih hrest hlookup₁ hr₁
    refine ⟨r₂, hlookup₂, ?_⟩
    rw [List.countP_cons]
    have hsum : j + (if step.findsNext n then 1 else 0) + rest.countP (Step.findsNext n) =
        j + (rest.countP (Step.findsNext n) + if step.findsNext n then 1 else 0) := by omega
    exact hsum ▸ hr₂

/-! ### Lookups -/

/-- The values of several keys are those of their walks, up to the first error. -/
private theorem valuesAt_eq_mapM (image : Image) (keys : List ByteArray) :
    image.valuesAt keys =
      (keys.mapM fun key => (image.occurrences key).toExcept).map List.flatten := by
  induction keys with
  | nil => rfl
  | cons key keys ih =>
    rw [Image.valuesAt_cons, Image.findAll_eq, ih, List.mapM_cons]
    cases (image.occurrences key).toExcept with
    | error e => rfl
    | ok values =>
      cases keys.mapM fun key => (image.occurrences key).toExcept <;> rfl

/-- A reader gives the occurrences of a key, whatever session it is in. -/
theorem answersFrom_occurrences {time : Nat} (hlookup : s.readers.lookup n = some r)
    (hr : r.mapping = some ⟨image, time⟩) (key : ByteArray) :
    s.AnswersFrom n key (image.occurrences key) := by
  have hanswers := image.answersFrom_hits key
  constructor
  case isFormat => exact fun e he => image.isFormat_of_hits he
  case findKey =>
    rw [step_reader_of_lookup hlookup]
    simp only [stepReader, (Reader.awaits_findKey hr key).1]
  all_goals
    intros
    rw [step_reader_of_lookup hlookup]
    simp only [stepReader, Reader.ask_of_mapping hr]
  case occurrences => rfl
  case nth => rw [hanswers.nth, hanswers.occurrences]
  case count => rw [image.count_eq]
  case findAll => rw [image.findAll_eq]
  case hasKey => rw [Image.containsKey, Image.first, hanswers.nth, hanswers.occurrences]

/-- The lookups of a reader and its cursor follow the occurrences of the key.  After `findKey` and
any run that leaves the reader its search, the reader answers all lookups as before, and a call of
`findNext` gives what an iterator gives in the place of that call: the values, the error once, and
then nothing for ever.  If `findKey` had no value, all calls of `findNext` find nothing. -/
theorem refines_occurrences {time : Nat} (hlookup : s.readers.lookup n = some r)
    (hr : r.mapping = some ⟨image, time⟩) :
    (∀ key, s.AnswersFrom n key (image.occurrences key)) ∧
    (∀ keys, (s.step (.reader n (.valuesAt keys))).2 = replyOf .byteStrings
      ((keys.mapM fun key => (image.occurrences key).toExcept).map List.flatten)) ∧
    ∀ key rest, (s.step (.reader n (.findKey key))).1.Along (LeavesSearch n) rest →
      let t := ((s.step (.reader n (.findKey key))).1.run rest).2
      (∀ key', t.AnswersFrom n key' (image.occurrences key')) ∧
      (t.step (.reader n .findNext)).2 = replyOf .bytes?
        ((image.occurrences key).call (1 + rest.countP (Step.findsNext n))) ∧
      ((∀ value, (s.step (.reader n (.findKey key))).2 ≠ .ok (.bytes? (some value))) →
        (t.step (.reader n .findNext)).2 = .ok (.bytes? none)) := by
  refine ⟨answersFrom_occurrences hlookup hr, fun keys => ?_, fun key rest hrest => ?_⟩
  · rw [step_reader_of_lookup hlookup]
    simp only [stepReader, Reader.ask_of_mapping hr, valuesAt_eq_mapM]
  intro t
  -- The search that `findKey` starts is still the one of the cursor after the run.
  have hfound := (Reader.awaits_findKey hr key).2
  have hstep := step_reader_of_lookup hlookup (.findKey key)
  have hlookup₁ : (s.step (.reader n (.findKey key))).1.readers.lookup n =
      some (r.findKey key).2 := by
    rw [hstep]
    exact lookup_putAt_self ..
  obtain ⟨r', hlookup', hawaits⟩ := awaits_run hrest hlookup₁ hfound
  obtain ⟨time', hr'⟩ := hawaits.mapping_eq
  have hnext : (t.step (.reader n .findNext)).2 = replyOf .bytes?
      ((image.occurrences key).call (1 + rest.countP (Step.findsNext n))) := by
    rw [step_reader_of_lookup hlookup']
    simp only [stepReader, hawaits.findNext.1]
  refine ⟨answersFrom_occurrences hlookup' hr', hnext, fun hmissed => ?_⟩
  rw [(answersFrom_occurrences hlookup hr key).findKey] at hmissed
  have hnone : ∀ value, (image.occurrences key).get? 0 ≠ .ok (some value) := by
    intro value hvalue
    rw [← Walk.call_eq_get? (Nat.zero_le _)] at hvalue
    exact hmissed value (by rw [hvalue, replyOf])
  rw [hnext, Walk.call_of_get?_ne_some (Nat.zero_le _) hnone (by omega)]
  rfl

/-- Two values of a key, with a count of another key between the calls. -/
theorem refines_occurrences_two :
    let s := ((empty.run Sample.building).2.step (.open 0 ⟨[0x61]⟩)).1
    let t := (s.step (.reader 0 (.findKey ⟨#[0x6b]⟩))).1
    (s.step (.reader 0 (.findKey ⟨#[0x6b]⟩))).2 = .ok (.bytes? (some ⟨#[1]⟩)) ∧
      (t.step (.reader 0 .findNext)).2 = .ok (.bytes? (some ⟨#[3]⟩)) ∧
      ((t.run [.reader 0 (.count ⟨#[]⟩), .reader 0 .findNext]).2.step (.reader 0 .findNext)).2 =
        .ok (.bytes? none) := by
  obtain ⟨image, time, hopen, hbytes⟩ := Sample.exists_reader
  have hopened : Sample.built.step (.open 0 ⟨[0x61]⟩) =
      ({ Sample.built with readers := [(0, ⟨⟨[0x61]⟩, some ⟨image, time⟩, none⟩)] }, .ok .unit) :=
    step_open_of_ok hopen
  have hlookup : ((empty.run Sample.building).2.step (.open 0 ⟨[0x61]⟩)).1.readers.lookup 0 =
      some ⟨⟨[0x61]⟩, some ⟨image, time⟩, none⟩ := by
    rw [Sample.run_building, hopened]
    rfl
  -- From here on the session counts only for its reader.
  generalize ((empty.run Sample.building).2.step (.open 0 ⟨[0x61]⟩)).1 = s at hlookup ⊢
  have hstorable := (Builder.addAll_of_open Builder.Sample.open_eq Builder.Sample.addAll_eq).2
  have hvalues : Record.valuesOf ⟨#[0x6b]⟩ Builder.Sample.records = [⟨#[1]⟩, ⟨#[3]⟩] := by decide
  have hoccurrences := hstorable.occurrences_image hbytes ⟨#[0x6b]⟩
  rw [hvalues] at hoccurrences
  obtain ⟨hanswers, -, hcursor⟩ := refines_occurrences hlookup rfl
  have hleaves (step : ReaderStep) (s' : Session) (hkeeps : step.isQuestion = true)
      (hclose : step ≠ .close) (hfind : ∀ key, step ≠ .findKey key) :
      LeavesSearch 0 s' (.reader 0 step) := by
    refine ⟨?_, fun h => hclose (by cases h; rfl), fun key h => hfind key (by cases h; rfl)⟩
    cases step with
    | refresh => cases hkeeps
    | _ => trivial
  have hsecond := (hcursor ⟨#[0x6b]⟩ [] trivial).2.1
  have hthird := (hcursor ⟨#[0x6b]⟩ [.reader 0 (.count ⟨#[]⟩), .reader 0 .findNext]
    ⟨hleaves _ _ rfl (by simp) (by simp), hleaves _ _ rfl (by simp) (by simp), trivial⟩).2.1
  have hcalls : (⟨[⟨#[1]⟩, ⟨#[3]⟩], none⟩ : Walk ByteArray).call 1 = .ok (some ⟨#[3]⟩) ∧
      (⟨[⟨#[1]⟩, ⟨#[3]⟩], none⟩ : Walk ByteArray).call 2 = .ok none := ⟨rfl, rfl⟩
  have hcount : [Step.reader 0 (.count ⟨#[]⟩), .reader 0 .findNext].countP (Step.findsNext 0) = 1 :=
    rfl
  rw [run_nil, hoccurrences, List.countP_nil, hcalls.1, replyOf] at hsecond
  rw [hoccurrences, hcount, hcalls.2, replyOf] at hthird
  refine ⟨?_, hsecond, hthird⟩
  rw [(hanswers _).findKey, hoccurrences]
  rfl

end Session

end ConstDb
