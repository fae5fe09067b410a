import ConstDb.Proofs.RecordText.Intake
import ConstDb.Proofs.RecordText.Load

/-! # Loading from an input with faults

An interruption makes no difference to loading, wherever it comes and in whatever pieces the text
does.  A fault of another kind ends it, if it is met; and it is met just if loading the same text
without the fault asks for the position of the fault.  The builder then has the records of the lines
in front of the fault.

## Key results

- `Intake.loads`: loading call by call comes to loading the text
- `Builder.load_bears_faults`: what faults make of loading
-/

namespace ConstDb

namespace Input

variable {input : Input} {f : Fault}

/-- Whether an input has no faults but interruptions. -/
def IsMild (input : Input) : Prop := ∀ f, .fault f ∈ input → f.kind = .interrupted

/-- An input that is at most interrupted amounts to all its bytes. -/
theorem gather_of_isMild (h : input.IsMild) : gather .empty input = (input.bytes, none) := by
  induction input with
  | nil => rfl
  | cons event events ih =>
    have hevents : IsMild events := fun f hf => h f (List.mem_cons_of_mem _ hf)
    cases event with
    | fault g =>
      rw [gather, if_pos (h g List.mem_cons_self)]
      exact ih hevents
    | bytes piece => rw [gather, gather_eq, ih hevents, ByteArray.empty_append, bytes]

/-- Up to its first fault of another kind, an input amounts to the bytes in front of that. -/
theorem gather_of_fault (h : input.IsMild) (hf : f.kind ≠ .interrupted) (after : Input) :
    gather .empty (input ++ .fault f :: after) = (input.bytes, some f) := by
  induction input with
  | nil => exact if_neg hf
  | cons event events ih =>
    have hevents : IsMild events := fun f hf => h f (List.mem_cons_of_mem _ hf)
    cases event with
    | fault g =>
      rw [List.cons_append, gather, if_pos (h g List.mem_cons_self)]
      exact ih hevents
    | bytes piece =>
      rw [List.cons_append, gather, gather_eq, ih hevents, ByteArray.empty_append, bytes]

end Input

/-! ### Loading -/

/-- Adds the records of a walk, and ends as the walk does.  The result is their number, counted on
from `count`. -/
def Builder.loadWalk (b : Builder) (count : Nat) (walk : Walk Record) :
    Except Error Nat × Builder :=
  match b.addAll walk.items with
  | (.error e, b) => (.error e, b)
  | (.ok (), b) =>
    match walk.failure with
    | some e => (.error e, b)
    | none => (.ok (count + walk.items.length), b)

theorem Builder.load_eq_loadWalk (b : Builder) (input : Input) :
    b.load input = b.loadWalk 0 input.source.records := by
  rw [loadWalk, Nat.zero_add]
  rfl

theorem Builder.loadWalk_cons (b : Builder) (count : Nat) (r : Record) (walk : Walk Record) :
    b.loadWalk count (.cons r walk) =
      match b.add r with
      | .error e => (.error e, b)
      | .ok b => b.loadWalk (count + 1) walk := by
  unfold loadWalk
  rw [Walk.items_cons, Walk.failure_cons, addAll_cons]
  cases b.add r with
  | error e => rfl
  | ok b' => simp only [List.length_cons, Nat.add_assoc, Nat.add_comm 1]

namespace Intake

variable {t : Intake} {s : Source}

/-- Whether loading from an intake comes to the same as loading the text that the intake has come
to, and a fault that is met leaves the records before it. -/
structure Loads (t : Intake) (s : Source) (count : Nat) (b : Builder)
    (loaded : Except Error Nat × Builder × Intake) : Prop where
  plain : (loaded.1, loaded.2.1) = b.loadWalk count s.records
  asked_le : t.asked ≤ loaded.2.2.asked
  cut : ∀ p g, Faces t s p → b.loadWalk count (s.cut p g).records =
    if p < loaded.2.2.asked then
      (.error (.stream g),
        { b with draft := (s.cut p g).records.items.foldl Draft.append b.draft })
    else b.loadWalk count s.records

/-- The records of a text, by the line that is read of it. -/
theorem records_eq_lineReading (s : Source) :
    s.records = match s.lineReading with
      | .error e => .failed e
      | .ok (none, _) => .empty
      | .ok (some r, s) => .cons r s.records := by
  rw [Source.records_eq, Source.line_eq]
  cases s.lineReading with
  | error e => rfl
  | ok p => obtain ⟨_ | r, s⟩ := p <;> rfl

/-- What loading comes to where it ends without another record. -/
theorem Loads.of_ends {count : Nat} {b : Builder} {u : Intake} {result : Except Error Nat}
    (hplain : b.loadWalk count s.records = (result, b)) (hasked : t.asked ≤ u.asked)
    (hmet : ∀ p g, Faces t s p → p < u.asked → (s.cut p g).records = .failed (.stream g))
    (hmissed : ∀ p g, Faces t s p → ¬p < u.asked →
      b.loadWalk count (s.cut p g).records = (result, b)) :
    Loads t s count b (result, b, u) := by
  refine ⟨hplain.symm, hasked, fun p g hp => ?_⟩
  by_cases hlt : p < u.asked
  · simp only [hlt, if_true, hmet p g hp hlt]
    rfl
  · simp only [hlt, if_false, hmissed p g hp hlt, hplain]

/-- Loading from an intake comes to the same as loading its text. -/
theorem loads (ask : Nat → Nat) (count : Nat) (b : Builder) (hat : t.At s) :
    Loads t s count b (loadFrom ask count b t) := by
  -- The induction is on the text that is left, line by line.
  induction hn : s.left using Nat.strongRecOn generalizing t s count b with
  | ind left ih =>
    subst hn
    have hagrees := matches_line ask t s hat
    rw [loadFrom]
    split
    · rename_i e u hline
      rw [hline] at hagrees
      cases hagrees with
      | error hread hasked hcut =>
        refine .of_ends ?_ hasked (fun p g hp hlt => ?_) fun p g hp hlt => ?_
        · rw [records_eq_lineReading, hread]
          rfl
        · rw [records_eq_lineReading, hcut p g hp, if_pos hlt]
        · rw [records_eq_lineReading, hcut p g hp, if_neg hlt]
          rfl
    · rename_i u hline
      rw [hline] at hagrees
      cases hagrees with
      | ok hread hat' hfollows hasked hcut =>
        refine .of_ends ?_ hasked (fun p g hp hlt => ?_) fun p g hp hlt => ?_
        · rw [records_eq_lineReading, hread]
          rfl
        · rw [records_eq_lineReading, hcut p g hp, if_pos hlt]
        · rw [records_eq_lineReading, hcut p g hp, if_neg hlt]
          rfl
    · rename_i r u hline
      rw [hline] at hagrees
      cases hagrees with
      | @ok _ _ s' hread hat' hfollows hasked hcut =>
        have hrecords : s.records = .cons r s'.records := by rw [records_eq_lineReading, hread]
        have hmet (p : Nat) (g : Fault) (hp : Faces t s p) (hlt : p < u.asked) :
            (s.cut p g).records = .failed (.stream g) := by
          rw [records_eq_lineReading, hcut p g hp, if_pos hlt]
        have hmissed (p : Nat) (g : Fault) (hp : Faces t s p) (hlt : ¬p < u.asked) :
            (s.cut p g).records = .cons r (s'.cut p g).records := by
          rw [records_eq_lineReading, hcut p g hp, if_neg hlt]
        cases hadd : b.add r with
        | error e =>
          refine .of_ends ?_ hasked hmet fun p g hp hlt => ?_
          · rw [hrecords, Builder.loadWalk_cons, hadd]
          · rw [hmissed p g hp hlt, Builder.loadWalk_cons, hadd]
        | ok b' =>
          obtain ⟨-, -, -, rfl⟩ := Builder.add_eq_ok.1 hadd
          have hline' : s.line = .ok (some (r, s')) := by rw [Source.line_eq, hread]
          have hrest := ih _ (Source.left_lt_of_line hline') (count + 1) (b.append r) hat' rfl
          simp only
          refine ⟨?_, Nat.le_trans hasked hrest.asked_le, fun p g hp => ?_⟩
          · rw [hrest.plain, hrecords, Builder.loadWalk_cons, hadd]
          · by_cases hlt : p < u.asked
            · simp only [hmet p g hp hlt, if_pos (Nat.lt_of_lt_of_le hlt hrest.asked_le)]
              rfl
            · -- The record is in front of the fault, so it is added before the fault is met.
              simp only [hrecords, hmissed p g hp hlt, Builder.loadWalk_cons, hadd,
                hrest.cut p g (hp.behind hfollows hlt)]
              rfl

/-- An input of which nothing was taken is where its text starts. -/
theorem at_source (input : Input) : At ⟨input, 0, 0⟩ input.source where
  offset := rfl
  le_asked := Nat.le_refl _
  asked_le := Nat.zero_le _
  rest := by
    show Input.gather .empty input = (ByteArray.extract _ 0 _, _)
    rw [ByteArray.extract_zero_size]
    rfl

end Intake

namespace Builder

open RecordText

/-- How loading bears with the faults of an input. -/
structure BearsFaults (b : Builder) (ask : Nat → Nat) : Prop where
  /-- Call by call, an input is loaded as the text that it amounts to. -/
  calls : ∀ input, ((b.loadCalls ask input).1, (b.loadCalls ask input).2.1) = b.load input
  /-- In what pieces a text comes, and where it is interrupted, makes no difference. -/
  mild : ∀ input : Input, input.IsMild → b.load input = b.load (.ofBytes input.bytes)
  /-- A fault of another kind is met if the text without it is asked for the position where it is.
  Then just the records are added whose lines are in front of it, and the builder stays at work. -/
  met : ∀ before f after, before.IsMild → f.kind ≠ .interrupted →
    before.bytes.size <
      (b.loadCalls ask (.ofBytes (before.bytes ++ Input.bytes after))).2.2.asked →
    ∃ rs, b.load (before ++ .fault f :: after) =
        (.error (.stream f), { b with draft := rs.foldl Draft.append b.draft }) ∧
      StartsWith rs before.bytes.data.toList ∧
      ∀ rs', StartsWith rs' before.bytes.data.toList → rs' <+: rs
  /-- At another position it makes no difference. -/
  missed : ∀ before f after, before.IsMild → f.kind ≠ .interrupted →
    (b.loadCalls ask (.ofBytes (before.bytes ++ Input.bytes after))).2.2.asked ≤
      before.bytes.size →
    b.load (before ++ .fault f :: after) = b.load (.ofBytes (before.bytes ++ Input.bytes after))

/-- What a fault makes of loading, by whether its position is asked for. -/
private theorem load_of_fault (b : Builder) (ask : Nat → Nat) {before : Input} {f : Fault}
    (after : Input) (hmild : before.IsMild) (hf : f.kind ≠ .interrupted) :
    b.load (before ++ .fault f :: after) =
      if before.bytes.size <
          (b.loadCalls ask (.ofBytes (before.bytes ++ after.bytes))).2.2.asked then
        (.error (.stream f), { b with
          draft := (Source.mk before.bytes 0 (some f)).records.items.foldl Draft.append b.draft })
      else b.load (.ofBytes (before.bytes ++ after.bytes)) := by
  have hfault : (before ++ .fault f :: after).source = ⟨before.bytes, 0, some f⟩ := by
    rw [Input.source, Input.gather_of_fault hmild hf]
  have hcut : Source.cut ⟨before.bytes ++ after.bytes, 0, none⟩ before.bytes.size f =
      ⟨before.bytes, 0, some f⟩ := by
    rw [Source.cut, ByteArray.extract_append_eq_left rfl]
  have hat := Intake.at_source (.ofBytes (before.bytes ++ after.bytes))
  rw [Input.source_ofBytes] at hat
  have hloads := (Intake.loads ask 0 b hat).cut before.bytes.size f
    ⟨rfl, Nat.zero_le _, by rw [ByteArray.size_append]; exact Nat.le_add_right ..⟩
  rw [hcut] at hloads
  rw [load_eq_loadWalk, load_eq_loadWalk, hfault, Input.source_ofBytes, hloads]
  rfl

/-- Every builder does so, in whatever parts it asks for fields. -/
theorem load_bears_faults (b : Builder) (ask : Nat → Nat) : BearsFaults b ask where
  calls input := by
    rw [load_eq_loadWalk]
    exact (Intake.loads ask 0 b (Intake.at_source input)).plain
  mild input h := by
    rw [load_eq_loadWalk, load_eq_loadWalk, Input.source_ofBytes, Input.source,
      Input.gather_of_isMild h]
  met before f after hmild hf hasked := by
    let s : Source := ⟨before.bytes, 0, some f⟩
    have hrest : s.rest = before.bytes.data.toList := rfl
    refine ⟨s.records.items, by rw [load_of_fault b ask after hmild hf, if_pos hasked], ?_, ?_⟩
    · exact hrest ▸ Source.startsWith_records s
    · exact fun rs' hrs' => Source.isPrefix_records (hrest ▸ hrs')
  missed before f after hmild hf hasked := by
    rw [load_of_fault b ask after hmild hf, if_neg (Nat.not_lt.2 hasked)]

/-- The line of an empty record, interrupted once, and a fault in the place of the end. -/
theorem load_bears_faults_at_end :
    let before : Input := [.bytes "+0,0:".toUTF8, .fault ⟨.interrupted, "", false⟩,
      .bytes "->\n".toUTF8]
    ∃ rs, Sample.builder.load (before ++ [.fault .permissionDenied]) =
        (.error (.stream .permissionDenied), { Sample.builder with draft := .ofRecords rs }) ∧
      [⟨.empty, .empty⟩] <+: rs := by
  intro before
  have hmild : before.IsMild := by
    intro f hf
    simp only [before, List.mem_cons, reduceCtorEq, List.not_mem_nil, InputEvent.fault.injEq,
      or_false, false_or] at hf
    rw [hf]
  have hzero : IsLength 0 [0x30] := by decide
  have hline : IsLine ⟨.empty, .empty⟩ [0x2b, 0x30, 0x2c, 0x30, 0x3a, 0x2d, 0x3e, 0x0a] :=
    .intro (r := ⟨.empty, .empty⟩) hzero hzero
  obtain ⟨rs, hload, -, hall⟩ := (load_bears_faults Sample.builder fun _ => 0).met before
    .permissionDenied [] hmild (by decide) (by decide +kernel)
  exact ⟨rs, hload, hall _ ⟨_, [], .cons hline .nil, by decide⟩⟩

end Builder

end ConstDb
