import ConstDb.Proofs.Session.Steps

/-! # Sessions that agree

A session finds its builders and readers by their numbers, so the order in which it keeps them makes
no difference: sessions that agree in what they find answer all steps alike.

## Key results

- `Session.Agree.step`, `Session.Agree.run`: sessions that agree answer alike and go on to agree
-/

namespace ConstDb.Session

/-- Whether two sessions have the same files, builders and readers, in whatever order. -/
structure Agree (s s' : Session) : Prop where
  space : s'.space = s.space
  builders : ∀ n, s'.builders.lookup n = s.builders.lookup n
  readers : ∀ n, s'.readers.lookup n = s.readers.lookup n

namespace Agree

variable {s s' : Session}

theorem refl (s : Session) : Agree s s := ⟨rfl, fun _ => rfl, fun _ => rfl⟩

/-- Sessions that agree go on to agree when their files change alike. -/
private theorem changed (h : Agree s s') (result : Except Fault FileSpace) :
    (s'.changed result).2 = (s.changed result).2 ∧
      Agree (s.changed result).1 (s'.changed result).1 := by
  cases result with
  | error fault => exact ⟨rfl, h⟩
  | ok space => exact ⟨rfl, rfl, h.builders, h.readers⟩

private theorem dropBuilder (h : Agree s s') (n : Nat) :
    Agree (s.dropBuilder n) (s'.dropBuilder n) := by
  refine ⟨?_, fun m => ?_, fun m => ?_⟩
  · rw [space_dropBuilder, space_dropBuilder, h.builders n, h.space]
  · rw [lookup_builders_dropBuilder, lookup_builders_dropBuilder, h.builders m]
  · have hsame (t : Session) : (t.dropBuilder n).readers = t.readers := by
      unfold Session.dropBuilder
      cases t.builders.lookup n <;> rfl
    rw [hsame, hsame, h.readers m]

private theorem build (h : Agree s s') (n : Nat) (path : Path) (mode : Option Nat) :
    (s'.build n path mode).2 = (s.build n path mode).2 ∧
      Agree (s.build n path mode).1 (s'.build n path mode).1 := by
  have hdrop := h.dropBuilder n
  rw [build_eq, build_eq, hdrop.space]
  cases Builder.open (s.dropBuilder n).space path mode with
  | error e => exact ⟨rfl, hdrop⟩
  | ok opened =>
    refine ⟨rfl, rfl, fun m => ?_, hdrop.readers⟩
    rw [lookup_putAt, lookup_putAt, hdrop.builders m]

private theorem workOn (h : Agree s s') (n : Nat) (step : BuilderStep) :
    (s'.workOn n step).2 = (s.workOn n step).2 ∧
      Agree (s.workOn n step).1 (s'.workOn n step).1 := by
  have hfound := h.builders n
  cases hlookup : s.builders.lookup n with
  | none =>
    rw [workOn_of_none hlookup, workOn_of_none (hfound.trans hlookup)]
    exact ⟨rfl, h⟩
  | some b =>
    rw [workOn_of_lookup hlookup, workOn_of_lookup (hfound.trans hlookup), h.space]
    refine ⟨rfl, rfl, fun m => ?_, h.readers⟩
    rw [lookup_putAt, lookup_putAt, h.builders m]

/-- Sessions that agree answer alike and go on to agree. -/
theorem step (h : Agree s s') (step : Step) :
    (s'.step step).2 = (s.step step).2 ∧ Agree (s.step step).1 (s'.step step).1 := by
  -- With the same files and the same entry in the list, both sessions take the same branch.
  cases step with
  | write path data =>
    simp only [Session.step, h.space]
    exact h.changed _
  | patch source path edits resize tail =>
    simp only [Session.step, h.space]
    cases s.space.readable? source with
    | none => exact ⟨rfl, h⟩
    | some f =>
      simp only
      cases s.space.write path (patched f.bytes edits resize tail) writtenMode with
      | error fault => exact ⟨rfl, h⟩
      | ok space => exact ⟨rfl, rfl, h.builders, h.readers⟩
  | read path start stop =>
    simp only [Session.step, h.space]
    cases s.space.readable? path <;> exact ⟨rfl, h⟩
  | remove path =>
    simp only [Session.step, h.space]
    exact h.changed _
  | makeDirectory path =>
    simp only [Session.step, h.space]
    exact h.changed _
  | removeDirectory path =>
    simp only [Session.step, h.space]
    exact h.changed _
  | mode path =>
    simp only [Session.step, h.space]
    cases s.space.file? path <;> exact ⟨rfl, h⟩
  | setMode path mode =>
    simp only [Session.step, h.space]
    exact h.changed _
  | setTime path time =>
    simp only [Session.step, h.space]
    exact ⟨trivial, rfl, h.builders, h.readers⟩
  | list path =>
    simp only [Session.step, h.space]
    cases s.space.list path.orHere <;> exact ⟨rfl, h⟩
  | build n path mode => exact h.build n path mode
  | drop n => exact ⟨rfl, h.dropBuilder n⟩
  | builder n step => exact h.workOn n step
  | create path mode rs ending =>
    simp only [Session.step, h.space]
    exact ⟨trivial, rfl, h.builders, h.readers⟩
  | «open» n path =>
    have hdrop (m : Nat) :
        (dropAt s'.readers n).lookup m = (dropAt s.readers n).lookup m := by
      rw [lookup_dropAt, lookup_dropAt, h.readers m]
    simp only [Session.step, h.space]
    cases Reader.open s.space path with
    | error e => exact ⟨rfl, rfl, h.builders, hdrop⟩
    | ok r =>
      refine ⟨rfl, rfl, h.builders, fun m => ?_⟩
      simp only [lookup_putAt, hdrop m]
  | reader n step =>
    simp only [Session.step, h.space, h.readers n]
    cases s.readers.lookup n with
    | none => exact ⟨rfl, h⟩
    | some r =>
      refine ⟨rfl, rfl, h.builders, fun m => ?_⟩
      simp only [lookup_putAt, h.readers m]
  | command args stdin settings =>
    simp only [Session.step, h.space]
    exact ⟨trivial, rfl, h.builders, h.readers⟩

/-- So do runs of steps. -/
theorem run (h : Agree s s') (steps : List Step) :
    (s'.run steps).1 = (s.run steps).1 ∧ Agree (s.run steps).2 (s'.run steps).2 := by
  induction steps generalizing s s' with
  | nil => exact ⟨rfl, h⟩
  | cons step rest ih =>
    obtain ⟨hreply, hnext⟩ := h.step step
    obtain ⟨hreplies, hend⟩ := ih hnext
    exact ⟨congrArg₂ List.cons hreply hreplies, hend⟩

end Agree

end ConstDb.Session
