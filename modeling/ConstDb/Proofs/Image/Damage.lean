import ConstDb.Proofs.Image.Reach
import ConstDb.Session.Basic

/-! # What queries fail with

Whatever a file holds, a query that is not answered fails with an error that says where the file is
damaged.

## Key results

- `Image.hits_damage`, `Image.scan_damage`: the two walks that all queries go along
- `Image.nth_damage`, `Image.findAll_damage`, `Image.stats_damage` and so on: the queries
- `FailsByDamage.isSafe`: the replies
-/

namespace ConstDb

/-- If it fails, then with an error that says where the file is damaged. -/
def FailsByDamage {α : Type} (r : Except Error α) : Prop := ∀ e, r = .error e → e.IsFormat

/-- If it ends early, then by damage. -/
def Walk.EndsByDamage {α : Type} (w : Walk α) : Prop := ∀ e, w.failure = some e → e.IsFormat

section

variable {α β : Type}

theorem FailsByDamage.ok (a : α) : FailsByDamage (.ok a) := by
  intro e he
  cases he

theorem FailsByDamage.map {r : Except Error α} (h : FailsByDamage r) (f : α → β) :
    FailsByDamage (r.map f) := by
  intro e he
  cases r with
  | error _ =>
    cases he
    exact h _ rfl
  | ok a => cases he

namespace Walk

variable {w : Walk α}

theorem EndsByDamage.map (h : w.EndsByDamage) (f : α → β) : (w.map f).EndsByDamage := h

theorem EndsByDamage.toExcept (h : w.EndsByDamage) : FailsByDamage w.toExcept := by
  intro e he
  exact h e (toExcept_eq_error.1 he)

theorem EndsByDamage.get? (h : w.EndsByDamage) (n : Nat) : FailsByDamage (w.get? n) := by
  intro e he
  unfold Walk.get? at he
  split at he
  · cases he
  · split at he
    · cases he
    · rename_i hfailure
      cases he
      exact h _ hfailure

theorem EndsByDamage.firstSome (h : w.EndsByDamage) (f : α → Option β) :
    FailsByDamage (w.firstSome f) := by
  intro e he
  unfold Walk.firstSome at he
  split at he
  · cases he
  · split at he
    · cases he
    · rename_i hfailure
      cases he
      exact h _ hfailure

theorem EndsByDamage.allM (h : w.EndsByDamage) {f : α → Except Error Bool}
    (hf : ∀ a, FailsByDamage (f a)) : FailsByDamage (w.allM f) := by
  intro e he
  rw [Walk.allM] at he
  -- The induction is on the items; the error is that of some item, or the one that ends the walk.
  generalize w.items = items at he
  induction items with
  | nil =>
    rw [allM.go] at he
    split at he
    · cases he
    · rename_i hfailure
      cases he
      exact h _ hfailure
  | cons a rest ih =>
    rw [allM.go] at he
    split at he
    · rename_i herror
      cases he
      exact hf a _ herror
    · exact ih he
    · cases he

theorem EndsByDamage.foldM (h : w.EndsByDamage) {f : β → α → Except Error β}
    (hf : ∀ b a, FailsByDamage (f b a)) (b : β) : FailsByDamage (w.foldM f b) := by
  intro e he
  unfold Walk.foldM at he
  split at he
  · rename_i herror
    cases he
    generalize w.items = items at herror
    induction items generalizing b with
    | nil => cases herror
    | cons a rest ih =>
      rw [List.foldlM_cons] at herror
      obtain hstep | ⟨c, -, hrest⟩ := bind_eq_error.1 herror
      · exact hf b a _ hstep
      · exact ih c hrest
  · split at he
    · cases he
    · rename_i hfailure
      cases he
      exact h _ hfailure

/-- The calls of an iterator over the walk fail by damage only. -/
theorem EndsByDamage.outcomes (h : w.EndsByDamage) {r : Except Error α}
    (hr : some r ∈ w.outcomes) : FailsByDamage r := by
  intro e he
  subst he
  have hfailure : w.failure = some e := by simpa [Walk.outcomes] using hr
  exact h e hfailure

end Walk

end

namespace Image

variable (image : Image)

/-- A search for a key ends early by damage only. -/
theorem hits_damage (key : ByteArray) : (image.hits key).EndsByDamage := fun _ => isFormat_of_hits

/-- A scan ends early by damage only. -/
theorem scan_damage : image.scan.EndsByDamage := by
  intro e he
  rw [scan] at he
  exact isFormat_of_scanFrom he

theorem nth_damage (key : ByteArray) (n : Nat) : FailsByDamage (image.nth key n) := by
  rw [nth_eq]
  exact ((image.hits_damage key).map _).get? n

theorem findAll_damage (key : ByteArray) : FailsByDamage (image.findAll key) :=
  (image.hits_damage key).toExcept.map _

theorem valuesAt_damage (keys : List ByteArray) : FailsByDamage (image.valuesAt keys) := by
  induction keys with
  | nil => exact .ok _
  | cons key keys ih =>
    rw [valuesAt_cons]
    cases h : image.findAll key with
    | error e =>
      intro _ he
      cases he
      exact image.findAll_damage key _ h
    | ok values => exact ih.map _

theorem keyOf_damage (value : ByteArray) : FailsByDamage (image.keyOf value) :=
  image.scan_damage.firstSome _

theorem pairs_damage : FailsByDamage image.pairs := (image.scan_damage.map _).toExcept

theorem hasUniqueKeys_damage : FailsByDamage image.hasUniqueKeys := by
  apply image.scan_damage.allM
  intro s
  rw [firstHit_eq]
  exact (((image.hits_damage _).get? 0).map _).map _

theorem validate_damage : FailsByDamage image.validate := by
  intro e he
  rw [validate] at he
  cases hscan : image.scan.toExcept with
  | error _ =>
    rw [hscan] at he
    cases he
    exact image.scan_damage.toExcept _ hscan
  | ok records =>
    rw [hscan] at he
    simp only at he
    split at he
    · cases he
      exact ⟨_, _, rfl⟩
    · cases he

theorem stats_damage : FailsByDamage image.stats := by
  apply image.scan_damage.foldM
  intro stats s e he
  unfold tally at he
  split at he
  · rename_i herror
    cases he
    rw [probesTo_eq] at herror
    exact (image.hits_damage _).firstSome _ _ herror
  · cases he
    exact ⟨_, _, rfl⟩
  · cases he

end Image

/-- A search in a table fails by damage only. -/
theorem Probe.InTable.next_damage {image : Image} {p : Probe} (h : p.InTable image)
    (key : ByteArray) : FailsByDamage (p.next image key).1 :=
  fun _ he => h.isFormat_of_hits (failure_of_next he)

/-! ### Replies -/

/-- The answer reports nothing but damage. -/
def Answer.IsSafe : Answer → Prop
  | .scanCalls calls => ∀ r, some r ∈ calls → FailsByDamage r
  | .occurrenceCalls calls => ∀ r, some r ∈ calls → FailsByDamage r
  | .dumped result _ => FailsByDamage result
  | _ => True

/-- The reply is an answer, or says where the file is damaged. -/
def Reply.IsSafe : Reply → Prop
  | .ok answer => answer.IsSafe
  | .error (.failed e) => e.IsFormat
  | .error _ => False

theorem FailsByDamage.isSafe {α : Type} {r : Except Error α} (h : FailsByDamage r)
    {answer : α → Answer} (hanswer : ∀ a, (answer a).IsSafe) :
    Reply.IsSafe (Session.replyOf answer r) := by
  cases r with
  | error e => exact h e rfl
  | ok a => exact hanswer a

/-- Writing to a sink that never fails does not fail but by damage. -/
theorem Image.dump_damage (image : Image) : FailsByDamage (image.dump {}).1 := by
  have hend := image.scan_damage.map fun s => s.record image.bytes
  rw [Image.dump_eq]
  cases hfailure : image.records.failure with
  | none => exact .ok _
  | some e =>
    intro e' he
    cases he
    exact hend _ hfailure

end ConstDb
