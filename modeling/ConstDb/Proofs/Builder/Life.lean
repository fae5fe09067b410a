import ConstDb.Proofs.Builder.Commit
import ConstDb.Proofs.FileSpace.Change

/-! # The life of a builder

A builder at work owns a temporary file.  It ends in one of two ways: `finish` turns the temporary
file into the file at the target, or the temporary file is discarded.  Apart from that a builder
only takes records, and it has those that it accepted.

## Key results

- `Builder.open_cases`: what a builder starts with
- `Builder.cancel_of_building`, `Builder.drop_of_building`: how it ends without a database
- `Builder.addAll_snd`: a builder has the records that it accepted
- `Builder.changes_create`: what a build in one go does to a space of files
-/

namespace ConstDb.Builder

variable {b b' : Builder} {s s' : FileSpace} {path : Path} {mode : Option Nat}
  {t : TemporaryHandle} {p : FileSpace.Powers}

/-! ### The start -/

/-- The temporary file of a new builder, as the builder knows it. -/
def handleFor (s : FileSpace) (path : Path) : TemporaryHandle :=
  ⟨path.directory, (path.fileName?.map Text.Utf8.show).getD "mcdb", s.serials⟩

/-- A new builder has no records and owns a new temporary file, which lies in the directory of its
target. -/
theorem open_cases (h : Builder.open s path mode = .ok (b, s')) :
    ∃ bits loc, chooseMode s path mode = .ok bits ∧
      s.resolveDirectory path.directory = .ok loc ∧
      b = ⟨path, bits, .building (handleFor s path), .empty⟩ ∧
      s' = s.withTemporary loc (handleFor s path).target := by
  obtain ⟨bits, t, hmode, htemporary, hb⟩ := open_eq_ok_iff.1 h
  obtain ⟨loc, hdirectory, rfl, hs'⟩ := FileSpace.createTemporary_eq_ok htemporary
  exact ⟨bits, loc, hmode, hdirectory, hb, hs'⟩

/-- The permission bits of the new file are those that were asked for, or else those of the file
that is there, or else the default ones. -/
theorem chooseMode_eq_ok {bits : Nat} (h : chooseMode s path mode = .ok bits) :
    bits = mode.getD (((s.file? path).map File.mode).getD defaultMode) := by
  unfold chooseMode at h
  unfold FileSpace.file?
  cases hstat : s.stat path with
  | error fault =>
    simp only [hstat] at h
    split at h
    · exact (Except.ok.inj h).symm
    · cases h
  | ok node =>
    cases node with
    | directory => simp [hstat] at h
    | file f =>
      simp only [hstat] at h
      exact (Except.ok.inj h).symm

/-! ### The end -/

/-- Canceling discards the temporary file, whether it is found or not. -/
theorem cancel_of_building (h : b.state = .building t) (s : FileSpace) :
    (b.cancel s).2 = ({ b with state := .canceled }, s.discardTemporary t) := by
  simp only [cancel, temporary_of_building h, FileSpace.discardTemporary]
  cases s.removeTemporary t <;> rfl

theorem exists_cancel_of_building (h : b.state = .building t) (s : FileSpace) :
    ∃ result, b.cancel s = (result, { b with state := .canceled }, s.discardTemporary t) :=
  ⟨(b.cancel s).1, Prod.ext rfl (cancel_of_building h s)⟩

/-- A builder at work that is let go of takes its temporary file with it. -/
theorem drop_of_building (h : b.state = .building t) (s : FileSpace) :
    b.drop s = s.discardTemporary t := by
  rw [drop, h]

theorem drop_of_ended (h : b.isBuilding = false) (s : FileSpace) : b.drop s = s := by
  unfold isBuilding at h
  unfold drop
  cases hstate : b.state with
  | building t => rw [hstate] at h; cases h
  | finished => rfl
  | canceled => rfl

theorem cancel_of_ended (h : b.isBuilding = false) (s : FileSpace) :
    ∃ m, b.cancel s = (.error (.misuse m), b, s) := by
  obtain ⟨m, hm⟩ := temporary_of_ended h
  exact ⟨m, by rw [cancel, hm]⟩

/-! ### Records and files that stay -/

theorem draft_finish (b : Builder) (s : FileSpace) : (b.finish s).2.1.draft = b.draft := by
  rcases b.temporary_cases with ⟨t, hstate, -⟩ | ⟨hended, -⟩
  · rw [finish_of_building hstate]
    split <;> rfl
  · obtain ⟨m, hm⟩ := finish_of_ended hended s
    rw [hm]

theorem draft_cancel (b : Builder) (s : FileSpace) : (b.cancel s).2.1.draft = b.draft := by
  rcases b.temporary_cases with ⟨t, hstate, -⟩ | ⟨hended, -⟩
  · rw [cancel_of_building hstate]
  · obtain ⟨m, hm⟩ := cancel_of_ended hended s
    rw [hm]

theorem nodes_open (h : Builder.open s path mode = .ok (b, s')) : s'.nodes = s.nodes := by
  obtain ⟨bits, loc, -, -, -, rfl⟩ := open_cases h
  exact FileSpace.nodes_withTemporary ..

theorem nodes_drop (b : Builder) (s : FileSpace) : (b.drop s).nodes = s.nodes := by
  rcases b.temporary_cases with ⟨t, hstate, -⟩ | ⟨hended, -⟩
  · rw [drop_of_building hstate, FileSpace.nodes_discardTemporary]
  · rw [drop_of_ended hended]

theorem nodes_cancel (b : Builder) (s : FileSpace) : (b.cancel s).2.2.nodes = s.nodes := by
  rcases b.temporary_cases with ⟨t, hstate, -⟩ | ⟨hended, -⟩
  · rw [cancel_of_building hstate, FileSpace.nodes_discardTemporary]
  · obtain ⟨m, hm⟩ := cancel_of_ended hended s
    rw [hm]

/-- Only a builder that finishes touches files. -/
theorem nodes_finish_of_error {e : Error} (h : (b.finish s).1 = .error e) :
    (b.finish s).2.2.nodes = s.nodes := by
  rcases b.temporary_cases with ⟨t, hstate, -⟩ | ⟨hended, -⟩
  · rw [finish_of_building hstate] at h ⊢
    split at h
    · cases h
    · rw [FileSpace.nodes_discardTemporary]
  · obtain ⟨m, hm⟩ := finish_of_ended hended s
    rw [hm]

/-! ### Records -/

/-- The records of a list that a builder accepts when they are added one by one, up to the first
that it refuses. -/
def accepted (b : Builder) : List Record → List Record
  | [] => []
  | r :: rest =>
    match b.add r with
    | .error _ => []
    | .ok b => r :: b.accepted rest

/-- A builder has the records that it accepted. -/
theorem addAll_snd (b : Builder) (rs : List Record) :
    (b.addAll rs).2 = { b with draft := (b.accepted rs).foldl Draft.append b.draft } := by
  induction rs generalizing b with
  | nil => rfl
  | cons r rest ih =>
    rw [addAll_cons, accepted]
    cases hadd : b.add r with
    | error e => rfl
    | ok b' =>
      obtain ⟨-, -, -, rfl⟩ := add_eq_ok.1 hadd
      exact ih (b.append r)

/-- All records are added when all are accepted. -/
theorem addAll_fst_eq_ok {rs : List Record} :
    (b.addAll rs).1 = .ok () ↔ b.accepted rs = rs := by
  induction rs generalizing b with
  | nil => exact ⟨fun _ => rfl, fun _ => rfl⟩
  | cons r rest ih =>
    rw [addAll_cons, accepted]
    cases b.add r with
    | error e => simp
    | ok b' => simp [ih]

/-- A builder at work accepts records within the limits until it is full. -/
theorem addAll_of_fits {rs : List Record} (hbuilding : b.isBuilding = true)
    (hfits : ∀ r ∈ rs, Draft.Fits r) (hsize : b.size ≤ Layout.maxRecords) :
    b.addAll rs =
      (if b.size + rs.length ≤ Layout.maxRecords then .ok ()
        else .error (.limit .recordCount (Layout.maxRecords + 1) Layout.maxRecords),
      { b with
        draft := (rs.take (Layout.maxRecords - b.size)).foldl Draft.append b.draft }) := by
  -- Each record that is added takes one from the room that is left.
  induction rs generalizing b with
  | nil => simp [hsize]
  | cons r rest ih =>
    obtain ⟨hr, hrest⟩ := List.forall_mem_cons.1 hfits
    have hcheck : b.checkSizes r.key.size r.value.size =
        b.draft.checkSizes r.key.size r.value.size := by
      rcases b.temporary_cases with ⟨t, -, htemporary⟩ | ⟨hended, -⟩
      · rw [checkSizes, htemporary]
      · cases hended.symm.trans hbuilding
    rw [addAll, hcheck, Draft.checkSizes_of_fits hr, List.length_cons]
    by_cases hroom : b.size < Layout.maxRecords
    · have hnext : (b.append r).size = b.size + 1 := Draft.size_append b.draft r
      have hone : Layout.maxRecords - b.size = Layout.maxRecords - (b.size + 1) + 1 := by omega
      have hlength : b.size + (rest.length + 1) = b.size + 1 + rest.length := by omega
      rw [if_pos (show b.draft.size < Layout.maxRecords from hroom), hone, List.take_succ_cons,
        List.foldl_cons, hlength]
      simp only
      rw [@ih (b.append r) hbuilding hrest (by omega), hnext]
      rfl
    · -- No room is left, so this record is refused and the rest is not looked at.
      have hfull : b.size = Layout.maxRecords := by omega
      rw [if_neg (show ¬b.draft.size < Layout.maxRecords from hroom), hfull, Nat.sub_self,
        List.take_zero, List.foldl_nil, if_neg (by omega)]
      simp only [show b.draft.size = Layout.maxRecords from hfull]

/-- So does a new one, which is empty. -/
theorem addAll_of_new {rs : List Record} (hopen : Builder.open s path mode = .ok (b, s'))
    (hfits : ∀ r ∈ rs, Draft.Fits r) :
    b.addAll rs =
      (if rs.length ≤ Layout.maxRecords then .ok ()
        else .error (.limit .recordCount (Layout.maxRecords + 1) Layout.maxRecords),
      { b with draft := .ofRecords (rs.take Layout.maxRecords) }) := by
  obtain ⟨-, hdraft, t, hstate⟩ := open_eq_ok hopen
  have hbuilding : b.isBuilding = true := by rw [isBuilding, hstate]
  have hsize : b.size = 0 := by rw [size, hdraft]; rfl
  rw [addAll_of_fits hbuilding hfits (by rw [hsize]; exact Nat.zero_le _), hsize, hdraft,
    Nat.zero_add, Nat.sub_zero]
  rfl

/-- A new builder accepts all records that a database can have together. -/
theorem addAll_of_storable {rs : List Record} (hopen : Builder.open s path mode = .ok (b, s'))
    (h : Draft.Storable rs) : b.addAll rs = (.ok (), { b with draft := .ofRecords rs }) := by
  rw [addAll_of_new hopen h.fits, if_pos h.length_le, List.take_of_length_le h.length_le]

/-- Records that were accepted can be stored together with those that were there before. -/
theorem storable_accepted {rs : List Record} (hdraft : b.draft = .ofRecords rs)
    (hstorable : Draft.Storable rs) (more : List Record) :
    Draft.Storable (rs ++ b.accepted more) := by
  induction more generalizing b rs with
  | nil => rwa [accepted, List.append_nil]
  | cons r rest ih =>
    rw [accepted]
    cases hadd : b.add r with
    | error e => rwa [List.append_nil]
    | ok b' =>
      obtain ⟨-, hfits, hroom, rfl⟩ := add_eq_ok.1 hadd
      have hdraft' : (b.append r).draft = .ofRecords (rs ++ [r]) := by
        rw [Draft.ofRecords_append_singleton, ← hdraft, append]
      -- The builder had room for one more record, so with it there are not too many.
      rw [size, hdraft, Draft.size_ofRecords] at hroom
      have hstorable' : Draft.Storable (rs ++ [r]) := by
        refine ⟨by rw [List.length_append, List.length_singleton]; omega, ?_⟩
        intro r' hr'
        rcases List.mem_append.1 hr' with hr' | hr'
        · exact hstorable.fits r' hr'
        · exact List.mem_singleton.1 hr' ▸ hfits
      rw [List.append_cons]
      exact ih hdraft' hstorable'

/-! ### What builds do to a space of files -/

theorem changes_discardTemporary (s : FileSpace) (t : TemporaryHandle) :
    FileSpace.Changes p s (s.discardTemporary t) := by
  rw [FileSpace.discardTemporary_eq]
  cases s.findTemporary t with
  | error fault => exact .refl
  | ok u => exact .single (.clearTemporary u)

theorem changes_open (hp : p.making) (h : Builder.open s path mode = .ok (b, s')) :
    FileSpace.Changes p s s' := by
  obtain ⟨bits, loc, -, hdirectory, -, rfl⟩ := open_cases h
  exact .single (.createTemporary hp (FileSpace.resolveDirectory_eq_ok.1 hdirectory).2 _)

/-- A replacement clears the temporary file and installs the new one. -/
theorem changes_replaceBy (hp : p.writing) {bytes : ByteArray} {bits : Nat}
    (h : s.replaceBy t path bytes (bits % 0o10000) = .ok s') :
    FileSpace.Changes p s s' := by
  obtain ⟨loc, u, -, hlocate, hfile, -, -, rfl⟩ := FileSpace.replaceBy_eq_ok.1 h
  have hcleared : (s.without u).locate path = .ok loc := by
    rw [FileSpace.locate_of_nodes (s.nodes_without u), hlocate]
  exact .head (.clearTemporary u)
    (.single (.install hp hcleared hfile (Nat.mod_lt _ (by decide))))

theorem changes_finish (hp : p.writing) (b : Builder) (s : FileSpace) :
    FileSpace.Changes p s (b.finish s).2.2 := by
  rcases b.temporary_cases with ⟨t, hstate, -⟩ | ⟨hended, -⟩
  · rw [finish_of_building hstate]
    cases hreplace : s.replaceBy t b.path b.draft.image (b.mode % 0o10000) with
    | error fault => exact changes_discardTemporary s t
    | ok s' => exact changes_replaceBy hp hreplace
  · obtain ⟨m, hm⟩ := finish_of_ended hended s
    rw [hm]

theorem changes_cancel (b : Builder) (s : FileSpace) :
    FileSpace.Changes p s (b.cancel s).2.2 := by
  rcases b.temporary_cases with ⟨t, hstate, -⟩ | ⟨hended, -⟩
  · rw [cancel_of_building hstate]
    exact changes_discardTemporary s t
  · obtain ⟨m, hm⟩ := cancel_of_ended hended s
    rw [hm]

theorem changes_drop (b : Builder) (s : FileSpace) :
    FileSpace.Changes p s (b.drop s) := by
  rcases b.temporary_cases with ⟨t, hstate, -⟩ | ⟨hended, -⟩
  · rw [drop_of_building hstate]
    exact changes_discardTemporary s t
  · rw [drop_of_ended hended]

/-- A fill finishes and cancels, and does nothing else to a space of files. -/
theorem Fill.changes_run (hp : p.writing) (fill : Fill) (b : Builder) (s : FileSpace) :
    FileSpace.Changes p s (fill.run b s).2.2 := by
  induction fill generalizing b s with
  | done result => exact .refl
  | add r next ih =>
    rw [Fill.run]
    cases b.checkSizes r.key.size r.value.size with
    | error e => exact ih _ b s
    | ok _ => exact ih _ (b.append r) s
  | finish next ih => exact (changes_finish hp b s).trans (ih _ _ _)
  | cancel next ih => exact (changes_cancel b s).trans (ih _ _ _)

/-- So does a build in one go, which opens a builder first and drops it in the end. -/
theorem changes_create (hwriting : p.writing) (hmaking : p.making) (s : FileSpace) (path : Path)
    (mode : Option Nat) (fill : Fill) :
    FileSpace.Changes p s (create s path mode fill).2 := by
  unfold create
  cases hopen : Builder.open s path mode with
  | error e => exact .refl
  | ok opened =>
    obtain ⟨b, s₁⟩ := opened
    refine (changes_open hmaking hopen).trans ?_
    have hfill : FileSpace.Changes p s₁ _ := Fill.changes_run hwriting fill b s₁
    simp only
    generalize fill.run b s₁ = ran at hfill ⊢
    obtain ⟨result, b₂, s₂⟩ := ran
    refine hfill.trans ?_
    cases result with
    | ok u => exact (changes_finish hwriting b₂ s₂).trans (changes_drop _ _)
    | error e =>
      -- What the fill left at work is canceled, whether or not this goes well.
      simp only
      split
      · have hcancel : FileSpace.Changes p s₂ _ := changes_cancel b₂ s₂
        generalize b₂.cancel s₂ = canceled at hcancel ⊢
        obtain ⟨result, b₃, s₃⟩ := canceled
        cases result <;> exact hcancel.trans (changes_drop _ _)
      · exact changes_drop _ _

end ConstDb.Builder
