import ConstDb.Proofs.Builder.Create

/-! # What a builder commits

A builder may be asked anything before it finishes: to add records that it refuses, to go on behind
an error, to finish or cancel in between.  What it commits is always the file of the records that it
accepted, in the order in which they were added.

## Key results

- `Builder.Fill.draft_run`: a fill leaves the draft of the accepted records
- `Builder.Built.eq_image`: what is committed is the file of the accepted records
- `Builder.built_of_addAll`: records that were all accepted are the ones that are committed
-/

namespace ConstDb.Builder

/-- The records that a builder accepts in the course of a fill, in order. -/
def Fill.accepted : Fill → Builder → FileSpace → List Record
  | done _, _, _ => []
  | add r next, b, s =>
    match b.add r with
    | .error e => (next (.error e)).accepted b s
    | .ok b => r :: (next (.ok ())).accepted b s
  | finish next, b, s =>
    let (result, b, s) := b.finish s
    (next result).accepted b s
  | cancel next, b, s =>
    let (result, b, s) := b.cancel s
    (next result).accepted b s

/-- A fill that starts with the draft of some records leaves that of these and of the ones that were
accepted. -/
theorem Fill.draft_run (fill : Fill) {b : Builder} {rs : List Record}
    (hdraft : b.draft = .ofRecords rs) (hrs : Draft.Storable rs) (s : FileSpace) :
    (fill.run b s).2.1.draft = .ofRecords (rs ++ fill.accepted b s) ∧
      Draft.Storable (rs ++ fill.accepted b s) := by
  induction fill generalizing b rs s with
  | done result =>
    rw [accepted, List.append_nil]
    exact ⟨hdraft, hrs⟩
  | add r next ih =>
    have hstorable := storable_accepted hdraft hrs [r]
    rw [run_add, accepted]
    cases hadd : b.add r with
    | error e => exact ih _ hdraft hrs s
    | ok b' =>
      obtain ⟨-, -, -, rfl⟩ := add_eq_ok.1 hadd
      simp only [Builder.accepted, hadd] at hstorable
      have hdraft' : (b.append r).draft = .ofRecords (rs ++ [r]) := by
        rw [Draft.ofRecords_append_singleton, ← hdraft, append]
      -- The record moves from the ones to come to the ones that are there.
      have hrest := ih (.ok ()) hdraft' hstorable s
      rwa [List.append_assoc, List.singleton_append] at hrest
  | finish next ih => exact ih _ ((draft_finish b s).trans hdraft) hrs _
  | cancel next ih => exact ih _ ((draft_cancel b s).trans hdraft) hrs _

/-- Records that are added one by one are accepted up to the first that is refused. -/
theorem Fill.accepted_addAll (rs : List Record) (result : Except Error Unit) (b : Builder)
    (s : FileSpace) : (addAll rs (.done result)).accepted b s = b.accepted rs := by
  induction rs generalizing b with
  | nil => rfl
  | cons r rest ih =>
    rw [addAll, accepted, Builder.accepted]
    cases b.add r with
    | error e => rfl
    | ok b' =>
      simp only
      rw [← ih b']
      rfl

/-- Whether a builder committed some bytes with some records: it was opened, it accepted the
records, whatever else was done with it, and then it finished.  Meanwhile the files may have changed
in any way. -/
inductive Built (rs : List Record) : ByteArray → Prop
  | intro {s s' s₁ s₂ s₃ : FileSpace} {path : Path} {mode : Option Nat} {b b' : Builder} {f : File}
      (hopen : Builder.open s path mode = .ok (b, s')) (fill : Fill)
      (haccepted : fill.accepted b s₁ = rs)
      (hfinish : (fill.run b s₁).2.1.finish s₂ = (.ok (), b', s₃))
      (hstat : s₃.stat b'.path = .ok (.file f)) : Built rs f.bytes

/-- What is committed is the file of the accepted records. -/
theorem Built.eq_image {rs : List Record} {bytes : ByteArray} (h : Built rs bytes) :
    Draft.Storable rs ∧ bytes = (Draft.ofRecords rs).image := by
  obtain @⟨_, _, s₁, _, _, _, _, b, _, f, hopen, fill, haccepted, hfinish, hstat⟩ := h
  obtain ⟨-, hdraft, -⟩ := open_eq_ok hopen
  obtain ⟨hfilled, hrs⟩ := fill.draft_run hdraft Draft.storable_nil s₁
  rw [List.nil_append, haccepted] at hfilled hrs
  -- The file that took the place of the target holds the bytes of the draft.
  obtain ⟨t, -, rfl, hreplace⟩ := finish_eq_ok.1 hfinish
  obtain ⟨time, hstat'⟩ := FileSpace.stat_of_replaceBy hreplace
  have hf := Node.file.inj (Except.ok.inj (hstat.symm.trans hstat'))
  exact ⟨hrs, by rw [hf, hfilled]⟩

/-- Records that were all accepted are the ones that are committed. -/
theorem built_of_addAll {s₀ s₁ s₂ s₃ : FileSpace} {path : Path} {mode : Option Nat}
    {b b₁ b₂ : Builder} {rs : List Record} (hopen : Builder.open s₀ path mode = .ok (b, s₁))
    (hadd : b.addAll rs = (.ok (), b₁)) (hfinish : b₁.finish s₂ = (.ok (), b₂, s₃)) :
    Built rs (Draft.ofRecords rs).image := by
  obtain ⟨hb₁, -⟩ := addAll_of_open hopen hadd
  obtain ⟨time, hstat⟩ := stat_of_finish hfinish
  obtain ⟨_, -, hb₂, -⟩ := finish_eq_ok.1 hfinish
  have haccepted : (Fill.addAll rs (.done (.ok ()))).accepted b s₂ = rs := by
    rw [Fill.accepted_addAll, ← addAll_fst_eq_ok, hadd]
  have hrun : ((Fill.addAll rs (.done (.ok ()))).run b s₂).2.1 = b₁ := by
    rw [Fill.run_addAll, hadd]
    rfl
  rw [← hrun] at hfinish
  rw [show b₁.path = b₂.path by rw [hb₂]] at hstat
  have hbuilt := Built.intro hopen _ haccepted hfinish hstat
  rwa [show b₁.draft = .ofRecords rs by rw [hb₁]] at hbuilt

theorem Sample.built : Built Sample.records (Draft.ofRecords Sample.records).image :=
  built_of_addAll Sample.open_eq Sample.addAll_eq Sample.finish_eq

end ConstDb.Builder
