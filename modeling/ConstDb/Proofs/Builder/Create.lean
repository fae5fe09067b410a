import ConstDb.Proofs.Builder.Life
import ConstDb.Proofs.FileSpace.Temporaries

/-! # Builds in one go

Whoever fills a builder may finish or cancel it, and nothing else that a fill does touches any file.
So a build in one go replaces its target once, or leaves all files as they were.

## Key results

- `Builder.Fill.run_of_building`: what a fill may do
- `Builder.create_of_open`, `Builder.create_cases`: what a build in one go comes to
- `Builder.replaces_cases`: it puts a file at its target, or leaves all files alone
- `Builder.nodes_create_of_error`: a build that fails leaves all files alone, unless somebody
  finished its builder before
- `Builder.temporaries_create`: no temporary file is left in any case
-/

namespace ConstDb.Builder

variable {b : Builder} {s s' : FileSpace} {path : Path} {mode : Option Nat} {t : TemporaryHandle}
  {fill : Fill}

/-! ### Fills -/

namespace Fill

/-- A fill does nothing to a builder that is not at work any more. -/
theorem run_of_ended (fill : Fill) (h : b.isBuilding = false) (s : FileSpace) :
    (fill.run b s).2 = (b, s) := by
  induction fill with
  | done result => rfl
  | add r next ih =>
    obtain ⟨m, hm⟩ := temporary_of_ended h
    have hcheck : b.checkSizes r.key.size r.value.size = .error (.misuse m) := by
      rw [checkSizes, hm]
    rw [run, hcheck]
    exact ih _
  | finish next ih =>
    obtain ⟨m, hm⟩ := finish_of_ended h s
    rw [run, hm]
    exact ih _
  | cancel next ih =>
    obtain ⟨m, hm⟩ := cancel_of_ended h s
    rw [run, hm]
    exact ih _

/-- A fill adds records, and then it may cancel or finish the builder once. -/
theorem run_of_building (fill : Fill) (h : b.state = .building t) (s : FileSpace) :
    ∃ draft,
      (fill.run b s).2 = ({ b with draft := draft }, s) ∨
      (fill.run b s).2 =
        ({ b with draft := draft, state := .canceled }, s.discardTemporary t) ∨
      ∃ s', s.replaceBy t b.path draft.image (b.mode % 0o10000) = .ok s' ∧
        (fill.run b s).2 = ({ b with draft := draft, state := .finished }, s') := by
  -- The first `finish` or `cancel` decides; what comes behind it does nothing any more.
  induction fill generalizing b with
  | done result => exact ⟨b.draft, .inl rfl⟩
  | add r next ih =>
    rw [run]
    cases b.checkSizes r.key.size r.value.size with
    | error e => exact ih _ h
    | ok _ => exact @ih _ (b.append r) h
  | finish next ih =>
    rw [run, finish_of_building h]
    refine ⟨b.draft, .inr ?_⟩
    cases hreplace : s.replaceBy t b.path b.draft.image (b.mode % 0o10000) with
    | error fault => exact .inl (run_of_ended _ rfl _)
    | ok s' => exact .inr ⟨s', rfl, run_of_ended _ rfl _⟩
  | cancel next ih =>
    obtain ⟨result, hcancel⟩ := exists_cancel_of_building h s
    rw [run, hcancel]
    exact ⟨b.draft, .inr (.inl (run_of_ended _ rfl _))⟩

/-- Records are added up to the first that is refused, which ends the fill. -/
theorem run_addAll (rs : List Record) (next : Fill) (b : Builder) (s : FileSpace) :
    (addAll rs next).run b s =
      match b.addAll rs with
      | (.ok (), b) => next.run b s
      | (.error e, b) => (.error e, b, s) := by
  induction rs generalizing b with
  | nil => rfl
  | cons r rest ih =>
    rw [addAll, run, Builder.addAll]
    cases b.checkSizes r.key.size r.value.size with
    | error e => rfl
    | ok _ => exact ih (b.append r)

end Fill

/-! ### What a build in one go comes to -/

section

variable {b₂ : Builder} {s₁ s₂ : FileSpace} {result : Except Error Unit}
  (hopen : Builder.open s path mode = .ok (b, s₁))
  (hrun : fill.run b s₁ = (result, b₂, s₂))
include hopen hrun

/-- A builder that nobody finished or canceled is finished if all went well, or its temporary file
is discarded. -/
private theorem create_of_building (hstate : b₂.state = .building t) :
    (∃ e, create s path mode fill = (.error e, s₂.discardTemporary t)) ∨
      result = .ok () ∧ ∃ s', s₂.replaceBy t b₂.path b₂.draft.image (b₂.mode % 0o10000) = .ok s' ∧
        create s path mode fill = (.ok (), s') := by
  unfold create
  simp only [hopen, hrun]
  cases result with
  | ok u =>
    simp only [finish_of_building hstate]
    cases s₂.replaceBy t b₂.path b₂.draft.image (b₂.mode % 0o10000) with
    | error fault => exact .inl ⟨_, rfl⟩
    | ok s' => exact .inr ⟨trivial, s', rfl, rfl⟩
  | error e =>
    obtain ⟨canceled, hcancel⟩ := exists_cancel_of_building hstate s₂
    have hbuilding : b₂.isBuilding = true := by rw [isBuilding, hstate]
    simp only [hbuilding, if_true, hcancel]
    cases canceled <;> exact .inl ⟨_, rfl⟩

/-- A builder that somebody finished or canceled stays as it is, and the build has failed. -/
private theorem create_of_ended (hended : b₂.isBuilding = false) :
    ∃ e, create s path mode fill = (.error e, s₂) := by
  unfold create
  simp only [hopen, hrun]
  cases result with
  | ok u =>
    obtain ⟨m, hm⟩ := finish_of_ended hended s₂
    simp only [hm, drop_of_ended hended]
    exact ⟨_, rfl⟩
  | error e =>
    simp only [hended, Bool.false_eq_true, if_false, drop_of_ended hended]
    exact ⟨_, rfl⟩

end

/-- Once its builder is open, a build in one go discards its temporary file, or it replaces the
target.  The latter happens only if the fill finished the builder, or succeeded. -/
theorem create_of_open {s₁ : FileSpace} (hopen : Builder.open s path mode = .ok (b, s₁))
    (fill : Fill) :
    (∃ e, (fill.run b s₁).2.1.state ≠ .finished ∧
        create s path mode fill = (.error e, s₁.discardTemporary (handleFor s path))) ∨
      ∃ result s', s₁.replaceBy (handleFor s path) path (fill.run b s₁).2.1.draft.image
          (b.mode % 0o10000) = .ok s' ∧
        create s path mode fill = (result, s') ∧
        ((fill.run b s₁).2.1.state = .finished ∨
          (fill.run b s₁).1 = .ok () ∧ result = .ok ()) := by
  obtain ⟨bits, loc, -, -, hb, -⟩ := open_cases hopen
  have hstate : b.state = .building (handleFor s path) := by rw [hb]
  have hpath : b.path = path := by rw [hb]
  obtain ⟨draft, hcases⟩ := fill.run_of_building hstate s₁
  generalize hrun : fill.run b s₁ = ran at hcases ⊢
  obtain ⟨result, b₂, s₂⟩ := ran
  -- The fill left the builder at work, or canceled it, or finished it.
  obtain hwork | hcanceled | ⟨s', hreplace, hfinished⟩ := hcases
  · obtain ⟨rfl, rfl⟩ := Prod.mk.inj hwork
    obtain ⟨e, hcreate⟩ | ⟨hok, s', hreplace, hcreate⟩ := create_of_building hopen hrun hstate
    · exact .inl ⟨e, by simp [hstate], hcreate⟩
    · rw [hpath] at hreplace
      exact .inr ⟨_, s', hreplace, hcreate, .inr ⟨hok, rfl⟩⟩
  · obtain ⟨rfl, rfl⟩ := Prod.mk.inj hcanceled
    obtain ⟨e, hcreate⟩ := create_of_ended hopen hrun rfl
    exact .inl ⟨e, by simp, hcreate⟩
  · obtain ⟨rfl, rfl⟩ := Prod.mk.inj hfinished
    obtain ⟨e, hcreate⟩ := create_of_ended hopen hrun rfl
    rw [hpath] at hreplace
    exact .inr ⟨_, s₂, hreplace, hcreate, .inl rfl⟩

/-- So a build in one go fails to open its target, or it does one of these two. -/
theorem create_cases (s : FileSpace) (path : Path) (mode : Option Nat) (fill : Fill) :
    (∃ e, create s path mode fill = (.error e, s)) ∨
    ∃ b s₁, Builder.open s path mode = .ok (b, s₁) ∧
      ((∃ e, (fill.run b s₁).2.1.state ≠ .finished ∧
          create s path mode fill = (.error e, s₁.discardTemporary (handleFor s path))) ∨
        ∃ result s', s₁.replaceBy (handleFor s path) path (fill.run b s₁).2.1.draft.image
            (b.mode % 0o10000) = .ok s' ∧
          create s path mode fill = (result, s') ∧
          ((fill.run b s₁).2.1.state = .finished ∨
            (fill.run b s₁).1 = .ok () ∧ result = .ok ())) := by
  cases hopen : Builder.open s path mode with
  | error e => exact .inl ⟨e, by rw [create, hopen]⟩
  | ok opened =>
    obtain ⟨b, s₁⟩ := opened
    exact .inr ⟨b, s₁, rfl, create_of_open hopen fill⟩

/-- Whether a build in one go puts its file at the target: it succeeds, or whoever filled its
builder had finished it. -/
def Replaces (s : FileSpace) (path : Path) (mode : Option Nat) (fill : Fill) : Prop :=
  (create s path mode fill).1 = .ok () ∨
    ∃ b s₁, Builder.open s path mode = .ok (b, s₁) ∧ (fill.run b s₁).2.1.state = .finished

/-- A build in one go leaves all files alone, or a new file lies at the location of its target. -/
theorem replaces_cases (s : FileSpace) (path : Path) (mode : Option Nat) (fill : Fill) :
    (¬Replaces s path mode fill ∧ (create s path mode fill).2.nodes = s.nodes) ∨
      Replaces s path mode fill ∧ ∃ loc bytes bits, s.locate path = .ok loc ∧
        s.node? loc ≠ some .directory ∧
        (create s path mode fill).2.nodes = (s.install loc bytes bits).nodes := by
  cases hopen : Builder.open s path mode with
  | error e =>
    have hcreate : create s path mode fill = (.error e, s) := by rw [create, hopen]
    refine .inl ⟨?_, by rw [hcreate]⟩
    rintro (hok | ⟨b, s₁, hopen', -⟩)
    · rw [hcreate] at hok
      cases hok
    · cases hopen.symm.trans hopen'
  | ok opened =>
    obtain ⟨b, s₁⟩ := opened
    have hnodes := nodes_open hopen
    obtain ⟨e, hstate, hcreate⟩ | ⟨result, s', hreplace, hcreate, hended⟩ :=
      create_of_open hopen fill
    · refine .inl ⟨?_, by rw [hcreate, FileSpace.nodes_discardTemporary, hnodes]⟩
      rintro (hok | ⟨b', s₁', hopen', hfinished⟩)
      · rw [hcreate] at hok
        cases hok
      · cases hopen.symm.trans hopen'
        exact hstate hfinished
    · obtain ⟨loc, u, -, hlocate, hfile, -, -, rfl⟩ := FileSpace.replaceBy_eq_ok.1 hreplace
      rw [FileSpace.locate_of_nodes hnodes] at hlocate
      rw [FileSpace.node?_of_nodes hnodes] at hfile
      have hreplaces : Replaces s path mode fill := by
        rcases hended with hfinished | ⟨-, rfl⟩
        · exact .inr ⟨b, s₁, hopen, hfinished⟩
        · exact .inl (by rw [hcreate])
      refine .inr ⟨hreplaces, loc, (fill.run b s₁).2.1.draft.image, b.mode % 0o10000, hlocate,
        hfile, ?_⟩
      obtain ⟨bits, dir, -, -, -, rfl⟩ := open_cases hopen
      rw [hcreate]
      rfl

/-- A build that fails leaves all files alone, unless somebody finished its builder before. -/
theorem nodes_create_of_error {e : Error} (h : (create s path mode fill).1 = .error e)
    (hfill : ∀ b s₁, Builder.open s path mode = .ok (b, s₁) →
      (fill.run b s₁).2.1.state ≠ .finished) :
    (create s path mode fill).2.nodes = s.nodes := by
  rcases create_cases s path mode fill with
    ⟨e, hcreate⟩ | ⟨b, s₁, hopen, ⟨e, -, hcreate⟩ | ⟨result, s', -, hcreate, hended⟩⟩
  · rw [hcreate]
  · rw [hcreate, FileSpace.nodes_discardTemporary, nodes_open hopen]
  · rcases hended with hfinished | ⟨-, rfl⟩
    · exact absurd hfinished (hfill b s₁ hopen)
    · rw [hcreate] at h
      cases h

/-! ### Temporary files -/

/-- Without its temporary file, the space of a new builder has those that it had before. -/
private theorem temporaries_without_of_open (hs : s.Sound) {s₁ : FileSpace}
    (hopen : Builder.open s path mode = .ok (b, s₁)) {found : TemporaryFile}
    (hfound : s₁.findTemporary (handleFor s path) = .ok found) :
    (s₁.without found).temporaries = s.temporaries := by
  obtain ⟨bits, loc, -, hdirectory, -, rfl⟩ := open_cases hopen
  obtain ⟨loc', hdirectory', rfl, -⟩ := FileSpace.findTemporary_eq_ok.1 hfound
  rw [FileSpace.resolveDirectory_of_nodes (FileSpace.nodes_withTemporary ..)] at hdirectory'
  cases hdirectory.symm.trans hdirectory'
  -- Only the new temporary file has the new serial number.
  have hold (u : TemporaryFile) (hu : u ∈ s.temporaries) :
      u ≠ ⟨loc, (handleFor s path).target, s.serials⟩ := by
    rintro rfl
    exact Nat.lt_irrefl _ (hs.serial _ hu)
  exact (List.filter_cons_of_neg (by simp [handleFor])).trans
    (List.filter_eq_self.2 fun u hu => decide_eq_true (hold u hu))

/-- A new builder finds its temporary file. -/
theorem findTemporary_of_open {s₁ : FileSpace}
    (hopen : Builder.open s path mode = .ok (b, s₁)) :
    ∃ found, s₁.findTemporary (handleFor s path) = .ok found := by
  obtain ⟨bits, loc, -, hdirectory, -, rfl⟩ := open_cases hopen
  refine ⟨⟨loc, (handleFor s path).target, s.serials⟩,
    FileSpace.findTemporary_eq_ok.2 ⟨loc, ?_, rfl, ?_⟩⟩
  · rw [FileSpace.resolveDirectory_of_nodes (FileSpace.nodes_withTemporary ..)]
    exact hdirectory
  · exact List.mem_cons_self

/-- A build in one go leaves no temporary file, whether it fails or not. -/
theorem temporaries_create (hs : s.Sound) (path : Path) (mode : Option Nat) (fill : Fill) :
    (create s path mode fill).2.temporaries = s.temporaries := by
  rcases create_cases s path mode fill with
    ⟨e, hcreate⟩ | ⟨b, s₁, hopen, ⟨e, -, hcreate⟩ | ⟨result, s', hreplace, hcreate, -⟩⟩
  · rw [hcreate]
  · obtain ⟨found, hfound⟩ := findTemporary_of_open hopen
    rw [hcreate, FileSpace.discardTemporary_eq, hfound]
    exact temporaries_without_of_open hs hopen hfound
  · obtain ⟨loc, found, hfound, -, -, -, -, rfl⟩ := FileSpace.replaceBy_eq_ok.1 hreplace
    rw [hcreate]
    exact temporaries_without_of_open hs hopen hfound

/-- Adding records finishes no builder. -/
theorem Fill.state_addAll_done (rs : List Record) (result : Except Error Unit) (b : Builder)
    (s : FileSpace) : ((addAll rs (done result)).run b s).2.1.state = b.state := by
  have hstate : (b.addAll rs).2.state = b.state := by rw [addAll_snd]
  rw [run_addAll]
  generalize b.addAll rs = added at hstate ⊢
  obtain ⟨reached, b₁⟩ := added
  cases reached <;> exact hstate

end ConstDb.Builder
