import ConstDb.CommandLine.Run
import ConstDb.Proofs.Builder.Create

/-! # What a command does to the files

Two commands build databases, and they do it in one go.  No other command touches any file, and one
that fails leaves all files as they were.

## Key results

- `Command.run_cases`: a command leaves the files alone, or builds a database in one go
- `Command.replaces_cases`: it puts a file at the path of its database, or leaves all files alone
- `Invocation.nodes_perform_of_failed`: a command that fails leaves all files alone
-/

namespace ConstDb

variable {s s' : FileSpace} {settings : Settings} {stdin : ByteArray} {o : Outcome}

namespace Command

/-- Whether a command has to build a new database at a path: one that makes it, or one that thins it
out while some key occurs twice in it. -/
def Rebuilds (s : FileSpace) (db : Path) : Command → Prop
  | make target _ => target = db
  | uniq target _ => target = db ∧
      ∃ mapping, Mapping.load s target = .ok mapping ∧ mapping.image.hasUniqueKeys = .ok false
  | _ => False

/-- Whether a command puts a new database at a path: it has to, and it succeeds. -/
def Replaces (s : FileSpace) (settings : Settings) (stdin : ByteArray) (db : Path)
    (command : Command) : Prop :=
  command.Rebuilds s db ∧ (command.run s settings stdin).1.status = 0

/-- What a command that builds a database in one go comes to.  The fill of the build does not finish
the builder itself, and the command succeeds only if the build does. -/
def Built (s : FileSpace) (settings : Settings) (db : Path) (o : Outcome) (s' : FileSpace) : Prop :=
  ∃ rs ending context,
    o = .ofExcept context ByteArray.empty
      (Builder.create s db settings.mode (.addAll rs (.done ending))).1 ∧
    s' = (Builder.create s db settings.mode (.addAll rs (.done ending))).2

/-! ### Runs of a command -/

/-- Nothing is to be done just when the index leads to each record. -/
theorem shortened_eq_none {image : Image} {keep : Keep} :
    shortened image keep = .ok none ↔ image.hasUniqueKeys = .ok true := by
  rw [shortened]
  split
  · simp [*]
  · simp [*]
  · cases keptRecords image keep <;> simp [Except.map, *]

/-- Something is to be done only if it does not. -/
theorem hasUniqueKeys_of_shortened {image : Image} {keep : Keep} {kept : List Record}
    (h : shortened image keep = .ok (some kept)) : image.hasUniqueKeys = .ok false := by
  rw [shortened] at h
  split at h
  · cases h
  · cases h
  · assumption

private theorem runMake_cases {db input : Path}
    (h : runMake s settings stdin db input = (o, s')) :
    (s' = s ∧ o.status ≠ 0) ∨ Built s settings db o s' := by
  unfold runMake at h
  split at h
  · obtain ⟨rfl, rfl⟩ := Prod.mk.inj h
    exact .inl ⟨rfl, by simp [Outcome.failure]⟩
  · obtain ⟨ho, hs⟩ := Prod.mk.inj h
    exact .inr ⟨_, _, _, ho.symm, hs.symm⟩

private theorem runUniq_cases {db : Path} {keep : Keep}
    (h : runUniq s settings db keep = (o, s')) :
    (s' = s ∧ (o.status = 0 → ∀ mapping, Mapping.load s db = .ok mapping →
        mapping.image.hasUniqueKeys = .ok true)) ∨
      (∃ mapping, Mapping.load s db = .ok mapping ∧ mapping.image.hasUniqueKeys = .ok false) ∧
        Built s settings db o s' := by
  unfold runUniq at h
  split at h
  · obtain ⟨rfl, rfl⟩ := Prod.mk.inj h
    exact .inl ⟨rfl, by simp [Outcome.failure]⟩
  · rename_i mapping hload
    cases hkept : shortened mapping.image keep with
    | error e =>
      rw [hkept] at h
      obtain ⟨rfl, rfl⟩ := Prod.mk.inj h
      exact .inl ⟨rfl, by simp [Outcome.failure]⟩
    | ok kept? =>
      rw [hkept] at h
      cases kept? with
      | none =>
        obtain ⟨rfl, rfl⟩ := Prod.mk.inj h
        refine .inl ⟨rfl, fun _ mapping' hload' => ?_⟩
        cases hload.symm.trans hload'
        exact shortened_eq_none.1 hkept
      | some kept =>
        obtain ⟨ho, hs⟩ := Prod.mk.inj h
        exact .inr ⟨⟨mapping, hload, hasUniqueKeys_of_shortened hkept⟩, _, .ok (), _,
          ho.symm, hs.symm⟩

/-- A command leaves the space of files alone, and has nothing to build unless it fails, or it has
to build one database and does so in one go. -/
theorem run_cases {command : Command} (h : command.run s settings stdin = (o, s')) :
    (s' = s ∧ ∀ db, command.Rebuilds s db → o.status ≠ 0) ∨
      ∃ db, command.Rebuilds s db ∧ (∀ db', command.Rebuilds s db' → db' = db) ∧
        Built s settings db o s' := by
  cases command with
  | make db input =>
    rcases runMake_cases h with ⟨hs, hstatus⟩ | hbuilt
    · exact .inl ⟨hs, fun _ _ => hstatus⟩
    · exact .inr ⟨db, rfl, fun _ => Eq.symm, hbuilt⟩
  | uniq db keep =>
    rcases runUniq_cases h with ⟨hs, hunique⟩ | ⟨hrepeated, hbuilt⟩
    · refine .inl ⟨hs, ?_⟩
      rintro _ ⟨-, mapping, hload, hrepeated⟩ hstatus
      cases hrepeated.symm.trans (hunique hstatus mapping hload)
    · exact .inr ⟨db, ⟨rfl, hrepeated⟩, fun _ h => h.1.symm, hbuilt⟩
  | _ => exact .inl ⟨(Prod.mk.inj h).2.symm, fun _ h => h.elim⟩

/-! ### What becomes of the files -/

/-- A build of a command puts its file at the target just when the command succeeds. -/
private theorem Built.cases {db : Path} (h : Built s settings db o s') :
    (o.status ≠ 0 ∧ s'.nodes = s.nodes) ∨
      o.status = 0 ∧ ∃ loc bytes bits, s.locate db = .ok loc ∧ s.node? loc ≠ some .directory ∧
        s'.nodes = (s.install loc bytes bits).nodes := by
  obtain ⟨rs, ending, context, rfl, rfl⟩ := h
  have hstatus : (Outcome.ofExcept context ByteArray.empty
      (Builder.create s db settings.mode (.addAll rs (.done ending))).1).status = 0 ↔
        (Builder.create s db settings.mode (.addAll rs (.done ending))).1 = .ok () := by
    cases (Builder.create s db settings.mode (.addAll rs (.done ending))).1 <;>
      simp [Outcome.ofExcept, Outcome.success, Outcome.failure]
  rw [Ne, hstatus]
  rcases Builder.replaces_cases s db settings.mode (.addAll rs (.done ending)) with
    ⟨hnot, hnodes⟩ | ⟨hok | ⟨b, s₁, hopen, hfinished⟩, hinstalled⟩
  · exact .inl ⟨fun hok => hnot (.inl hok), hnodes⟩
  · exact .inr ⟨hok, hinstalled⟩
  · -- The fill only adds records, so it leaves the builder at work.
    obtain ⟨bits, loc, -, -, rfl, -⟩ := Builder.open_cases hopen
    rw [Builder.Fill.state_addAll_done] at hfinished
    cases hfinished

/-- A command leaves all files alone, or a new file lies at the location of its database. -/
theorem replaces_cases {command : Command} (h : command.run s settings stdin = (o, s')) :
    (s'.nodes = s.nodes ∧ ∀ db, ¬command.Replaces s settings stdin db) ∨
      ∃ db loc bytes bits, (∀ db', command.Replaces s settings stdin db' ↔ db' = db) ∧
        s.locate db = .ok loc ∧ s.node? loc ≠ some .directory ∧
        s'.nodes = (s.install loc bytes bits).nodes := by
  simp only [Replaces, h]
  rcases run_cases h with ⟨rfl, hnone⟩ | ⟨db, hdb, hunique, hbuilt⟩
  · exact .inl ⟨rfl, fun db hreplaces => hnone db hreplaces.1 hreplaces.2⟩
  · obtain ⟨hstatus, hnodes⟩ | ⟨hstatus, loc, bytes, bits, hinstalled⟩ := hbuilt.cases
    · exact .inl ⟨hnodes, fun db hreplaces => hstatus hreplaces.2⟩
    · refine .inr ⟨db, loc, bytes, bits, fun db' => ?_, hinstalled⟩
      exact ⟨fun hreplaces => hunique db' hreplaces.1, fun heq => ⟨heq ▸ hdb, hstatus⟩⟩

end Command

namespace Invocation

variable {invocation : Invocation}

/-- An invocation leaves the space of files alone, or builds a database in one go. -/
theorem perform_cases (h : invocation.perform s settings stdin = (o, s')) :
    s' = s ∨ ∃ db, Command.Built s settings db o s' := by
  cases invocation with
  | run command =>
    rcases Command.run_cases h with ⟨hs, -⟩ | ⟨db, -, -, hbuilt⟩
    · exact .inl hs
    · exact .inr ⟨db, hbuilt⟩
  | _ => exact .inl (Prod.mk.inj h).2.symm

/-- A command that fails leaves all files alone. -/
theorem nodes_perform_of_failed (h : invocation.perform s settings stdin = (o, s'))
    (hstatus : o.status ≠ 0) : s'.nodes = s.nodes := by
  rcases perform_cases h with rfl | ⟨db, hbuilt⟩
  · rfl
  · obtain ⟨-, hnodes⟩ | ⟨hzero, -⟩ := hbuilt.cases
    · exact hnodes
    · exact absurd hzero hstatus

end Invocation

end ConstDb
