import ConstDb.Proofs.FileSpace.Change

/-! # Versions of files

What becomes of the files in changes by which no time is set by hand.  A file that is there
afterwards was there before with the same bytes and the same time, or it was installed on the way
and has the time that the clock showed then.

A clock may show one time twice, so times alone do not tell files apart.

## Key results

- `FileSpace.later_of_changes`: what becomes of files in changes
- `FileSpace.kept_of_changes`: without a new file, every file is an old one
-/

namespace ConstDb.FileSpace

variable {s s' s'' : FileSpace} {p : Powers} {loc : Location} {f' : File}

/-- Whether a space of files is from a later moment: each of its files was there before with the
same bytes and the same time, or has the time that the clock showed at a later installation. -/
structure Later (s s' : FileSpace) : Prop where
  clock : s'.clock = s.clock
  installs : s.installs ≤ s'.installs
  file : ∀ loc f', s'.node? loc = some (.file f') →
    (∃ f, s.node? loc = some (.file f) ∧ f.bytes = f'.bytes ∧ f.time = f'.time) ∨
      ∃ k, s.installs < k ∧ k ≤ s'.installs ∧ f'.time = s.clock k

theorem Later.refl (s : FileSpace) : Later s s :=
  ⟨rfl, Nat.le_refl _, fun _ f hf => .inl ⟨f, hf, rfl, rfl⟩⟩

theorem Later.trans (h : Later s s') (h' : Later s' s'') : Later s s'' := by
  refine ⟨h'.clock.trans h.clock, Nat.le_trans h.installs h'.installs, fun loc f'' hf'' => ?_⟩
  rcases h'.file loc f'' hf'' with ⟨f', hf', hbytes', htime'⟩ | ⟨k, hlow, hhigh, htime'⟩
  · rcases h.file loc f' hf' with ⟨f, hf, hbytes, htime⟩ | ⟨k, hlow, hhigh, htime⟩
    · exact .inl ⟨f, hf, hbytes.trans hbytes', htime.trans htime'⟩
    · exact .inr ⟨k, hlow, Nat.le_trans hhigh h'.installs, htime'.symm.trans htime⟩
  · rw [h.clock] at htime'
    exact .inr ⟨k, Nat.lt_of_le_of_lt h.installs hlow, hhigh, htime'⟩

/-- What is left of the files is as it was. -/
private theorem Later.of_kept (hclock : s'.clock = s.clock) (hinstalls : s'.installs = s.installs)
    (hkept : ∀ loc f, s'.node? loc = some (.file f) → s.node? loc = some (.file f)) : Later s s' :=
  ⟨hclock, Nat.le_of_eq hinstalls.symm, fun loc f hf => .inl ⟨f, hkept loc f hf, rfl, rfl⟩⟩

/-- Each change leads to a later space, unless it sets a time by hand. -/
theorem later_of_change (hp : ¬p.stamping) (h : Change p s s') : Later s s' := by
  -- Only `install` stamps a file; all other files that are left keep bytes and time.
  cases h with
  | @install path loc bytes mode _ _ hfile _ =>
    refine ⟨rfl, Nat.le_succ _, fun l f' hf' => ?_⟩
    by_cases hl : l = loc
    · subst hl
      rw [node?_install_self (ne_nil_of_not_directory hfile)] at hf'
      cases hf'
      exact .inr ⟨s.installs + 1, Nat.lt_succ_self _, Nat.le_refl _, rfl⟩
    · rw [node?_install_of_ne hl] at hf'
      exact .inl ⟨f', hf', rfl, rfl⟩
  | @modify loc f g hnode hbytes _ htime =>
    refine ⟨rfl, Nat.le_refl _, fun l f' hf' => ?_⟩
    by_cases hl : l = loc
    · subst hl
      have hroot : l ≠ [] := ne_nil_of_not_directory (s := s) (by simp [hnode])
      rw [node?_put_self s _ hroot] at hf'
      cases hf'
      exact .inl ⟨f, hnode, hbytes.symm, (htime.resolve_right hp).symm⟩
    · rw [node?_put_of_ne s _ hl] at hf'
      exact .inl ⟨f', hf', rfl, rfl⟩
  | remove _ => exact .of_kept rfl rfl fun _ _ hf => node?_of_node?_erase hf
  | @makeDirectory path loc _ hnone =>
    refine .of_kept rfl rfl fun l f hf => ?_
    by_cases hl : l = loc
    · subst hl
      have hroot : l ≠ [] := ne_nil_of_not_directory (s := s) (by simp [hnone])
      rw [node?_put_self s _ hroot] at hf
      cases hf
    · rwa [node?_put_of_ne s _ hl] at hf
  | removeDirectory loc => exact .of_kept rfl rfl fun _ _ hf => node?_of_node?_erase hf
  | createTemporary _ _ target => exact .of_kept rfl rfl fun _ _ hf => hf
  | clearTemporary u => exact .of_kept rfl rfl fun _ _ hf => hf

/-- So do changes one after the other. -/
theorem later_of_changes (hp : ¬p.stamping) (h : Changes p s s') : Later s s' := by
  induction h with
  | refl => exact .refl s
  | tail _ hchange ih => exact ih.trans (later_of_change hp hchange)

/-- Where no new file is put anywhere, none is installed. -/
theorem installs_of_changes (hp : ¬p.writing) (h : Changes p s s') : s'.installs = s.installs := by
  induction h with
  | refl => rfl
  | tail _ hchange ih =>
    rw [← ih]
    cases hchange with
    | install hwriting => exact absurd hwriting hp
    | _ => rfl

/-- Where no new file is put anywhere and no time is set by hand, each file that is left is an old
one, with the bytes and the time that it had. -/
theorem kept_of_changes (hwriting : ¬p.writing) (hstamping : ¬p.stamping) (h : Changes p s s')
    (hf' : s'.node? loc = some (.file f')) :
    ∃ f, s.node? loc = some (.file f) ∧ f.bytes = f'.bytes ∧ f.time = f'.time := by
  have hinstalls := installs_of_changes hwriting h
  rcases (later_of_changes hstamping h).file loc f' hf' with hkept | ⟨k, hlow, hhigh, -⟩
  · exact hkept
  · omega

/-- Whether all files were stamped by the clock when they were installed. -/
def Stamped (s : FileSpace) : Prop :=
  ∀ loc f, s.node? loc = some (.file f) → ∃ k ≤ s.installs, f.time = s.clock k

theorem stamped_start (topSize : Nat) (clock : Nat → Nat) : (start topSize clock).Stamped := by
  intro loc f hf
  rw [node?_start] at hf
  split at hf <;> cases hf

theorem Stamped.of_later (hs : s.Stamped) (h : Later s s') : s'.Stamped := by
  intro loc f' hf'
  rw [h.clock]
  rcases h.file loc f' hf' with ⟨f, hf, -, htime⟩ | ⟨k, -, hhigh, htime⟩
  · obtain ⟨k, hk, hstamp⟩ := hs loc f hf
    exact ⟨k, Nat.le_trans hk h.installs, htime.symm.trans hstamp⟩
  · exact ⟨k, hhigh, htime⟩

/-- A clock that shows no time twice stamps a new file with a time that no file has. -/
theorem Stamped.stamp_ne (hs : s.Stamped) (hclock : Function.Injective s.clock) {f : File}
    (hf : s.node? loc = some (.file f)) : f.time ≠ s.stamp := by
  obtain ⟨k, hk, hstamp⟩ := hs loc f hf
  intro htime
  have hsame : k = s.installs + 1 := hclock (hstamp.symm.trans htime)
  omega

end ConstDb.FileSpace
