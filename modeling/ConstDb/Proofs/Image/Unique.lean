import ConstDb.Image.Audit
import ConstDb.Proofs.Image.Reach

/-! # Images whose keys differ

Whether the keys of an image differ is asked of the index: it has to lead from the key of each
record to that record first.  No two records of a scan lie at one offset, so if the index does this,
the keys differ indeed, even in a damaged image, and the first value of a key is the only one.

## Key results

- `Image.hasUniqueKeys_eq_true`: what a positive answer means
- `Image.nodup_keys_of_leadsTo`: the keys of the records differ
- `Image.first_of_leadsTo`: the first value of a key is that of its record
-/

namespace ConstDb

/-- All items of a walk pass just when none of them fails and nothing ends the walk early. -/
theorem Walk.allM_eq_true {α : Type} {f : α → Except Error Bool} {w : Walk α} :
    w.allM f = .ok true ↔ w.failure = none ∧ ∀ a ∈ w.items, f a = .ok true := by
  have hgo (as : List α) :
      allM.go f w as = .ok true ↔ w.failure = none ∧ ∀ a ∈ as, f a = .ok true := by
    induction as with
    | nil =>
      rw [allM.go]
      cases w.failure <;> simp
    | cons a rest ih =>
      rw [allM.go, List.forall_mem_cons]
      cases ha : f a with
      | error e => simp
      | ok passed =>
        cases passed with
        | false => simp
        | true => simpa using ih
  exact hgo w.items

/-- A walk that nothing ends early gives an answer, if no item fails. -/
theorem Walk.exists_allM_eq_ok {α : Type} {f : α → Except Error Bool} {w : Walk α}
    (hw : w.failure = none) (h : ∀ a ∈ w.items, ∃ passed, f a = .ok passed) :
    ∃ passed, w.allM f = .ok passed := by
  have hgo (as : List α) (h : ∀ a ∈ as, ∃ passed, f a = .ok passed) :
      ∃ passed, allM.go f w as = .ok passed := by
    induction as with
    | nil => exact ⟨true, by rw [allM.go, hw]⟩
    | cons a rest ih =>
      obtain ⟨⟨passed, ha⟩, hrest⟩ := List.forall_mem_cons.1 h
      rw [allM.go, ha]
      cases passed with
      | false => exact ⟨false, rfl⟩
      | true => exact ih hrest
  exact hgo w.items h

namespace Image

variable {image : Image} {s t : Stored}

/-! ### Where a scan meets records -/

/-- A scan meets a record that is read at its offset, behind the place where the scan starts. -/
theorem read_of_mem_scanFrom {pos : Nat} (h : s ∈ (image.scanFrom pos).items) :
    pos ≤ s.offset ∧ Stored.read image.bytes s.offset image.recordEnd = .ok s := by
  fun_induction scanFrom image pos with
  | case1 => exact absurd h List.not_mem_nil
  | case2 => exact absurd h List.not_mem_nil
  | case3 pos t hrecord ih =>
    have hread := read_of_recordAt hrecord
    rcases List.mem_cons.1 h with rfl | h
    · rw [Stored.offset_of_read hread]
      exact ⟨Nat.le_refl pos, hread⟩
    · have hbehind := (next_le_of_recordAt hrecord).1
      exact ⟨by have := (ih h).1; omega, (ih h).2⟩

/-- A scan meets records one behind the other. -/
theorem pairwise_offset_scanFrom (image : Image) (pos : Nat) :
    (image.scanFrom pos).items.Pairwise fun s t => s.offset < t.offset := by
  fun_induction scanFrom image pos with
  | case1 => exact .nil
  | case2 => exact .nil
  | case3 pos s hrecord ih =>
    refine .cons (fun t ht => ?_) ih
    have hoffset := Stored.offset_of_read (read_of_recordAt hrecord)
    have hnext := (next_le_of_recordAt hrecord).1
    have ht := (read_of_mem_scanFrom ht).1
    omega

/-! ### From a key to its record -/

/-- Whether the index leads from the key of a record to that record first. -/
def LeadsTo (image : Image) (s : Stored) : Prop :=
  ∃ first, image.firstHit (s.key image.bytes) = .ok (some first) ∧ first.offset = s.offset

/-- The answer is positive when nothing ends the scan early and the index leads from the key of each
record to that record. -/
theorem hasUniqueKeys_eq_true :
    image.hasUniqueKeys = .ok true ↔
      image.scan.failure = none ∧ ∀ s ∈ image.scan.items, image.LeadsTo s := by
  unfold hasUniqueKeys
  rw [Walk.allM_eq_true]
  refine and_congr_right fun _ => forall_congr' fun s => imp_congr_right fun _ => ?_
  unfold LeadsTo
  cases image.firstHit (s.key image.bytes) with
  | error e => simp [Except.map]
  | ok first => cases first <;> simp [Except.map]

/-- What the index finds at the offset of a scanned record is that record. -/
theorem LeadsTo.firstHit_eq (h : image.LeadsTo s) (hs : s ∈ image.scan.items) :
    image.firstHit (s.key image.bytes) = .ok (some s) := by
  obtain ⟨first, hfirst, hoffset⟩ := h
  obtain ⟨hit, rfl, hsound⟩ := sound_of_firstHit hfirst
  have hread := hsound.read_eq
  rw [hoffset, (read_of_mem_scanFrom hs).2] at hread
  rw [hfirst, Except.ok.inj hread]

/-- If the index leads from each key to the record with that key, no two records have one key. -/
theorem nodup_keys_of_leadsTo (h : ∀ s ∈ image.scan.items, image.LeadsTo s) :
    (image.records.items.map Record.key).Nodup := by
  have hkeys : image.records.items.map Record.key =
      image.scan.items.map fun s => s.key image.bytes := by
    rw [records, Walk.items_map, List.map_map]
    rfl
  rw [hkeys, List.nodup_iff_pairwise_ne, List.pairwise_map]
  refine (image.pairwise_offset_scanFrom Layout.headerSize).imp_of_mem ?_
  intro s t hs ht hlt hkey
  -- From one key the index leads to one record.
  have hs' := (h s hs).firstHit_eq hs
  rw [hkey, (h t ht).firstHit_eq ht] at hs'
  cases hs'
  exact Nat.lt_irrefl _ hlt

/-- The first value of a key is that of the record that the index leads to. -/
theorem first_eq_firstHit (image : Image) (key : ByteArray) :
    image.first key =
      (image.firstHit key).map fun first => first.map fun s => s.value image.bytes := by
  rw [first, nth_eq, firstHit_eq, occurrences, Walk.get?_map]
  rcases (image.hits key).get? 0 with _ | _ | hit <;> rfl

theorem first_of_leadsTo (h : ∀ s ∈ image.scan.items, image.LeadsTo s) {r : Record}
    (hr : r ∈ image.records.items) : image.first r.key = .ok (some r.value) := by
  rw [records, Walk.items_map] at hr
  obtain ⟨s, hs, rfl⟩ := List.mem_map.1 hr
  rw [first_eq_firstHit, Stored.record, (h s hs).firstHit_eq hs]
  rfl

end Image

end ConstDb
