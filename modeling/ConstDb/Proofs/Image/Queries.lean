import ConstDb.Image.Audit
import ConstDb.Proofs.Probe.Route
import ConstDb.RecordText.Print

/-! # Queries by walks

All queries for one key are answered from the walk of its occurrences, however far each of them
goes along it.  The text of an image is that of the records that a scan meets.

## Key results

- `Image.nth_eq`: looking for one occurrence finds the item of the walk at its place
- `Image.nth_eq_getElem?`, `Image.containsKey_eq`: the answers for a key whose walk meets no error
- `Image.dump_of_records`, `Image.dump_of_failure`, `Image.dump_eq`: what a sink is given
-/

namespace ConstDb

/-- The item at a place of a walk, or the error that ended the walk before. -/
def Walk.get? {α : Type} (w : Walk α) (n : Nat) : Except Error (Option α) :=
  match w.items[n]? with
  | some a => .ok (some a)
  | none =>
    match w.failure with
    | none => .ok none
    | some e => .error e

@[simp] theorem Walk.get?_map {α β : Type} (f : α → β) (w : Walk α) (n : Nat) :
    (w.map f).get? n = (w.get? n).map (Option.map f) := by
  obtain ⟨items, failure⟩ := w
  simp only [Walk.get?, Walk.map, List.getElem?_map]
  cases items[n]? with
  | some a => rfl
  | none => cases failure <;> rfl

/-- The calls of an iterator: the items, then what ended the walk, once, and then nothing. -/
theorem Walk.nth_eq_ite {α : Type} (w : Walk α) (n : Nat) :
    w.nth n =
      if n = w.items.length then w.failure.map .error else w.items[n]?.map .ok := by
  unfold Walk.nth
  by_cases hn : n < w.items.length
  · rw [dif_pos hn, if_neg (by omega), List.getElem?_eq_getElem hn, Option.map_some]
  · rw [dif_neg hn]
    by_cases hend : n = w.items.length
    · rw [if_pos hend, if_pos hend]
    · rw [if_neg hend, if_neg hend, List.getElem?_eq_none (by omega), Option.map_none]

/-- Behind the first item the calls are those of the rest. -/
theorem Walk.nth_cons_succ {α : Type} (a : α) (w : Walk α) (n : Nat) :
    (w.cons a).nth (n + 1) = w.nth n := by
  rw [nth_eq_ite, nth_eq_ite, items_cons, failure_cons, List.length_cons, List.getElem?_cons_succ]
  simp only [Nat.add_right_cancel_iff]

namespace Image

/-- Going on from a place of a search finds the items behind that place. -/
theorem nthFrom_eq (image : Image) (key : ByteArray) (p : Probe) (n : Nat) :
    image.nthFrom key p n = ((p.hits image key).map (Hit.value image)).get? n := by
  induction n generalizing p with
  | zero =>
    rw [nthFrom, Probe.hits_eq_match]
    rcases p.next image key with ⟨_ | _ | hit, q⟩ <;> rfl
  | succ n ih =>
    rw [nthFrom, Probe.hits_eq_match]
    rcases p.next image key with ⟨_ | _ | hit, q⟩
    · rfl
    · rfl
    · exact ih q

/-- Looking for one occurrence finds the item of the walk at its place. -/
theorem nth_eq (image : Image) (key : ByteArray) (n : Nat) :
    image.nth key n = (image.occurrences key).get? n := by
  unfold nth occurrences hits
  cases Probe.start? image key with
  | none => rfl
  | some p => exact image.nthFrom_eq key p n

/-- The first record that the index leads to is the first item of the walk. -/
theorem firstHit_eq (image : Image) (key : ByteArray) :
    image.firstHit key = ((image.hits key).get? 0).map fun hit => hit.map Hit.stored := by
  unfold firstHit hits
  cases Probe.start? image key with
  | none => rfl
  | some p =>
    simp only
    rw [Probe.hits_eq_match]
    rcases p.next image key with ⟨_ | _ | hit, q⟩ <;> rfl

section

variable {image : Image} {key : ByteArray} {values : List ByteArray}

/-- Occurrence `n` of a key whose occurrences are known. -/
theorem nth_eq_getElem? (h : image.occurrences key = ⟨values, none⟩) (n : Nat) :
    image.nth key n = .ok values[n]? := by
  rw [nth_eq, h, Walk.get?]
  cases values[n]? <;> rfl

/-- All values of a key whose occurrences are known. -/
theorem findAll_of_occurrences (h : image.occurrences key = ⟨values, none⟩) :
    image.findAll key = .ok values := by
  rw [findAll_eq, h]
  rfl

/-- How often a key occurs whose occurrences are known. -/
theorem count_of_occurrences (h : image.occurrences key = ⟨values, none⟩) :
    image.count key = .ok values.length := by
  rw [count_eq, h]
  rfl

/-- Whether a key occurs whose occurrences are known. -/
theorem containsKey_eq (h : image.occurrences key = ⟨values, none⟩) :
    image.containsKey key = .ok (decide (values ≠ [])) := by
  rw [containsKey, first, nth_eq_getElem? h]
  cases values <;> rfl

end

end Image

/-! ### The text of an image -/

/-- What a sink gets of an image all of whose records are read. -/
theorem Image.dump_of_records {image : Image} {rs : List Record} (h : image.records = ⟨rs, none⟩)
    (sink : Sink) :
    image.dump sink =
      match sink.write (RecordText.print rs) with
      | (.error e, sink) => (.error e, sink)
      | (.ok (), sink) => (sink.flush.map fun _ => rs.length, sink) := by
  rw [Image.dump, h, Sink.writeLines_eq, RecordText.print, Sink.write_append]
  rcases sink.write (RecordText.lines rs) with ⟨_ | _, _⟩ <;> rfl

/-- A sink that never fails gets the lines of the records in front of the damage. -/
theorem Image.dump_of_failure {image : Image} {rs : List Record} {e : Error}
    (h : image.records = ⟨rs, some e⟩) {sink : Sink} (hroom : sink.room = none) :
    image.dump sink =
      (.error e, { sink with taken := sink.taken ++ RecordText.lines rs }) := by
  have hlines : sink.write (RecordText.lines rs) =
      (.ok (), { sink with taken := sink.taken ++ RecordText.lines rs }) := by
    unfold Sink.write
    rw [hroom]
  rw [Image.dump, h, Sink.writeLines_eq, hlines]

/-- What a sink that never fails gets of an image, and what is said about it. -/
theorem Image.dump_eq (image : Image) :
    image.dump {} =
      match image.records.failure with
      | none => (.ok image.records.items.length, { taken := RecordText.print image.records.items })
      | some e => (.error e, { taken := RecordText.lines image.records.items }) := by
  rcases h : image.records with ⟨rs, _ | e⟩
  · rw [dump_of_records h, Sink.write, ByteArray.empty_append]
    rfl
  · rw [dump_of_failure h rfl, ByteArray.empty_append]

end ConstDb
