import ConstDb.Image.Query
import ConstDb.Proofs.Draft.Index
import ConstDb.Record.Distinct
import Mathlib.Algebra.BigOperators.Group.List.Lemmas

/-! # One record for each key

What becomes of records of which only one for each key is kept: the keys in the order of their first
records, and for each key its first value or its last one.  With the last values the map of the
records stays what it was; with keys that differ already, the records do.

## Key results

- `Record.thins_keepFirst`, `Record.thins_keepLast`: what is kept
- `Record.Thins.eq_map`: the records that are kept, said outright
- `Record.thins_self`: records whose keys differ are kept as they are
- `Record.getElem?_lastValues`: a key is mapped to the last of its values
- `Record.sum_length_valuesOf`: the values of all keys of the map
- `Record.toList_lastValues_of_thins`: the map of the records that are kept with their last values
-/

namespace ConstDb.Record

variable {rs : List Record} {r : Record} {key : ByteArray}

/-! ### The values of a key -/

theorem valuesOf_cons (key : ByteArray) (r : Record) (rs : List Record) :
    valuesOf key (r :: rs) =
      if r.key = key then r.value :: valuesOf key rs else valuesOf key rs := by
  unfold valuesOf
  by_cases h : r.key = key <;> simp [h]

theorem valuesOf_eq_nil (h : key ∉ rs.map Record.key) : valuesOf key rs = [] := by
  rw [valuesOf, List.map_eq_nil_iff, List.filter_eq_nil_iff]
  intro r hr hkey
  exact h (List.mem_map.2 ⟨r, hr, by simpa using hkey⟩)

/-- A key that no other record has, has one value. -/
theorem valuesOf_of_nodup (hnodup : (rs.map Record.key).Nodup) (h : r ∈ rs) :
    valuesOf r.key rs = [r.value] := by
  induction rs with
  | nil => cases h
  | cons t rest ih =>
    obtain ⟨hhead, hrest⟩ := List.nodup_cons.1 hnodup
    rw [valuesOf_cons]
    rcases List.mem_cons.1 h with rfl | h
    · rw [if_pos rfl, valuesOf_eq_nil hhead]
    · have hne : t.key ≠ r.key := by
        intro heq
        exact hhead (heq ▸ List.mem_map_of_mem h)
      rw [if_neg hne, ih hrest h]

/-! ### The first record of each key -/

/-- Leaving out a key first makes no difference to the other keys. -/
theorem keepFirst_filter (key : ByteArray) (rs : List Record) :
    keepFirst (rs.filter fun r => decide (r.key ≠ key)) =
      (keepFirst rs).filter fun r => decide (r.key ≠ key) := by
  induction rs with
  | nil => rfl
  | cons r rest ih =>
    by_cases h : r.key = key
    · -- What is left out behind the record is left out once more.
      rw [List.filter_cons_of_neg (by simp [h]), ih, keepFirst,
        List.filter_cons_of_neg (by simp [h]), List.filter_filter]
      simp [h]
    · rw [List.filter_cons_of_pos (by simp [h]), keepFirst, keepFirst,
        List.filter_cons_of_pos (by simp [h]), ih, List.filter_filter, List.filter_filter]
      simp only [Bool.and_comm]

/-- The keys of the records that are kept are those of all records, each once, in the order of their
first records. -/
theorem map_key_keepFirst (rs : List Record) :
    (keepFirst rs).map Record.key = (rs.map Record.key).eraseDups := by
  -- The induction is on the length: behind a record its key is left out of the rest.
  induction hn : rs.length using Nat.strongRecOn generalizing rs with
  | ind n ih =>
    subst hn
    cases rs with
    | nil => rfl
    | cons r rest =>
      have hlength := List.length_filter_le (fun t => decide (t.key ≠ r.key)) rest
      have hrest := ih _ (by rw [List.length_cons]; omega)
        (rest.filter fun t => decide (t.key ≠ r.key)) rfl
      have hkeys : (rest.filter fun t => decide (t.key ≠ r.key)).map Record.key =
          (rest.map Record.key).filter fun key => !key == r.key := by
        rw [List.filter_map]
        congr 1
        apply List.filter_congr
        intro t _
        by_cases h : t.key = r.key <;> simp [h]
      rw [keepFirst, List.map_cons, List.map_cons, List.eraseDups_cons, ← keepFirst_filter, hrest,
        hkeys]

theorem keepFirst_sublist (rs : List Record) : (keepFirst rs).Sublist rs := by
  induction rs with
  | nil => exact .slnil
  | cons r rest ih => exact (List.filter_sublist.trans ih).cons_cons r

theorem nodup_keepFirst (rs : List Record) : ((keepFirst rs).map Record.key).Nodup := by
  induction rs with
  | nil => exact List.nodup_nil
  | cons r rest ih =>
    rw [keepFirst, List.map_cons, List.nodup_cons]
    refine ⟨?_, ih.sublist (List.filter_sublist.map Record.key)⟩
    intro hmem
    obtain ⟨t, ht, hkey⟩ := List.mem_map.1 hmem
    simpa [hkey] using (List.mem_filter.1 ht).2

/-- A record that is kept has the first value of its key. -/
theorem head?_valuesOf (h : r ∈ keepFirst rs) : (valuesOf r.key rs).head? = some r.value := by
  induction rs with
  | nil => cases h
  | cons t rest ih =>
    rw [valuesOf_cons]
    rcases List.mem_cons.1 h with rfl | h
    · rw [if_pos rfl, List.head?_cons]
    · obtain ⟨hr, hne⟩ := List.mem_filter.1 h
      rw [if_neg (Ne.symm (by simpa using hne)), ih hr]

/-- Records whose keys differ are all the first of their key. -/
theorem keepFirst_of_nodup (h : (rs.map Record.key).Nodup) : keepFirst rs = rs := by
  induction rs with
  | nil => rfl
  | cons r rest ih =>
    obtain ⟨hhead, hrest⟩ := List.nodup_cons.1 h
    rw [keepFirst, ih hrest, List.filter_eq_self.2]
    intro t ht
    have hne : t.key ≠ r.key := by
      intro heq
      exact hhead (heq ▸ List.mem_map_of_mem ht)
    simpa using hne

/-! ### What is kept -/

/-- Whether `kept` has each key of `rs` once, in the order of the first records, and with the value
that `pick` takes from all values of the key. -/
structure Thins (pick : List ByteArray → Option ByteArray) (rs kept : List Record) : Prop where
  map_key_eq : kept.map Record.key = (rs.map Record.key).eraseDups
  pick_eq : ∀ r ∈ kept, pick (valuesOf r.key rs) = some r.value

theorem thins_keepFirst (rs : List Record) : Thins List.head? rs (keepFirst rs) :=
  ⟨map_key_keepFirst rs, fun _ hr => head?_valuesOf hr⟩

namespace Thins

variable {pick : List ByteArray → Option ByteArray} {kept : List Record}

theorem nodup (h : Thins pick rs kept) : (kept.map Record.key).Nodup := by
  rw [h.map_key_eq, ← map_key_keepFirst]
  exact nodup_keepFirst rs

/-- Nothing else than `rs` and `pick` decides what is kept. -/
theorem eq_map (h : Thins pick rs kept) :
    kept = (rs.map Record.key).eraseDups.map fun key =>
      ⟨key, (pick (valuesOf key rs)).getD ByteArray.empty⟩ := by
  rw [← h.map_key_eq, List.map_map]
  calc kept = kept.map id := (List.map_id kept).symm
    _ = kept.map _ := List.map_congr_left fun r hr => by
      rw [Function.comp, h.pick_eq r hr]
      rfl

theorem length_le (h : Thins pick rs kept) : kept.length ≤ rs.length := by
  have hkeys := congrArg List.length (h.map_key_eq.trans (map_key_keepFirst rs).symm)
  rw [List.length_map, List.length_map] at hkeys
  rw [hkeys]
  exact (keepFirst_sublist rs).length_le

/-- What is kept of records that can be stored can be stored. -/
theorem storable (h : Thins pick rs kept)
    (hpick : ∀ values value, pick values = some value → value ∈ values)
    (hrs : Draft.Storable rs) : Draft.Storable kept := by
  refine ⟨Nat.le_trans h.length_le hrs.length_le, fun r hr => ?_⟩
  -- The value is one that a record with the key has.
  obtain ⟨t, ht, hvalue⟩ := List.mem_map.1 (hpick _ _ (h.pick_eq r hr))
  obtain ⟨ht, hkey⟩ := List.mem_filter.1 ht
  rw [decide_eq_true_iff] at hkey
  exact ⟨hkey ▸ (hrs.fits t ht).key_le, hvalue ▸ (hrs.fits t ht).value_le⟩

end Thins

/-- Records whose keys differ are kept as they are, with any value that a key with one value has. -/
theorem thins_self {pick : List ByteArray → Option ByteArray}
    (hpick : ∀ value, pick [value] = some value) (h : (rs.map Record.key).Nodup) :
    Thins pick rs rs := by
  refine ⟨?_, fun r hr => ?_⟩
  · rw [← map_key_keepFirst, keepFirst_of_nodup h]
  · rw [valuesOf_of_nodup h hr, hpick]

/-! ### The last value of each key -/

/-- Each key with its last value, on top of a map. -/
def lastValues (m : ByteMap) (rs : List Record) : ByteMap :=
  rs.foldl (fun m r => m.insert r.key r.value) m

/-- A key is mapped to the last of its values. -/
theorem getElem?_lastValues (m : ByteMap) (rs : List Record) (key : ByteArray) :
    (lastValues m rs)[key]? = (valuesOf key rs).getLast?.or m[key]? := by
  induction rs generalizing m with
  | nil => rfl
  | cons r rest ih =>
    rw [lastValues, List.foldl_cons, ← lastValues, ih, valuesOf_cons, Std.TreeMap.getElem?_insert]
    by_cases h : r.key = key
    · have hsame : ByteArray.compareBytes r.key key = .eq := by
        rw [h]
        exact Std.ReflCmp.compare_self
      rw [if_pos h, if_pos hsame, List.getLast?_cons]
      cases (valuesOf key rest).getLast? <;> rfl
    · have hother : ByteArray.compareBytes r.key key ≠ .eq := by
        intro heq
        exact h (Std.LawfulEqCmp.eq_of_compare heq)
      rw [if_neg h, if_neg hother]

/-- The keys of the map are those that have values. -/
theorem mem_lastValues_iff : key ∈ lastValues ∅ rs ↔ valuesOf key rs ≠ [] := by
  rw [Std.TreeMap.mem_iff_isSome_getElem?, getElem?_lastValues, Std.TreeMap.getElem?_emptyc,
    Option.or_none, List.getLast?_isSome]

/-- A key has as many values as there are records with it. -/
theorem length_valuesOf (key : ByteArray) (rs : List Record) :
    (valuesOf key rs).length = (rs.map Record.key).countP fun k => decide (k = key) := by
  rw [valuesOf, List.length_map, ← List.countP_eq_length_filter, List.countP_map]
  rfl

/-- The values of all keys of the map are as many as there are records. -/
theorem sum_length_valuesOf (rs : List Record) :
    ((lastValues ∅ rs).keys.map fun key => (valuesOf key rs).length).sum = rs.length := by
  have hkeys : (lastValues ∅ rs).keys.Perm (rs.map Record.key).dedup := by
    rw [List.perm_ext_iff_of_nodup Std.TreeMap.nodup_keys (List.nodup_dedup _)]
    intro key
    rw [Std.TreeMap.mem_keys, List.mem_dedup, mem_lastValues_iff, ← List.length_pos_iff,
      length_valuesOf, List.countP_pos_iff]
    simp
  have hcounts := List.sum_map_count_dedup_eq_length (rs.map Record.key)
  simp only [List.count, beq_eq_decide, List.length_map] at hcounts
  simp only [length_valuesOf]
  rw [(hkeys.map _).sum_eq, hcounts]

/-- The records that are kept with the last values of their keys. -/
theorem thins_keepLast (rs : List Record) :
    Thins List.getLast? rs
      ((keepFirst rs).map fun r => { r with value := (lastValues ∅ rs).getD r.key r.value }) := by
  refine ⟨?_, fun r hr => ?_⟩
  · rw [List.map_map]
    exact map_key_keepFirst rs
  · obtain ⟨t, ht, rfl⟩ := List.mem_map.1 hr
    have hvalues : valuesOf t.key rs ≠ [] := by
      intro hnil
      have hfirst := head?_valuesOf ht
      rw [hnil] at hfirst
      cases hfirst
    obtain ⟨value, hvalue⟩ := Option.ne_none_iff_exists'.1 (mt List.getLast?_eq_none_iff.1 hvalues)
    simp only [Std.TreeMap.getD_eq_getD_getElem?, getElem?_lastValues, hvalue, Option.some_or,
      Option.getD_some]

/-- Records that are kept with their last values make the same map as all records. -/
theorem toList_lastValues_of_thins {kept : List Record} (h : Thins List.getLast? rs kept) :
    (lastValues ∅ kept).toList = (lastValues ∅ rs).toList := by
  have hequiv : (lastValues ∅ kept).Equiv (lastValues ∅ rs) := by
    apply Std.TreeMap.Equiv.of_forall_constGet?_eq
    intro key
    rw [getElem?_lastValues, getElem?_lastValues]
    congr 1
    by_cases hkey : key ∈ kept.map Record.key
    · obtain ⟨r, hr, rfl⟩ := List.mem_map.1 hkey
      rw [valuesOf_of_nodup h.nodup hr, h.pick_eq r hr, List.getLast?_singleton]
    · have hkey' : key ∉ rs.map Record.key := by
        rwa [h.map_key_eq, List.mem_eraseDups] at hkey
      rw [valuesOf_eq_nil hkey, valuesOf_eq_nil hkey']
  exact hequiv.toList_eq

end ConstDb.Record

namespace ConstDb.Image

/-- The map of an image has the last value of each key. -/
theorem toMap_of_pairs {image : Image} {rs : List Record} (h : image.pairs = .ok rs) :
    image.toMap = .ok (Record.lastValues ∅ rs) := by
  rw [toMap, h]
  rfl

end ConstDb.Image
