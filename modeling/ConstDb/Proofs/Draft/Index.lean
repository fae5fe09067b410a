import ConstDb.Proofs.Draft.File
import ConstDb.Proofs.Draft.Placed
import ConstDb.Proofs.Probe.Route
import ConstDb.Proofs.SlotTable.Probing

/-! # The index of a draft

A search in the file of a draft goes through the slots of a table in the order in which linear
probing does (`Draft.slotsFor_image`).  It therefore meets the entries of its hash in the order in
which the records were added, and reading the records sorts out those with another key.

## Key results

- `Draft.map_stored_hits`: the hits of a key are the records that have it
- `Draft.occurrences_image`: the occurrences of a key are the values of those records, in order
-/

namespace ConstDb

/-- The values of the records that have a key, in order. -/
def Record.valuesOf (key : ByteArray) (rs : List Record) : List ByteArray :=
  (rs.filter fun r => decide (r.key = key)).map Record.value

namespace Draft

/-- A list without the mapped items from the first on for which a property fails. -/
private theorem takeWhile_map_of_eq {α β : Type} {f : α → β} {p : β → Bool} {q : α → Bool}
    {l : List α} (h : ∀ a ∈ l, p (f a) = q a) :
    (l.map f).takeWhile p = (l.takeWhile q).map f := by
  induction l with
  | nil => rfl
  | cons a l ih =>
    have htail := ih fun b hb => h b (List.mem_cons_of_mem _ hb)
    rw [List.map_cons, List.takeWhile_cons, List.takeWhile_cons, h a List.mem_cons_self, htail]
    split <;> rfl

/-- Two filters, one after the other, of which the second implies the first. -/
private theorem filterMap_filter_of_imp {α β : Type} {p q : α → Prop} [DecidablePred p]
    [DecidablePred q] {f : α → β} {l : List α} (h : ∀ a, q a → p a) :
    (l.filter fun a => decide (p a)).filterMap (fun a => if q a then some (f a) else none) =
      (l.filter fun a => decide (q a)).map f := by
  induction l with
  | nil => rfl
  | cons a l ih =>
    by_cases hq : q a
    · simp [hq, h a hq, ih]
    · by_cases hp : p a <;> simp [hp, hq, ih]

/-! ### Slots -/

namespace Addressable

variable {d : Draft} {image : Image}

/-- A search goes through the slots of the table in the order of linear probing. -/
theorem slotsFor_image (h : d.Addressable) (hbytes : image.bytes = d.image) (key : ByteArray) :
    image.slotsFor key =
      ((SlotTable.ofEntries (d.entriesOf (Hash.bucketOf (Hash.ofBytes key)))).route
        (Hash.ofBytes key)).map (Slot.kept d.width) := by
  -- No search starts in a table without slots, and any other one goes once around the table.
  have hslots := h.slots_eq hbytes (Hash.bucketOf (Hash.ofBytes key))
  unfold Image.slotsFor
  cases hstart : Probe.start? image key with
  | none =>
    have hzero : (image.header.bucket (Hash.bucketOf (Hash.ofBytes key))).slots = 0 := by
      by_contra hne
      simp [Probe.start?, hne] at hstart
    rw [hzero] at hslots
    have hempty : (SlotTable.ofEntries
        (d.entriesOf (Hash.bucketOf (Hash.ofBytes key)))).toList = [] :=
      List.eq_nil_of_length_eq_zero (by rw [Array.length_toList, ← hslots]; rfl)
    rw [SlotTable.route, hempty]
    rfl
  | some p =>
    obtain ⟨hhash, hbucket, -, hslot, hprobed⟩ := Probe.start?_eq_some_iff.1 hstart
    rw [hhash] at hbucket hslot
    have hcount : p.slotCount = (SlotTable.ofEntries
        (d.entriesOf (Hash.bucketOf (Hash.ofBytes key)))).size := by
      rw [Probe.slotCount, hbucket, hslots]
    apply List.ext_getElem
    · simp [hprobed, hcount]
    · intro k h₁ h₂
      simp only [List.length_map, Probe.length_route, hprobed, Nat.sub_zero] at h₁
      have hlt := Nat.mod_lt (k + Hash.startSlot (Hash.ofBytes key) p.slotCount)
        (show 0 < p.slotCount by omega)
      simp only [List.getElem_map, Probe.route, List.getElem_range, SlotTable.route,
        List.getElem_rotate, Array.length_toList, Array.getElem_toList, hslot, hbucket, ← hcount]
      rw [h.slotAt_image hbytes _ (by rw [← hcount, Nat.add_comm]; exact hlt)]
      simp only [Nat.add_comm]

end Addressable

/-! ### Records -/

/-- In the file of a draft each record is at its offset. -/
theorem hasAt_of_mem_placed {rs : List Record} {data : ByteArray}
    (hbytes : data = (ofRecords rs).image) {p : Placed} (hp : p ∈ placed rs) :
    data.HasAt p.offset p.record.encode := by
  obtain ⟨hbody, -⟩ := (ofRecords rs).image_hasAt_region
  rw [body_ofRecords, ← hbytes] at hbody
  exact Placed.hasAt_of_mem hbody hp

namespace Storable

variable {rs : List Record} {image : Image}

/-- Records that can be stored leave all positions and numbers small enough. -/
theorem addressable (h : Storable rs) : (ofRecords rs).Addressable where
  end_lt := by
    have hend := h.recordEnd_lt
    have hlength := h.length_le
    have hwidth : (ofRecords rs).width.bytes ≤ 16 := by
      cases (ofRecords rs).width <;> decide
    have hmul := Nat.mul_le_mul_left (2 * (ofRecords rs).size) hwidth
    rw [tablesSize_eq]
    simp only [Layout.maxRecords, Layout.alignment, size_ofRecords] at *
    omega
  slots_lt t ht := by
    have hlength := h.length_le
    obtain ⟨i, -, rfl⟩ := List.mem_map.1 ht
    have hle : ((ofRecords rs).entriesOf i).length ≤ (ofRecords rs).entries.toList.length := by
      rw [entriesOf_eq_filter]
      exact List.length_filter_le ..
    rw [entries_ofRecords, List.length_map, length_placed] at hle
    simp only [Layout.maxRecords, SlotTable.size_ofEntries] at *
    omega

/-- The file of such records is accepted. -/
theorem ofBytes_image (h : Storable rs) :
    ∃ image, Image.ofBytes (ofRecords rs).image = .ok image ∧
      image.bytes = (ofRecords rs).image :=
  ⟨_, Image.ofBytes_of_parse h.addressable.parse_image, rfl⟩

/-- The offset of a record fits into the slots. -/
theorem offset_entry (h : Storable rs) {p : Placed} (hp : p ∈ placed rs) :
    p.entry.offset.toNat = p.offset ∧ p.offset ≠ 0 ∧
      ((ofRecords rs).width = .narrow → p.entry.offset.toNat < 2 ^ 32) := by
  obtain ⟨hlow, hhigh⟩ := bounds_of_mem_placed hp
  have hlt := h.position_lt
  have hle : p.offset ≤ (ofRecords rs).position := by
    rw [Placed.next] at hhigh
    omega
  have hoffset : p.entry.offset.toNat = p.offset :=
    UInt64.toNat_ofNat_of_lt' (show p.offset < 2 ^ 64 by omega)
  refine ⟨hoffset, by simp only [Layout.headerSize] at hlow; omega, ?_⟩
  intro hwidth
  have hnarrow : (ofRecords rs).recordEnd < SlotWidth.narrowLimit := by
    by_contra hge
    simp [width, SlotWidth.forRecordEnd, hge] at hwidth
  simp only [SlotWidth.narrowLimit, recordEnd] at hnarrow
  omega

/-- The slot of a record carries its key. -/
private theorem carries_slot {p : Placed} (hkey : p.record.key.size < 2 ^ 32) (width : SlotWidth) :
    (p.entry.slot.kept width).Carries p.record.key where
  hash_eq := Slot.hash_kept ..
  keySize_eq size hsize := by
    cases width with
    | narrow => cases hsize
    | wide =>
      cases hsize
      exact UInt32.toNat_ofNat_of_lt' hkey

/-- The entry of a record leads to the record if the key is right, and nowhere else. -/
theorem examine_entry (h : Storable rs) (hbytes : image.bytes = (ofRecords rs).image)
    {key : ByteArray} {p : Placed} (hp : p ∈ placed rs) :
    Probe.examine image (Hash.ofBytes key) key (p.entry.slot.kept (ofRecords rs).width) =
      .ok (if p.record.key = key then some p.stored else none) := by
  obtain ⟨hoffset, -, hkept⟩ := h.offset_entry hp
  have hslotoffset : (p.entry.slot.kept (ofRecords rs).width).offset.toNat = p.offset := by
    rw [Slot.offset_kept hkept]
    exact hoffset
  have hfits : Fits p.record := by
    apply h.fits
    rw [← Placed.map_record_list Layout.headerSize rs]
    exact List.mem_map_of_mem hp
  -- The record lies in the region, so the slot decides whether it is looked at, and its key whether
  -- it is found.
  obtain ⟨hkey, hvalue⟩ := hfits.sizes_lt
  by_cases hcarries : (p.entry.slot.kept (ofRecords rs).width).Carries key
  · have hat := hasAt_of_mem_placed hbytes hp
    have hstop : p.stored.next ≤ image.recordEnd := by
      have hbound := (bounds_of_mem_placed hp).2
      rw [h.addressable.recordEnd_eq hbytes, Placed.stored, Record.next_storedAt, recordEnd]
      rw [Placed.next] at hbound
      omega
    have hcheck : (p.record.storedAt p.offset).check image.bytes image.recordEnd = .ok () :=
      Stored.check_eq_ok.2 (Nat.le_min.2 ⟨hstop, Nat.le_trans hstop image.recordEnd_le_size⟩)
    rw [Probe.examine_of_carries hcarries, hslotoffset,
      Stored.announced_of_hasAt hat hkey hvalue hstop]
    simp only
    by_cases hsize : (p.record.storedAt p.offset).keySize = key.size
    · rw [if_neg (by simpa using hsize), hcheck, Stored.key_of_hasAt hat]
      rfl
    · have hne : p.record.key ≠ key := by
        rintro rfl
        exact hsize rfl
      rw [if_pos hsize, if_neg hne]
  · -- A slot that does not carry the key is not that of a record with the key.
    have hne : p.record.key ≠ key := by
      rintro rfl
      exact hcarries (carries_slot hkey _)
    rw [Probe.examine_of_not_carries hcarries, if_neg hne]

/-- The slots of its hash that a search for a key meets are those of the records whose key has that
hash, in the order in which they were added. -/
theorem filter_slotsFor (h : Storable rs) (hbytes : image.bytes = (ofRecords rs).image)
    (key : ByteArray) :
    ((image.slotsFor key).takeWhile Slot.isTaken).filter
        (fun s => decide (s.hash = Hash.ofBytes key)) =
      ((placed rs).filter fun p => decide (p.entry.hash = Hash.ofBytes key)).map
        fun p => p.entry.slot.kept (ofRecords rs).width := by
  have hentries := entriesOf_ofRecords rs (Hash.bucketOf (Hash.ofBytes key))
  have hmem : ∀ e ∈ (ofRecords rs).entriesOf (Hash.bucketOf (Hash.ofBytes key)),
      e.offset ≠ 0 ∧ ((ofRecords rs).width = .narrow → e.offset.toNat < 2 ^ 32) := by
    intro e he
    rw [hentries] at he
    obtain ⟨p, hp, rfl⟩ := List.mem_map.1 he
    obtain ⟨hoffset, hne, hkept⟩ := h.offset_entry (List.mem_of_mem_filter hp)
    refine ⟨fun hzero => hne ?_, hkept⟩
    rw [← hoffset, hzero]
    rfl
  have hholds := SlotTable.ofEntries_holds fun e he => (hmem e he).1
  have hkept : ∀ s ∈ (SlotTable.ofEntries ((ofRecords rs).entriesOf
      (Hash.bucketOf (Hash.ofBytes key)))).route (Hash.ofBytes key),
      (s.kept (ofRecords rs).width).isTaken = s.isTaken := by
    intro s hs
    apply Slot.isTaken_kept
    rcases hholds.eq_vacant_or_mem (SlotTable.mem_route.1 hs) with rfl | ⟨e, he, rfl⟩
    · intro _
      decide
    · exact (hmem e he).2
  rw [h.addressable.slotsFor_image hbytes, takeWhile_map_of_eq hkept, List.filter_map]
  have hfilter := hholds.filter_takeWhile (Hash.ofBytes key)
  simp only [Function.comp_def, Slot.hash_kept]
  rw [hfilter, hentries, List.filter_map, List.filter_filter, List.map_map, List.map_map]
  congr 1
  apply List.filter_congr
  intro p _
  -- A record with the right hash belongs to the bucket of the hash.
  by_cases hp : p.entry.hash = Hash.ofBytes key
  · simp [hp, IndexEntry.bucket]
  · simp [hp]

/-- The hits of a key are the records that have it, in the order in which they were added. -/
theorem map_stored_hits (h : Storable rs) (hbytes : image.bytes = (ofRecords rs).image)
    (key : ByteArray) :
    (image.hits key).map Hit.stored =
      ⟨((placed rs).filter fun p => decide (p.record.key = key)).map Placed.stored, none⟩ := by
  have hslots := h.filter_slotsFor hbytes key
  -- Only slots of the hash are examined, and each of them is the entry of some record.
  have hexamine : ∀ s ∈ (image.slotsFor key).takeWhile Slot.isTaken, s.hash = Hash.ofBytes key →
      Probe.examine image (Hash.ofBytes key) key s =
        .ok ((Probe.examine image (Hash.ofBytes key) key s).toOption.getD none) := by
    intro s hs hhash
    have hmem : s ∈ ((image.slotsFor key).takeWhile Slot.isTaken).filter
        fun s => decide (s.hash = Hash.ofBytes key) :=
      List.mem_filter.2 ⟨hs, by simpa using hhash⟩
    rw [hslots] at hmem
    obtain ⟨p, hp, rfl⟩ := List.mem_map.1 hmem
    have hp := List.mem_of_mem_filter hp
    rw [h.examine_entry hbytes hp]
    rfl
  rw [Image.hits_eq, Probe.gather_map_stored hexamine, hslots, List.filterMap_map]
  congr 1
  -- A record with the key has its hash, so picking by the hash first loses none of them.
  calc
    _ = ((placed rs).filter fun p => decide (p.entry.hash = Hash.ofBytes key)).filterMap
        fun p => if p.record.key = key then some p.stored else none := by
      apply List.filterMap_congr
      intro p hp
      rw [Function.comp_apply, h.examine_entry hbytes (List.mem_of_mem_filter hp)]
      rfl
    _ = _ := by
      apply filterMap_filter_of_imp
      rintro p hp
      simp only [Placed.entry, hp]

/-- The occurrences of a key are the values of the records that have it, in the order in which they
were added. -/
theorem occurrences_image (h : Storable rs) (hbytes : image.bytes = (ofRecords rs).image)
    (key : ByteArray) :
    image.occurrences key = ⟨Record.valuesOf key rs, none⟩ := by
  have hstored := h.map_stored_hits hbytes key
  have hvalue : ∀ p ∈ placed rs, p.stored.value image.bytes = p.record.value := fun p hp =>
    Stored.value_of_hasAt (hasAt_of_mem_placed hbytes hp)
  calc image.occurrences key
      = ((image.hits key).map Hit.stored).map fun s => s.value image.bytes := by
        rw [Image.occurrences, Walk.map, Walk.map, Walk.map, List.map_map]
        rfl
    _ = ⟨((placed rs).filter fun p => decide (p.record.key = key)).map
          fun p => p.record.value, none⟩ := by
        rw [hstored, Walk.map, List.map_map]
        congr 1
        apply List.map_congr_left
        intro p hp
        exact hvalue p (List.mem_of_mem_filter hp)
    _ = ⟨Record.valuesOf key rs, none⟩ := by
        have hrs := Placed.map_record_list Layout.headerSize rs
        rw [Record.valuesOf, ← hrs, List.filter_map, List.map_map, hrs]
        rfl

end Storable

end Draft

end ConstDb
