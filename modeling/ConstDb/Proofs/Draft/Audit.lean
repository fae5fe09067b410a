import ConstDb.Proofs.Draft.Scan
import ConstDb.Proofs.Image.Histogram
import ConstDb.Proofs.Image.Unique
import Mathlib.Data.List.Nodup

/-! # The audits of a draft

The file of a draft passes every audit: the scan meets as many records as the tables have room for,
and the index leads from each record back to it.

## Key results

- `Draft.Storable.recordCount_image`: the header tells the number of records
- `Draft.Storable.validate_image`, `Draft.Storable.stats_image`: both audits succeed
- `Draft.Storable.hasUniqueKeys_image`: the index tells whether the keys differ
-/

namespace ConstDb

namespace Draft

/-- The record region ends at the next multiple of 16 behind the records. -/
theorem recordEnd_ofRecords (rs : List Record) :
    (ofRecords rs).recordEnd =
      (Layout.headerSize + (rs.map fun r => 8 + r.key.size + r.value.size).sum + 15) / 16 * 16 := by
  have hsize : (rs.map fun r => 8 + r.key.size + r.value.size).sum = Placed.size rs := by
    simp only [Placed.size, Record.size_encode]
    rfl
  rw [hsize, recordEnd, position_ofRecords, Layout.paddingFor, Layout.alignment]
  omega

/-- The slots of a file below 4 GiB are narrow. -/
theorem width_of_size_lt {rs : List Record} (hsmall : (ofRecords rs).image.size < 2 ^ 32) :
    (ofRecords rs).width = .narrow := by
  have hsize := (ofRecords rs).size_image
  have hmod := (ofRecords rs).recordEnd_mod
  -- The last multiple of 16 below 4 GiB is in reach of narrow slots.
  have hlt : (ofRecords rs).recordEnd < SlotWidth.narrowLimit := by
    simp only [Layout.alignment, SlotWidth.narrowLimit] at *
    omega
  rw [width, SlotWidth.forRecordEnd, if_pos hlt]

namespace Storable

variable {rs : List Record} {image : Image}

/-- A bucket has two slots for each record whose hash belongs to it. -/
theorem slots_image (h : Storable rs) (hbytes : image.bytes = (ofRecords rs).image)
    (i : Fin 256) :
    (image.header.bucket i).slots.toNat =
      2 * rs.countP fun r => decide (Hash.bucketOf (Hash.ofBytes r.key) = i) := by
  rw [h.addressable.slots_eq hbytes, SlotTable.size_ofEntries, entriesOf_ofRecords,
    List.length_map, ← List.countP_eq_length_filter]
  conv_rhs => rw [← Placed.map_record_list Layout.headerSize rs, List.countP_map]
  rfl

/-- The header of a draft's file tells how many records there are. -/
theorem recordCount_image (h : Storable rs) (hbytes : image.bytes = (ofRecords rs).image) :
    image.recordCount = rs.length := by
  have hslots (i : Fin 256) : (image.header.bucket i).slots.toNat =
      (SlotTable.ofEntries ((ofRecords rs).entriesOf i)).size := h.addressable.slots_eq hbytes i
  have htotal : image.header.slotTotal = ((ofRecords rs).tables.map Array.size).sum := by
    rw [Header.slotTotal_eq_sum, tables, List.map_map]
    congr 1
    apply List.ext_getElem
    · simp
    · intro i h₁ h₂
      simp only [List.length_map, List.length_finRange] at h₂
      have := hslots ⟨i, h₂⟩
      simpa [Header.bucket] using this
  rw [Image.recordCount, Header.recordCount, htotal, sum_size_tables, size_ofRecords]
  omega

/-- The file of a draft is valid. -/
theorem validate_image (h : Storable rs) (hbytes : image.bytes = (ofRecords rs).image) :
    image.validate = .ok () := by
  have hlength : ((placed rs).map Placed.stored).length = rs.length := by simp
  have hscan : image.scan.toExcept = .ok ((placed rs).map Placed.stored) := by
    rw [h.scan_image hbytes]
    rfl
  rw [Image.validate, hscan]
  simp only [hlength, h.recordCount_image hbytes]
  rw [if_neg (by simp)]

/-- The index leads from the key of a record to that record. -/
theorem probesTo_image (h : Storable rs) (hbytes : image.bytes = (ofRecords rs).image)
    {p : Placed} (hp : p ∈ placed rs) :
    ∃ n, image.probesTo p.record.key p.offset = .ok (some n) := by
  have hstored := h.map_stored_hits hbytes p.record.key
  have hmem : p.stored ∈ ((image.hits p.record.key).map Hit.stored).items := by
    rw [hstored]
    exact List.mem_map_of_mem (List.mem_filter.2 ⟨hp, by simp⟩)
  obtain ⟨hit, hhit, heq⟩ := List.mem_map.1 hmem
  exact Image.exists_probesTo_iff.2 ⟨hit, hhit, by rw [heq]; rfl⟩

/-- The statistics of a draft's file count each record once. -/
theorem stats_image (h : Storable rs) (hbytes : image.bytes = (ofRecords rs).image) :
    ∃ stats, image.stats = .ok stats ∧ stats.records = rs.length ∧ stats.total = rs.length := by
  have hscan := h.scan_image hbytes
  have hlength : image.scan.items.length = rs.length := by simp [hscan]
  have hreach : ∀ s ∈ image.scan.items,
      ∃ n, image.probesTo (s.key image.bytes) s.offset = .ok (some n) := by
    rw [hscan]
    intro s hs
    obtain ⟨p, hp, rfl⟩ := List.mem_map.1 hs
    rw [Placed.stored, Stored.key_of_hasAt (hasAt_of_mem_placed hbytes hp)]
    exact h.probesTo_image hbytes hp
  refine ⟨_, Image.stats_eq_ok_iff.2 ⟨by rw [hscan], hreach, rfl⟩, ?_, ?_⟩
  · rw [Stats.records_addAll, hlength]
    exact Nat.zero_add _
  · rw [Stats.total_addAll, hlength, Stats.total_empty, Nat.zero_add]

/-- The first record that the index leads to for a key is the first one that has it. -/
theorem firstHit_image (h : Storable rs) (hbytes : image.bytes = (ofRecords rs).image)
    (key : ByteArray) :
    image.firstHit key =
      .ok (((placed rs).filter fun p => decide (p.record.key = key)).map Placed.stored)[0]? := by
  rw [Image.firstHit_eq, ← Walk.get?_map, h.map_stored_hits hbytes, Walk.get?]
  cases (((placed rs).filter fun p => decide (p.record.key = key)).map Placed.stored)[0]? <;> rfl

/-- The index leads from a key that no other record has to its record. -/
theorem leadsTo_image (h : Storable rs) (hbytes : image.bytes = (ofRecords rs).image)
    (hnodup : (rs.map Record.key).Nodup) {p : Placed} (hp : p ∈ placed rs) :
    image.LeadsTo p.stored := by
  have hkeys : ((placed rs).map fun p => p.record.key).Nodup := by
    rw [← Placed.map_record_list Layout.headerSize rs, List.map_map] at hnodup
    exact hnodup
  have hmem : p ∈ (placed rs).filter fun q => decide (q.record.key = p.record.key) :=
    List.mem_filter.2 ⟨hp, by simp⟩
  obtain ⟨q, more, hfilter⟩ := List.exists_cons_of_ne_nil (List.ne_nil_of_mem hmem)
  have hq : q ∈ (placed rs).filter fun q => decide (q.record.key = p.record.key) :=
    hfilter ▸ List.mem_cons_self
  obtain rfl : q = p :=
    List.inj_on_of_nodup_map hkeys (List.mem_filter.1 hq).1 hp (by simpa using
      (List.mem_filter.1 hq).2)
  have hfirst : image.firstHit q.record.key = .ok (some q.stored) := by
    rw [h.firstHit_image hbytes, hfilter]
    rfl
  refine ⟨q.stored, ?_, rfl⟩
  rw [Placed.stored, Stored.key_of_hasAt (hasAt_of_mem_placed hbytes hp)]
  exact hfirst

/-- The index of a draft's file tells whether the keys of the records differ. -/
theorem hasUniqueKeys_image (h : Storable rs) (hbytes : image.bytes = (ofRecords rs).image) :
    image.hasUniqueKeys = .ok (decide (rs.map Record.key).Nodup) := by
  have hscan := h.scan_image hbytes
  obtain ⟨passed, hpassed⟩ : ∃ passed, image.hasUniqueKeys = .ok passed :=
    Walk.exists_allM_eq_ok (by rw [hscan]) fun s _ =>
      ⟨_, by rw [h.firstHit_image hbytes, Except.map]⟩
  have hiff : image.hasUniqueKeys = .ok true ↔ (rs.map Record.key).Nodup := by
    rw [Image.hasUniqueKeys_eq_true]
    constructor
    · rintro ⟨-, hleads⟩
      have hnodup := Image.nodup_keys_of_leadsTo hleads
      rwa [h.records_image hbytes] at hnodup
    · intro hnodup
      rw [hscan]
      refine ⟨rfl, fun s hs => ?_⟩
      obtain ⟨p, hp, rfl⟩ := List.mem_map.1 hs
      exact h.leadsTo_image hbytes hnodup hp
  rw [hpassed, Except.ok.injEq] at hiff ⊢
  rw [Bool.eq_iff_iff, hiff, decide_eq_true_iff]

end Storable

end Draft

end ConstDb
