import ConstDb.Proofs.Builder.Built
import ConstDb.Proofs.Draft.Audit

/-! # Whether the keys of a database differ

The index is asked whether the keys of an image differ.  A positive answer certifies the whole
image, however it came about: the records are sound, their keys differ, each lookup gives the value
of its record, and statistics are given.  Of a database that a builder committed the answer is
exact.

## Key results

- `Image.exists_stats_of_leadsTo`: an index that leads to each record first passes the audit
- `Image.hasUniqueKeys_certifies`: what the answer means
-/

namespace ConstDb

namespace Image

variable {image : Image} {s : Stored}

/-- An index that leads from the key of a record to that record first comes to it. -/
theorem LeadsTo.exists_probesTo (h : image.LeadsTo s) :
    ∃ probes, image.probesTo (s.key image.bytes) s.offset = .ok (some probes) := by
  obtain ⟨first, hfirst, hoffset⟩ := h
  obtain ⟨hit, hmem, rfl⟩ := mem_hits_of_firstHit hfirst
  exact exists_probesTo_iff.2 ⟨hit, hmem, hoffset⟩

/-- If nothing is wrong with the records and the index leads to each of them first, statistics are
given. -/
theorem exists_stats_of_leadsTo (hfailure : image.scan.failure = none)
    (h : ∀ s ∈ image.scan.items, image.LeadsTo s) : ∃ stats, image.stats = .ok stats :=
  ⟨_, stats_eq_ok_iff.2 ⟨hfailure, fun s hs => (h s hs).exists_probesTo, rfl⟩⟩

/-- If the keys of an image are said to differ, nothing is wrong with its records, their keys
differ, the first value of each key is that of its record, and statistics are given, whatever the
index holds.  Of a database that a builder committed it is said whether the keys of the accepted
records differ. -/
theorem hasUniqueKeys_certifies :
    (∀ image : Image, image.hasUniqueKeys = .ok true →
      image.records.failure = none ∧ (image.records.items.map Record.key).Nodup ∧
      (∀ r ∈ image.records.items, image.first r.key = .ok (some r.value)) ∧
      ∃ stats, image.stats = .ok stats) ∧
    ∀ rs bytes, Builder.Built rs bytes →
      ∃ image, Image.ofBytes bytes = .ok image ∧
        image.hasUniqueKeys = .ok (decide (rs.map Record.key).Nodup) := by
  refine ⟨fun image h => ?_, fun rs bytes h => ?_⟩
  · obtain ⟨hfailure, hleads⟩ := hasUniqueKeys_eq_true.1 h
    refine ⟨?_, nodup_keys_of_leadsTo hleads, fun r hr => first_of_leadsTo hleads hr,
      exists_stats_of_leadsTo hfailure hleads⟩
    rw [records, Walk.failure_map, hfailure]
  · obtain ⟨hrs, rfl⟩ := h.eq_image
    obtain ⟨image, himage, hbytes⟩ := hrs.ofBytes_image
    exact ⟨image, himage, hrs.hasUniqueKeys_image hbytes⟩

/-- Of the three records of the sample, the first and the last have one key; the first two records
alone have different keys. -/
theorem hasUniqueKeys_certifies_sample :
    (∃ image bytes, Builder.Built (Builder.Sample.records.take 2) bytes ∧
      Image.ofBytes bytes = .ok image ∧ image.hasUniqueKeys = .ok true ∧
      (image.records.items.map Record.key).Nodup ∧ ∃ stats, image.stats = .ok stats) ∧
    ∃ image bytes, Builder.Built Builder.Sample.records bytes ∧ Image.ofBytes bytes = .ok image ∧
      image.hasUniqueKeys = .ok false := by
  constructor
  · -- The sample with one record less.
    let filled : Builder :=
      { Builder.Sample.builder with draft := .ofRecords (Builder.Sample.records.take 2) }
    have hadd : Builder.Sample.builder.addAll (Builder.Sample.records.take 2) = (.ok (), filled) :=
      rfl
    obtain ⟨b, space, hfinish⟩ :
        ∃ b space, filled.finish Builder.Sample.opened = (.ok (), b, space) := ⟨_, _, rfl⟩
    have hbuilt := Builder.built_of_addAll Builder.Sample.open_eq hadd hfinish
    obtain ⟨image, himage, hunique⟩ := hasUniqueKeys_certifies.2 _ _ hbuilt
    rw [show decide ((Builder.Sample.records.take 2).map Record.key).Nodup = true by decide]
      at hunique
    obtain ⟨-, hnodup, -, hstats⟩ := hasUniqueKeys_certifies.1 image hunique
    exact ⟨image, _, hbuilt, himage, hunique, hnodup, hstats⟩
  · obtain ⟨image, himage, hunique⟩ := hasUniqueKeys_certifies.2 _ _ Builder.Sample.built
    rw [show decide (Builder.Sample.records.map Record.key).Nodup = false by decide] at hunique
    exact ⟨image, _, Builder.Sample.built, himage, hunique⟩

end Image

end ConstDb
