import ConstDb.Proofs.Builder.Commit
import ConstDb.Proofs.Draft.Audit

/-! # Scanning what was added

The file of a finished database is accepted, its header tells what was added, and a reader that
scans it finds all records in the order in which they were added, and nothing behind them.  Both
audits that go through all records succeed.

## Key results

- `Builder.header_of_finish`: the header of a finished database
- `Builder.scan_of_finish`: header, scan and audits of a finished database below 4 GiB
-/

namespace ConstDb

/-- A header that tells what a list of records takes in a file. -/
structure Header.Describes (h : Header) (rs : List Record) : Prop where
  /-- The record region ends at the next multiple of 16 behind the records. -/
  recordEnd_eq :
    h.recordEnd = (4096 + (rs.map fun r => 8 + r.key.size + r.value.size).sum + 15) / 16 * 16
  /-- A bucket has two slots for each record whose hash belongs to it. -/
  slots_eq : ∀ i, (h.bucket i).slots.toNat =
    2 * rs.countP fun r => decide (Hash.bucketOf (Hash.ofBytes r.key) = i)
  recordCount_eq : h.recordCount = rs.length

namespace Builder

variable {s₀ s₁ s₂ s₃ : FileSpace} {path : Path} {mode : Option Nat} {b b₁ b₂ : Builder}
  {rs : List Record}

/-- The file that a build left is accepted, and its header tells what was added. -/
theorem header_of_finish (hopen : Builder.open s₀ path mode = .ok (b, s₁))
    (hadd : b.addAll rs = (.ok (), b₁)) (hfinish : b₁.finish s₂ = (.ok (), b₂, s₃)) :
    ∃ f h, s₃.stat path = .ok (.file f) ∧ f.bytes = b₁.draft.image ∧
      Header.parse f.bytes = .ok h ∧ h.width = b₁.draft.width ∧ h.Describes rs := by
  obtain ⟨hstorable, hdraft, time, hstat⟩ := file_of_finish hopen hadd hfinish
  have haddressable := hstorable.addressable
  have hparse := haddressable.parse_image
  let image : Image := ⟨(Draft.ofRecords rs).image, _, hparse⟩
  have hbytes : image.bytes = (Draft.ofRecords rs).image := rfl
  refine ⟨_, image.header, hstat, rfl, ?_, ?_, ?_⟩
  · rw [hdraft]
    exact hparse
  · rw [hdraft]
  · exact ⟨(haddressable.recordEnd_eq hbytes).trans (Draft.recordEnd_ofRecords rs),
      hstorable.slots_image hbytes, hstorable.recordCount_image hbytes⟩

/-- A database below 4 GiB that was built from a list of records is accepted with a header that
tells what was added, can be opened if its owner may read it, and gives each reader that scans it
these records and nothing more. -/
theorem scan_of_finish (hopen : Builder.open s₀ path mode = .ok (b, s₁))
    (hadd : b.addAll rs = (.ok (), b₁)) (hfinish : b₁.finish s₂ = (.ok (), b₂, s₃))
    (hsmall : b₁.draft.image.size < 2 ^ 32) :
    (∃ f h, s₃.stat path = .ok (.file f) ∧ f.bytes = b₁.draft.image ∧
      Header.parse f.bytes = .ok h ∧ h.width = .narrow ∧ h.Describes rs) ∧
    (b.mode.testBit 8 → ∃ r, Reader.open s₃ path = .ok r) ∧
      ∀ r, Reader.open s₃ path = .ok r →
        r.ask Image.pairs = .ok rs ∧ r.ask Image.keys = .ok (rs.map Record.key) ∧
          r.ask Image.values = .ok (rs.map Record.value) ∧
          (∀ n, r.ask (fun image => .ok (image.records.nth n)) = .ok (rs[n]?.map .ok)) ∧
          r.ask Image.validate = .ok () ∧
          ∃ stats, r.ask Image.stats = .ok stats ∧ stats.records = rs.length ∧
            stats.distances.toList.sum = rs.length := by
  obtain ⟨hstorable, hdraft, -⟩ := file_of_finish hopen hadd hfinish
  refine ⟨?_, exists_reader_of_finish hopen hadd hfinish, ?_⟩
  · obtain ⟨f, h, hstat, hbytes, hparse, hwidth, hrest⟩ := header_of_finish hopen hadd hfinish
    rw [hdraft] at hsmall hwidth
    rw [Draft.width_of_size_lt hsmall] at hwidth
    exact ⟨f, h, hstat, hbytes, hparse, hwidth, hrest⟩
  · intro r hr
    obtain ⟨mapping, hmapping, hbytes⟩ := image_of_finish hopen hadd hfinish hr
    have hrecords := hstorable.records_image hbytes
    have hpairs : mapping.image.pairs = .ok rs := by
      rw [Image.pairs, hrecords]
      rfl
    obtain ⟨stats, hstats, hcount, htotal⟩ := hstorable.stats_image hbytes
    simp only [Reader.ask_of_mapping hmapping]
    refine ⟨hpairs, ?_, ?_, ?_, hstorable.validate_image hbytes, stats, hstats, hcount, htotal⟩
    · rw [Image.keys, hpairs]
      rfl
    · rw [Image.values, hpairs]
      rfl
    · intro n
      rw [hrecords, Walk.nth]
      by_cases hn : n < rs.length
      · simp [hn]
      · simp [hn]

/-- A scan ends behind a value of all ones too. -/
theorem scan_of_finish_ones :
    Sample.filled.draft.image.size < 2 ^ 32 ∧
      ∃ r, Reader.open Sample.finished ⟨[0x61]⟩ = .ok r ∧ r.ask Image.pairs = .ok Sample.records ∧
        r.ask (fun image => .ok (image.records.nth 3)) = .ok none := by
  have hsmall : Sample.filled.draft.image.size < 2 ^ 32 := by
    rw [Draft.size_image, Draft.tablesSize_eq]
    decide
  obtain ⟨-, hreadable, hall⟩ :=
    scan_of_finish Sample.open_eq Sample.addAll_eq Sample.finish_eq hsmall
  obtain ⟨r, hr⟩ := hreadable (by decide)
  obtain ⟨hpairs, -, -, hcalls, -⟩ := hall r hr
  exact ⟨hsmall, r, hr, hpairs, hcalls 3⟩

end Builder

end ConstDb
