import ConstDb.Proofs.Builder.Commit
import ConstDb.Proofs.Draft.Index
import ConstDb.Proofs.Image.Queries

/-! # Looking up what was added

A reader of a finished database answers every question about one key from the records that were
added with it, in the order in which they were added: no key sees a value of another one, and no
occurrence is lost or seen twice.

## Key results

- `Builder.lookup_of_finish`: all answers for all keys
-/

namespace ConstDb

namespace Builder

/-- A database that was built from a list of records can be opened if its owner may read it, and
each reader of it finds for every key the values that were added with the key, in that order. -/
theorem lookup_of_finish {s₀ s₁ s₂ s₃ : FileSpace} {path : Path} {mode : Option Nat}
    {b b₁ b₂ : Builder} {rs : List Record} (hopen : Builder.open s₀ path mode = .ok (b, s₁))
    (hadd : b.addAll rs = (.ok (), b₁)) (hfinish : b₁.finish s₂ = (.ok (), b₂, s₃)) :
    (b.mode.testBit 8 → ∃ r, Reader.open s₃ path = .ok r) ∧
      ∀ r, Reader.open s₃ path = .ok r → ∀ key,
        r.ask (·.findAll key) = .ok (Record.valuesOf key rs) ∧
          (∀ n, r.ask (·.nth key n) = .ok (Record.valuesOf key rs)[n]?) ∧
          r.ask (·.count key) = .ok (Record.valuesOf key rs).length ∧
          r.ask (·.containsKey key) = .ok (decide (Record.valuesOf key rs ≠ [])) := by
  have hstorable := (file_of_finish hopen hadd hfinish).1
  refine ⟨exists_reader_of_finish hopen hadd hfinish, ?_⟩
  intro r hr key
  obtain ⟨mapping, hmapping, hbytes⟩ := image_of_finish hopen hadd hfinish hr
  have hoccurrences := hstorable.occurrences_image hbytes key
  simp only [Reader.ask_of_mapping hmapping]
  exact ⟨Image.findAll_of_occurrences hoccurrences, Image.nth_eq_getElem? hoccurrences,
    Image.count_of_occurrences hoccurrences, Image.containsKey_eq hoccurrences⟩

/-- A key that was added twice, with another one in between. -/
theorem lookup_of_finish_twice :
    ∃ s₁ b₁ b₂ s₃ r, Builder.open (.empty 15) ⟨[0x61]⟩ none = .ok (Sample.builder, s₁) ∧
      Sample.builder.addAll Sample.records = (.ok (), b₁) ∧ b₁.finish s₁ = (.ok (), b₂, s₃) ∧
      Reader.open s₃ ⟨[0x61]⟩ = .ok r ∧
      r.ask (·.findAll ⟨#[0x6b]⟩) = .ok [⟨#[1]⟩, ⟨#[3]⟩] ∧
      r.ask (·.nth ⟨#[0x6b]⟩ 1) = .ok (some ⟨#[3]⟩) ∧
      r.ask (·.containsKey ⟨#[0x6c]⟩) = .ok false := by
  obtain ⟨hreadable, hall⟩ :=
    lookup_of_finish Sample.open_eq Sample.addAll_eq Sample.finish_eq
  obtain ⟨r, hr⟩ := hreadable (by decide)
  exact ⟨_, _, _, _, r, Sample.open_eq, Sample.addAll_eq, Sample.finish_eq, hr, (hall r hr _).1,
    (hall r hr _).2.1 1, (hall r hr _).2.2.2⟩

end Builder

end ConstDb
