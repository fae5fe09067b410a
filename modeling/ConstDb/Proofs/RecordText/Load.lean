import ConstDb.Proofs.Builder.Life
import ConstDb.Proofs.RecordText.Grammar

/-! # Loading any text

What becomes of a text that is loaded into a new builder is said by the grammar alone.  A text that
is short enough has no record that the builder refuses, so it adds all records that are read: those
of the text if it is record text, and else those of the longest sequence of lines at its front.

## Key results

- `RecordText.IsLines.storable`: the records of a short text are within the limits
- `Builder.load_of_open`: what a new builder makes of a text
-/

namespace ConstDb

/-- The bytes of the text that an input delivers. -/
def Input.text (input : Input) : List UInt8 := input.source.bytes.data.toList

namespace RecordText

/-- A line is longer than the fields in it. -/
theorem IsLine.sizes_le {r : Record} {line : List UInt8} (h : IsLine r line) :
    r.key.size + r.value.size + 8 ≤ line.length := by
  obtain ⟨hkey, hvalue⟩ := h
  have hk := List.length_pos_iff.2 hkey.ne_nil
  have hv := List.length_pos_iff.2 hvalue.ne_nil
  have hsize (bytes : ByteArray) : bytes.data.toList.length = bytes.size := rfl
  simp only [List.length_cons, List.length_append, hsize, List.length_nil]
  omega

theorem IsLines.sizes_le {rs : List Record} {lines : List UInt8} (h : IsLines rs lines) :
    8 * rs.length ≤ lines.length ∧
      ∀ r ∈ rs, r.key.size ≤ lines.length ∧ r.value.size ≤ lines.length := by
  induction h with
  | nil => exact ⟨Nat.zero_le _, fun r hr => absurd hr List.not_mem_nil⟩
  | @cons r rs line lines hline hlines ih =>
    have hsizes := hline.sizes_le
    rw [List.length_append, List.length_cons]
    refine ⟨by omega, List.forall_mem_cons.2 ⟨by omega, fun r hr => ?_⟩⟩
    have hr := ih.2 r hr
    omega

/-- The records of a short text are within the limits. -/
theorem IsLines.storable {rs : List Record} {lines : List UInt8} (h : IsLines rs lines)
    (hsize : lines.length ≤ Layout.maxFieldSize) : Draft.Storable rs := by
  obtain ⟨hlength, hfits⟩ := h.sizes_le
  have hlimits : Layout.maxFieldSize ≤ 8 * Layout.maxRecords := by decide
  exact ⟨by omega, fun r hr =>
    ⟨Nat.le_trans (hfits r hr).1 hsize, Nat.le_trans (hfits r hr).2 hsize⟩⟩

end RecordText

namespace Builder

/-- Loading a text into a new builder.  It succeeds just for the texts of the grammar, and then the
builder has the records of the text.  Otherwise it fails with a format error, the builder is still
at work, and it has the records of the longest sequence of lines that the text starts with. -/
theorem load_of_open {s s' : FileSpace} {path : Path} {mode : Option Nat} {b : Builder}
    (hopen : Builder.open s path mode = .ok (b, s')) {input : Input}
    (hfault : input.source.fault = none)
    (hsize : input.source.bytes.size ≤ Layout.maxFieldSize) :
    (∀ n, (b.load input).1 = .ok n ↔
      ∃ rs, rs.length = n ∧ RecordText.Accepts rs input.text) ∧
    (∀ rs, RecordText.Accepts rs input.text →
      b.load input = (.ok rs.length, { b with draft := .ofRecords rs })) ∧
    ((¬∃ rs, RecordText.Accepts rs input.text) →
      ∃ e rs, b.load input = (.error e, { b with draft := .ofRecords rs }) ∧ e.IsFormat ∧
        (b.load input).2.isBuilding = true ∧ RecordText.StartsWith rs input.text ∧
        ∀ rs', RecordText.StartsWith rs' input.text → rs' <+: rs) := by
  have htext : input.source.rest = input.text := rfl
  -- All records that are read are added, whether the text is accepted or not.
  have hadd : b.addAll input.source.records.items =
      (.ok (), { b with draft := .ofRecords input.source.records.items }) := by
    obtain ⟨lines, more, hlines, hrest⟩ := Source.startsWith_records input.source
    have hlength := congrArg List.length hrest
    rw [Source.length_rest, Source.left, List.length_append] at hlength
    exact addAll_of_storable hopen (hlines.storable (by omega))
  have haccepted (rs) (h : RecordText.Accepts rs input.text) :
      b.load input = (.ok rs.length, { b with draft := .ofRecords rs }) := by
    rw [Source.records_of_accepts hfault (htext ▸ h)] at hadd
    simp only [load, RecordText.parse, Source.records_of_accepts hfault (htext ▸ h), hadd]
  have hrefused (h : ¬∃ rs, RecordText.Accepts rs input.text) :
      ∃ e, input.source.records.failure = some e ∧
        b.load input = (.error e, { b with draft := .ofRecords input.source.records.items }) := by
    obtain ⟨e, he⟩ : ∃ e, input.source.records.failure = some e := by
      rw [← Option.ne_none_iff_exists']
      exact fun hnone => h ⟨_, Source.accepts_records hnone⟩
    exact ⟨e, he, by simp only [load, RecordText.parse, hadd, he]⟩
  refine ⟨fun n => ⟨fun hload => ?_, ?_⟩, haccepted, fun h => ?_⟩
  · by_cases h : ∃ rs, RecordText.Accepts rs input.text
    · obtain ⟨rs, hrs⟩ := h
      rw [haccepted rs hrs] at hload
      cases hload
      exact ⟨rs, rfl, hrs⟩
    · obtain ⟨e, -, herror⟩ := hrefused h
      rw [herror] at hload
      cases hload
  · rintro ⟨rs, rfl, hrs⟩
    rw [haccepted rs hrs]
  · obtain ⟨e, he, herror⟩ := hrefused h
    obtain ⟨-, -, t, hstate⟩ := open_eq_ok hopen
    refine ⟨e, _, herror, Source.isFormat_of_records hfault he, ?_,
      Source.startsWith_records input.source, fun rs' hrs' => Source.isPrefix_records hrs'⟩
    rw [herror, isBuilding, hstate]

/-- A line with a leading zero and without an empty line behind it. -/
theorem load_of_open_zero :
    Sample.builder.load (.ofBytes "+01,0:k->\n".toUTF8) =
      (.ok 1, { Sample.builder with draft := .ofRecords [⟨"k".toUTF8, ByteArray.empty⟩] }) := by
  have hsource : (Input.ofBytes "+01,0:k->\n".toUTF8).source = ⟨"+01,0:k->\n".toUTF8, 0, none⟩ :=
    Input.source_ofBytes _
  have hkey : RecordText.IsLength 1 [0x30, 0x31] := by decide
  have hvalue : RecordText.IsLength 0 [0x30] := by decide
  have haccepts : RecordText.Accepts [⟨"k".toUTF8, ByteArray.empty⟩]
      (Input.ofBytes "+01,0:k->\n".toUTF8).text := by
    refine ⟨_, .cons (.intro hkey hvalue) .nil, .inl ?_⟩
    rw [Input.text, hsource]
    decide
  exact (load_of_open Sample.open_eq (by rw [hsource]) (by rw [hsource]; decide)).2.1 _ haccepts

end Builder

end ConstDb
