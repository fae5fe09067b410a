import ConstDb.Proofs.Image.Tiling
import ConstDb.Proofs.RecordText.Reload
import ConstDb.Proofs.RecordText.Viable

/-! # Texts that are cut off

The text of records may be cut off anywhere: in a length, in front of a separator, or in the bytes
of a key or a value that look like another line.  A line that is cut off in the middle is no shorter
line: whatever was read of it would also be read of the whole line, which ends where its line feed
is and not before (`Source.line_of_cut`).  So what is read of the text are the records whose lines
are complete, and the rest is an error at the end of the text, if there is one
(`Source.records_of_cut`).  A sink that has little room cuts the text off in this way, and a
database that is damaged has the lines in front of the damage.

## Key results

- `RecordText.lt_linesWithin_iff`: the lines that are complete
- `Source.line_of_cut`, `Source.records_of_cut`: reading a line, and a text, that is cut off
- `Builder.load_of_cut`, `Builder.dump_of_room`: what a builder and a sink get
- `Builder.dump_loses_suffix`: only what is behind the cut is lost
-/

namespace ConstDb

namespace RecordText

/-- Where the line of record number `i`, counted from one, ends in the text of records. -/
def lineEnd (rs : List Record) (i : Nat) : Nat := (lines (rs.take i)).size

/-- How many lines of the text of records are within its first `p` bytes. -/
def linesWithin : List Record → Nat → Nat
  | [], _ => 0
  | r :: rest, p =>
    if (line r).size ≤ p then linesWithin rest (p - (line r).size) + 1 else 0

theorem lineEnd_zero (rs : List Record) : lineEnd rs 0 = 0 := rfl

theorem lineEnd_cons (r : Record) (rest : List Record) (i : Nat) :
    lineEnd (r :: rest) (i + 1) = (line r).size + lineEnd rest i := by
  rw [lineEnd, List.take_succ_cons, lines_cons, ByteArray.size_append, lineEnd]

theorem linesWithin_le (rs : List Record) (p : Nat) : linesWithin rs p ≤ rs.length := by
  induction rs generalizing p with
  | nil => exact Nat.le_refl _
  | cons r rest ih =>
    rw [linesWithin, List.length_cons]
    split
    · exact Nat.succ_le_succ (ih _)
    · exact Nat.zero_le _

/-- These are the lines that end there or before. -/
theorem lt_linesWithin_iff {rs : List Record} {p i : Nat} (hi : i < rs.length) :
    i < linesWithin rs p ↔ lineEnd rs (i + 1) ≤ p := by
  induction rs generalizing p i with
  | nil => cases hi
  | cons r rest ih =>
    rw [linesWithin, lineEnd_cons]
    split
    · rename_i hle
      cases i with
      | zero => simpa [lineEnd_zero] using hle
      | succ i =>
        rw [List.length_cons] at hi
        rw [Nat.add_lt_add_iff_right, ih (by omega)]
        omega
    · rename_i hlt
      omega

/-- Whether a position is the end of a line of the text of records, or the end of the text.  The
position in front of all lines counts as one. -/
def EndsLine (rs : List Record) (p : Nat) : Prop :=
  (∃ i ≤ rs.length, p = lineEnd rs i) ∨ p = (print rs).size

theorem size_line_pos (r : Record) : 0 < (line r).size := by
  have hne : (line r).data.toList ≠ [] := by
    rw [toList_line]
    exact List.cons_ne_nil _ _
  exact List.length_pos_iff.2 hne

/-- Behind the first line, it is one of the text without that line. -/
theorem endsLine_cons_of_le {r : Record} {rest : List Record} {p : Nat}
    (hle : (line r).size ≤ p) : EndsLine (r :: rest) p ↔ EndsLine rest (p - (line r).size) := by
  have hpos := size_line_pos r
  unfold EndsLine
  rw [print_cons, ByteArray.size_append]
  constructor
  · rintro (⟨_ | i, hi, rfl⟩ | rfl)
    · rw [lineEnd_zero] at hle
      omega
    · refine .inl ⟨i, Nat.le_of_succ_le_succ hi, ?_⟩
      rw [lineEnd_cons, Nat.add_sub_cancel_left]
    · exact .inr (Nat.add_sub_cancel_left ..)
  · rintro (⟨i, hi, heq⟩ | heq)
    · refine .inl ⟨i + 1, Nat.succ_le_succ hi, ?_⟩
      rw [lineEnd_cons]
      omega
    · exact .inr (by omega)

/-- Inside the first line there is none but the position in front of it. -/
theorem endsLine_cons_of_lt {r : Record} {rest : List Record} {p : Nat}
    (hlt : p < (line r).size) : EndsLine (r :: rest) p ↔ p = 0 := by
  unfold EndsLine
  rw [print_cons, ByteArray.size_append]
  constructor
  · rintro (⟨_ | i, hi, rfl⟩ | rfl)
    · exact lineEnd_zero _
    · rw [lineEnd_cons] at hlt
      omega
    · omega
  · rintro rfl
    exact .inl ⟨0, Nat.zero_le _, rfl⟩

end RecordText

namespace Source

open RecordText Reading

variable {s : Source} {p : Nat}

/-- What can be read once it is complete is given up at its end. -/
theorem Reading.GivesUp.eq_length {α : Type} {f : Reading α} {text more : List UInt8} {n : Nat}
    (h : f.GivesUp text n) {u : Source} {q : α × Source} (hu : u.rest = text ++ more)
    (hread : f u = .ok q) : n = text.length := by
  cases h with
  | atEnd => rfl
  | @atByte front back b hcontinues hspoiled =>
    refine absurd hread (hspoiled u (back ++ more) ?_ q)
    rw [hu]
    simp

/-- The rest of a line is read up to its end. -/
theorem exists_lineTail {r : Record} {tail : List UInt8} (hline : IsLine r (byteOf '+' :: tail)) :
    ∃ u t, rest u = tail ∧ u.lineTail = .ok (r, t) ∧ t.rest = [] := by
  let u : Source := ⟨⟨(byteOf '+' :: tail).toArray⟩, 0, none⟩
  have hrest : u.rest = byteOf '+' :: tail := rfl
  obtain ⟨t, hread, ht⟩ := line_of_rest (s := u) (by rw [hrest, List.append_nil]) hline
  rw [line_of_sign hrest] at hread
  obtain ⟨q, htail, hq⟩ := map_eq_ok.1 hread
  cases hq
  exact ⟨u.next, t, (byte_of_rest_eq_cons hrest).2, htail, ht⟩

/-- A line that is cut off in the middle is given up where it ends. -/
theorem line_of_cut {r : Record} {line : List UInt8} (hline : IsLine r line)
    (hrest : s.rest = line.take p) (hpos : 0 < p) (hlt : p < line.length)
    (hfault : s.fault = none) : ∃ reason, s.line = .error (.format (s.offset + p) reason) := by
  obtain ⟨tail, rfl⟩ : ∃ tail, line = byteOf '+' :: tail := by
    cases hline
    exact ⟨_, rfl⟩
  obtain ⟨p, rfl⟩ := Nat.exists_eq_succ_of_ne_zero (Nat.ne_of_gt hpos)
  rw [List.length_cons, Nat.succ_lt_succ_iff] at hlt
  obtain ⟨u, t, hu, hread, ht⟩ := exists_lineTail hline
  rw [Nat.succ_eq_add_one, List.take_succ_cons] at hrest
  have hnext := (byte_of_rest_eq_cons hrest).2
  have hsplit : u.rest = tail.take p ++ tail.drop p := by rw [hu, List.take_append_drop]
  rw [line_of_sign hrest]
  cases htail : s.next.lineTail with
  | ok q =>
    -- What was read would be read of the whole line too, and leave the bytes that were cut off.
    obtain ⟨r', t'⟩ := q
    obtain ⟨taken, htakes, -, hreads⟩ := prompt_lineTail.takes htail
    have htaken : u.rest = taken ++ (t'.rest ++ tail.drop p) := by
      rw [hsplit, ← hnext, htakes.rest_eq, List.append_assoc]
    obtain ⟨t'', hread', ht''⟩ := hreads u _ htaken
    cases hread.symm.trans hread'
    have hlength := congrArg List.length (ht.symm.trans ht'')
    rw [List.length_append, List.length_drop, List.length_nil] at hlength
    omega
  | error e =>
    obtain ⟨n, reason, rfl, hgives⟩ :=
      prompt_lineTail.givesUp (show s.next.fault = none from hfault) htail
    rw [hnext] at hgives
    obtain rfl := hgives.eq_length hsplit hread
    refine ⟨reason, ?_⟩
    rw [List.length_take, Nat.min_eq_left (Nat.le_of_lt hlt), next, Nat.add_assoc,
      Nat.add_comm 1]
    rfl

/-- Where nothing is left, there is no record. -/
theorem records_of_end (hrest : s.rest = []) (hfault : s.fault = none) : s.records = .empty := by
  rw [records_eq, line_of_end hrest hfault]

/-- What is read of the text of records that is cut off: the lines that are complete.  The rest is
an error at the end, unless nothing is left of it. -/
theorem records_of_cut {rs : List Record}
    (hsmall : ∀ r ∈ rs, r.key.size < 0x100000000 ∧ r.value.size < 0x100000000)
    (hp : p ≤ (print rs).size) (hrest : s.rest = (print rs).data.toList.take p)
    (hfault : s.fault = none) :
    s.records.items = rs.take (linesWithin rs p) ∧
      (EndsLine rs p → s.records.failure = none) ∧
      (¬EndsLine rs p → ∃ reason, s.records.failure = some (.format (s.offset + p) reason)) := by
  -- The induction is on the records, because each complete line leaves a shorter text cut nearer.
  induction rs generalizing s p with
  | nil =>
    have hone : (print []).size = 1 := rfl
    have hends : EndsLine [] p := by
      rcases Nat.eq_zero_or_pos p with rfl | hpos
      · exact .inl ⟨0, Nat.le_refl _, rfl⟩
      · exact .inr (by omega)
    have hrecords : s.records = .empty := by
      rcases Nat.eq_zero_or_pos p with rfl | hpos
      · exact records_of_end hrest hfault
      · obtain rfl : p = 1 := by omega
        have hrest : s.rest = [byteOf '\n'] := hrest
        rw [records_eq, line_of_terminator hrest]
    rw [hrecords]
    exact ⟨rfl, fun _ => rfl, fun h => absurd hends h⟩
  | cons r rest ih =>
    obtain ⟨hr, hrest'⟩ := List.forall_mem_cons.1 hsmall
    have hline := isLine_line hr.1 hr.2
    have hlength : (RecordText.line r).data.toList.length = (RecordText.line r).size := rfl
    rw [print_cons, ByteArray.size_append] at hp
    rw [print_cons, ByteArray.data_append, Array.toList_append] at hrest
    by_cases hle : (RecordText.line r).size ≤ p
    · rw [List.take_append, List.take_of_length_le (by omega), hlength] at hrest
      obtain ⟨t, hread, ht⟩ := line_of_rest hrest hline
      obtain ⟨line', htakes, -, hoffset⟩ := offset_of_line hread
      -- Reading the line moved the offset by its length, so the place of the cut stays the same.
      have hlength' := congrArg List.length (htakes.rest_eq.symm.trans hrest)
      rw [ht, List.length_append, List.length_append] at hlength'
      have hfault' := htakes.fault_eq.trans hfault
      have hp' : p - (RecordText.line r).size ≤ (print rest).size := by omega
      obtain ⟨hitems, hnone, hsome⟩ := ih hrest' hp' ht hfault'
      have hcons : s.records = .cons r t.records := by rw [records_eq, hread]
      rw [hcons, Walk.items_cons, Walk.failure_cons, linesWithin, if_pos hle, List.take_succ_cons,
        hitems, endsLine_cons_of_le hle]
      refine ⟨rfl, hnone, fun h => ?_⟩
      obtain ⟨reason, hfailure⟩ := hsome h
      have hoffset' : t.offset + (p - (RecordText.line r).size) = s.offset + p := by omega
      exact ⟨reason, by rw [hfailure, hoffset']⟩
    · rw [List.take_append_of_le_length (by omega)] at hrest
      -- Of this line only a front is left: nothing at all, or the start of a record.
      have hlt := Nat.lt_of_not_le hle
      rw [linesWithin, if_neg hle, endsLine_cons_of_lt hlt]
      rcases Nat.eq_zero_or_pos p with rfl | hpos
      · rw [records_of_end hrest hfault]
        exact ⟨rfl, fun _ => rfl, fun h => absurd rfl h⟩
      · obtain ⟨reason, hread⟩ := line_of_cut hline hrest hpos hlt hfault
        have hfailed : s.records = .failed (.format (s.offset + p) reason) := by
          rw [records_eq, hread]
        rw [hfailed]
        exact ⟨rfl, fun h => absurd h (Nat.ne_of_gt hpos), fun _ => ⟨reason, rfl⟩⟩

end Source

namespace Builder

open RecordText

/-- What is lost of the text of a database: only what comes behind the place where a sink is full,
where the text is cut off, or where the database is damaged. -/
structure LosesSuffix (image : Image) : Prop where
  /-- A sink with little room gets the front of the whole text. -/
  sink : ∀ rs, Built rs image.bytes → image.dump {} = (.ok rs.length, { taken := print rs }) ∧
    ∀ limit fault flushFault, image.dump ⟨.empty, some (limit, fault), flushFault⟩ =
      (if (print rs).size ≤ limit then
          match flushFault with
          | none => .ok rs.length
          | some f => .error (.stream f)
        else .error (.stream fault),
        ⟨(print rs).extract 0 (min limit (print rs).size),
          some (limit - (print rs).size, fault), flushFault⟩)
  /-- Of a text that is cut off, a new builder gets the records whose lines are complete.  That is
  an error unless the text ends behind a line. -/
  cut : ∀ rs, Built rs image.bytes → ∀ p ≤ (print rs).size, ∀ s s' path mode b (input : Input),
    Builder.open s path mode = .ok (b, s') →
    input.source = ⟨(print rs).extract 0 p, 0, none⟩ →
    ∃ k ≤ rs.length, (∀ i < rs.length, i < k ↔ lineEnd rs (i + 1) ≤ p) ∧
      (EndsLine rs p → b.load input = (.ok k, { b with draft := .ofRecords (rs.take k) })) ∧
      (¬EndsLine rs p → ∃ reason,
        b.load input = (.error (.format p reason), { b with draft := .ofRecords (rs.take k) }))
  /-- A sink that never fails gets the lines of the records in front of the damage, and no empty
  line. -/
  damaged : ∀ e, image.records.failure = some e → e.IsFormat ∧ ∀ sink, sink.room = none →
    image.dump sink = (.error e, { sink with taken := sink.taken ++ lines image.records.items })

variable {image : Image} {rs : List Record}

/-- The first records of some that can be stored can be stored. -/
private theorem storable_take (h : Draft.Storable rs) (k : Nat) : Draft.Storable (rs.take k) :=
  ⟨Nat.le_trans (List.length_take_le' ..) h.length_le,
    fun r hr => h.fits r (List.mem_of_mem_take hr)⟩

/-- A builder gets the records whose lines are complete. -/
theorem load_of_cut (hrs : Draft.Storable rs) {p : Nat} (hp : p ≤ (print rs).size)
    {s s' : FileSpace} {path : Path} {mode : Option Nat} {b : Builder} {input : Input}
    (hopen : Builder.open s path mode = .ok (b, s'))
    (hinput : input.source = ⟨(print rs).extract 0 p, 0, none⟩) :
    (EndsLine rs p → b.load input =
      (.ok (linesWithin rs p), { b with draft := .ofRecords (rs.take (linesWithin rs p)) })) ∧
    (¬EndsLine rs p → ∃ reason, b.load input =
      (.error (.format p reason),
        { b with draft := .ofRecords (rs.take (linesWithin rs p)) })) := by
  have hrest : input.source.rest = (print rs).data.toList.take p := by
    rw [hinput, Source.rest, ByteArray.data_extract, Array.toList_extract,
      List.extract_eq_take_drop, Nat.sub_zero, List.drop_zero, List.drop_zero]
  have hfault : input.source.fault = none := by rw [hinput]
  obtain ⟨hitems, hnone, hsome⟩ :=
    Source.records_of_cut (fun r hr => (hrs.fits r hr).sizes_lt) hp hrest hfault
  have hadd := addAll_of_storable hopen (storable_take hrs (linesWithin rs p))
  have hle := linesWithin_le rs p
  refine ⟨fun h => ?_, fun h => ?_⟩
  · simp only [load, RecordText.parse, hitems, hadd, hnone h, List.length_take,
      Nat.min_eq_left hle]
  · obtain ⟨reason, hfailure⟩ := hsome h
    have hoffset : input.source.offset = 0 := by rw [hinput]
    rw [hoffset, Nat.zero_add] at hfailure
    exact ⟨reason, by simp only [load, RecordText.parse, hitems, hadd, hfailure]⟩

/-- A sink with little room gets the front of the text of an image all of whose records are read. -/
theorem dump_of_room (h : image.records = ⟨rs, none⟩) (limit : Nat) (fault : Fault)
    (flushFault : Option Fault) :
    image.dump ⟨.empty, some (limit, fault), flushFault⟩ =
      (if (print rs).size ≤ limit then
          match flushFault with
          | none => .ok rs.length
          | some f => .error (.stream f)
        else .error (.stream fault),
        ⟨(print rs).extract 0 (min limit (print rs).size),
          some (limit - (print rs).size, fault), flushFault⟩) := by
  rw [Image.dump_of_records h]
  by_cases hle : (print rs).size ≤ limit
  · simp only [Sink.write, if_pos hle, Nat.min_eq_right hle, ByteArray.empty_append,
      ByteArray.extract_zero_size, Sink.flush]
    cases flushFault <;> rfl
  · have hge := Nat.le_of_not_le hle
    simp only [Sink.write, if_neg hle, Nat.min_eq_left hge, ByteArray.empty_append,
      Nat.sub_eq_zero_of_le hge]

/-- Nothing is lost but what comes behind, whatever the database. -/
theorem dump_loses_suffix (image : Image) : LosesSuffix image where
  sink rs hbuilt := by
    obtain ⟨hrs, hbytes⟩ := hbuilt.eq_image
    have hrecords := hrs.records_image hbytes
    exact ⟨by rw [Image.dump_eq, hrecords], dump_of_room hrecords⟩
  cut rs hbuilt p hp s s' path mode b input hopen hinput := by
    obtain ⟨hrs, -⟩ := hbuilt.eq_image
    exact ⟨linesWithin rs p, linesWithin_le rs p, fun i hi => lt_linesWithin_iff hi,
      load_of_cut hrs hp hopen hinput⟩
  damaged e he := by
    constructor
    · rw [Image.failure_records] at he
      exact Image.isFormat_of_scanFrom he
    · intro sink hroom
      rcases hrecords : image.records with ⟨rs, failure⟩
      rw [hrecords] at he
      cases he
      exact Image.dump_of_failure hrecords hroom

/-- A text of three records that is cut off in its second line, because a sink has no more room:
one record is left of it.  The image whose scan fails behind its first record is the text of that
record, without an empty line. -/
theorem dump_loses_suffix_sample :
    ∃ (image damaged : Image) (reason : Reason),
      image.bytes = (Draft.ofRecords Sample.records).image ∧
      image.dump ⟨.empty, some (12, .permissionDenied), none⟩ =
        (.error (.stream .permissionDenied),
          ⟨(print Sample.records).extract 0 12, some (0, .permissionDenied), none⟩) ∧
      Sample.builder.load (.ofBytes ((print Sample.records).extract 0 12)) =
        (.error (.format 12 reason),
          { Sample.builder with draft := .ofRecords [⟨⟨#[0x6b]⟩, ⟨#[1]⟩⟩] }) ∧
      damaged.bytes = Marked.assembly.bytes ∧
      damaged.dump {} =
        (.error (.format 4106 .paddingInside), { taken := RecordText.line Marked.record }) := by
  have hrs := (addAll_of_open Sample.open_eq Sample.addAll_eq).2
  obtain ⟨image, hbytes⟩ :
      ∃ image : Image, image.bytes = (Draft.ofRecords Sample.records).image :=
    ⟨⟨_, _, hrs.addressable.parse_image⟩, rfl⟩
  obtain ⟨damaged, hdamaged⟩ := Marked.exists_image
  have hbuilt : Built Sample.records image.bytes := hbytes ▸ Sample.built
  have hsize : (print Sample.records).size = 30 := by decide +kernel
  have hends : ¬EndsLine Sample.records 12 := by
    unfold EndsLine
    decide +kernel
  obtain ⟨-, hfull⟩ := (dump_loses_suffix image).sink _ hbuilt
  obtain ⟨k, -, hk, -, hcut⟩ := (dump_loses_suffix image).cut _ hbuilt 12 (by omega) _ _ _ _ _
    (.ofBytes ((print Sample.records).extract 0 12)) Sample.open_eq (Input.source_ofBytes _)
  obtain ⟨reason, hload⟩ := hcut hends
  have hfirst : 0 < k := (hk 0 (by decide)).2 (by decide +kernel)
  have hsecond : ¬1 < k := fun h => absurd ((hk 1 (by decide)).1 h) (by decide +kernel)
  obtain rfl : k = 1 := by omega
  have hfailure : damaged.records.failure = some (.format 4106 .paddingInside) := by
    rw [Image.failure_records, Marked.scan_image hdamaged]
  obtain ⟨-, htext⟩ := (dump_loses_suffix damaged).damaged _ hfailure
  refine ⟨image, damaged, reason, hbytes, ?_, hload, hdamaged, ?_⟩
  · rw [hfull, hsize]
    rfl
  · rw [htext {} rfl, Marked.items_records hdamaged]
    rfl

end Builder

end ConstDb
