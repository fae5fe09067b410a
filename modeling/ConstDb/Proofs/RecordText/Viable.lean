import ConstDb.Proofs.RecordText.Load
import ConstDb.Proofs.RecordText.Prompt

/-! # Where a text goes wrong

A text that is not record text is given up at the first byte with which nothing can be made of it
any more, whatever might stand behind it.  If there is no such byte, because the text only ends too
early, it is given up at its end.  The offset that is reported is therefore a matter of the grammar
alone: it does not depend on which part of a line was being read, nor on how.

## Key results

- `Source.flawAt_line`: the line at which the reading of a text ends
- `Source.flawAt_records`: the whole text
- `Builder.load_flawAt`: what loading a text into a new builder reports
-/

namespace ConstDb

namespace RecordText

/-- Some continuation of these bytes is record text. -/
def Viable (text : List UInt8) : Prop := ∃ more rs, Accepts rs (text ++ more)

/-- Where a text goes wrong: at the first byte that leaves no hope for it, or at its end. -/
inductive FlawAt : List UInt8 → Nat → Prop where
  | atByte {front back : List UInt8} {b : UInt8} (viable : Viable front)
      (hopeless : ¬Viable (front ++ [b])) : FlawAt (front ++ b :: back) (front.length + 1)
  | atEnd {text : List UInt8} (viable : Viable text) : FlawAt text text.length

theorem Viable.of_append {front back : List UInt8} (h : Viable (front ++ back)) :
    Viable front := by
  obtain ⟨more, rs, haccepts⟩ := h
  exact ⟨back ++ more, rs, by rwa [← List.append_assoc]⟩

/-- Lines are record text, even if nothing follows them. -/
theorem IsLines.accepts {rs : List Record} {lines : List UInt8} (h : IsLines rs lines) :
    Accepts rs lines :=
  ⟨lines, h, .inl rfl⟩

theorem IsLines.viable {rs : List Record} {lines : List UInt8} (h : IsLines rs lines) :
    Viable lines :=
  ⟨[], rs, by rw [List.append_nil]; exact h.accepts⟩

/-- Lines, and one line more. -/
theorem IsLines.concat {rs : List Record} {lines line : List UInt8} {r : Record}
    (h : IsLines rs lines) (hline : IsLine r line) : IsLines (rs ++ [r]) (lines ++ line) := by
  induction h with
  | nil =>
    have h := IsLines.cons hline .nil
    rwa [List.append_nil] at h
  | cons hhead _ ih =>
    rw [List.append_assoc, List.cons_append]
    exact .cons hhead ih

/-- In terms of the bytes in front of an offset. -/
theorem FlawAt.take {text : List UInt8} {offset : Nat} (h : FlawAt text offset) :
    offset ≤ text.length ∧
      ((0 < offset ∧ Viable (text.take (offset - 1)) ∧ ¬Viable (text.take offset)) ∨
        (Viable text ∧ offset = text.length)) := by
  cases h with
  | @atByte front back b hviable hhopeless =>
    refine ⟨by simp, .inl ⟨Nat.succ_pos _, ?_, ?_⟩⟩
    · rwa [Nat.add_sub_cancel, List.take_left]
    · rwa [← List.take_left' (show (front ++ [b]).length = front.length + 1 by simp),
        List.append_assoc] at hhopeless
  | atEnd hviable => exact ⟨Nat.le_refl _, .inr ⟨hviable, rfl⟩⟩

/-- A text never goes wrong inside a line at its front. -/
theorem FlawAt.lt_of_lines {text : List UInt8} {offset : Nat} (h : FlawAt text offset)
    (hrejected : ¬∃ rs, Accepts rs text) {rs : List Record} {lines : List UInt8}
    (hlines : IsLines rs lines) (hfront : lines <+: text) : lines.length < offset := by
  obtain ⟨more, hmore⟩ := hfront
  obtain ⟨hle, ⟨-, -, hhopeless⟩ | ⟨-, hend⟩⟩ := h.take
  · -- What stands in front of the end of a line is viable, for the line is record text.
    by_contra hnot
    have hviable : Viable (lines.take offset ++ lines.drop offset) := by
      rw [List.take_append_drop]
      exact hlines.viable
    apply hhopeless
    rw [← hmore, List.take_append_of_le_length (by omega)]
    exact hviable.of_append
  · have hne : more ≠ [] := by
      rintro rfl
      rw [List.append_nil] at hmore
      exact hrejected ⟨rs, hmore ▸ hlines.accepts⟩
    have hlength := congrArg List.length hmore
    have hpos := List.length_pos_iff.2 hne
    rw [List.length_append] at hlength
    omega

end RecordText

namespace Source

open RecordText Reading

variable {s t : Source} {b : UInt8} {bs lines : List UInt8} {rs : List Record}

/-- What can be read behind a plus sign can be made a line. -/
theorem viable_of_continues (hlines : IsLines rs lines) {front : List UInt8}
    (h : Continues lineTail front) : Viable (lines ++ byteOf '+' :: front) := by
  obtain ⟨more, r, hreads⟩ := h
  -- A text that is nothing else is taken as a whole.
  obtain ⟨t, hread, hrest⟩ :=
    hreads ⟨⟨(front ++ more).toArray⟩, 0, none⟩ [] (List.append_nil _).symm
  obtain ⟨tail, htakes, hline⟩ := takes_of_lineTail hread
  obtain rfl : front ++ more = tail := by
    have htail := htakes.rest_eq
    rwa [hrest, List.append_nil] at htail
  refine ⟨more, rs ++ [r], ?_⟩
  rw [List.append_assoc, List.cons_append]
  exact (hlines.concat hline).accepts

/-- Bytes at which reading fails as a line cannot follow other lines in record text. -/
theorem not_viable_of_error (hlines : IsLines rs lines) {front : List UInt8}
    (h : ∀ {s : Source} {more : List UInt8}, s.rest = front ++ more → ∃ e, s.line = .error e) :
    ¬Viable (lines ++ front) := by
  rintro ⟨more, rs', haccepts⟩
  let s : Source := ⟨⟨(lines ++ front ++ more).toArray⟩, 0, none⟩
  have hrest : s.rest = lines ++ (front ++ more) := List.append_assoc ..
  have hread := records_of_accepts (s := s) rfl haccepts
  obtain ⟨t, ht, -, hrecords⟩ := records_of_lines hlines hrest
  obtain ⟨e, herror⟩ := h ht
  rw [hread, records_eq t, herror] at hrecords
  cases hrecords

/-- A line whose rest is spoiled is not read. -/
theorem line_of_spoiled {front more : List UInt8} (h : Spoiled lineTail front)
    (hs : s.rest = byteOf '+' :: front ++ more) : ∃ e, s.line = .error e := by
  rw [List.cons_append] at hs
  rw [line_of_sign hs]
  cases htail : s.next.lineTail with
  | error e => exact ⟨e, rfl⟩
  | ok p => exact absurd htail (h s.next more (byte_of_rest_eq_cons hs).2 p)

/-- Where the rest of a line is given up, the text goes wrong. -/
theorem flawAt_of_givesUp (hlines : IsLines rs lines) {tail : List UInt8} {n : Nat}
    (h : GivesUp lineTail tail n) :
    FlawAt (lines ++ byteOf '+' :: tail) (lines.length + (1 + n)) := by
  cases h with
  | @atByte front back b hcontinues hspoiled =>
    have hhopeless : ¬Viable (lines ++ byteOf '+' :: (front ++ [b])) :=
      not_viable_of_error hlines fun hs => line_of_spoiled hspoiled hs
    have hviable := viable_of_continues hlines hcontinues
    rw [← List.cons_append, ← List.append_assoc] at hhopeless ⊢
    have hflaw : FlawAt (lines ++ byteOf '+' :: front ++ b :: back) _ := .atByte hviable hhopeless
    rw [List.length_append, List.length_cons] at hflaw
    rwa [show lines.length + (1 + (front.length + 1)) = lines.length + (front.length + 1) + 1
      by omega]
  | atEnd hcontinues =>
    have hflaw := FlawAt.atEnd (viable_of_continues hlines hcontinues)
    rwa [List.length_append, List.length_cons, Nat.add_comm tail.length] at hflaw

/-- Where a line that cannot be read goes wrong, behind lines that were read. -/
theorem flawAt_line (hlines : IsLines rs lines) (hfault : s.fault = none) {e : Error}
    (h : s.line = .error e) :
    ∃ n reason, e = .format (s.offset + n) reason ∧
      FlawAt (lines ++ s.rest) (lines.length + n) := by
  cases hrest : s.rest with
  | nil => cases h.symm.trans (line_of_end hrest hfault)
  | cons b bs =>
    rw [line_of_rest_eq_cons hrest] at h
    split at h
    · cases h
    · rename_i hnewline
      split at h
      · rename_i hsign
        cases h
        refine ⟨1, _, rfl, .atByte hlines.viable (not_viable_of_error hlines fun hs => ?_)⟩
        exact ⟨_, by rw [line_of_rest_eq_cons hs, if_neg hnewline, if_pos hsign]⟩
      · rename_i hsign
        obtain rfl : b = byteOf '+' := eq_byteOf (Decidable.not_not.1 hsign)
        obtain ⟨n, reason, rfl, hgives⟩ :=
          prompt_lineTail.givesUp (show s.next.fault = none from hfault) (map_eq_error.1 h)
        rw [(byte_of_rest_eq_cons hrest).2] at hgives
        exact ⟨1 + n, reason, by rw [next, Nat.add_assoc], flawAt_of_givesUp hlines hgives⟩

/-- What was read as a record is a line of it, as long as the way that the offset went. -/
theorem offset_of_line {r : Record} (h : s.line = .ok (some (r, t))) :
    ∃ line, s.Takes line t ∧ IsLine r line ∧ t.offset = s.offset + line.length := by
  obtain ⟨b, u, hb, hsign, hread⟩ := lineTail_of_line h
  obtain rfl : b = byteOf '+' := eq_byteOf hsign
  have hbyte := takes_of_byte hb
  obtain rfl : u = s.next := by
    cases hb.symm.trans (byte_of_rest_eq_cons hbyte.rest_eq).1
    rfl
  obtain ⟨tail, htail, hline⟩ := takes_of_lineTail hread
  -- The grammar and the reading speak of the same bytes, and only the reading knows the offset.
  obtain ⟨taken, htaken, hoffset, -⟩ := prompt_lineTail.takes hread
  obtain rfl : tail = taken :=
    List.append_cancel_right (htail.rest_eq.symm.trans htaken.rest_eq)
  refine ⟨_, hbyte.append htail, hline, ?_⟩
  rw [hoffset, next, List.length_append, List.length_singleton, Nat.add_assoc]

/-- Where a text that cannot be read goes wrong, behind lines that were read. -/
theorem flawAt_records (hfault : s.fault = none) {e : Error} (h : s.records.failure = some e)
    (hlines : IsLines rs lines) :
    ∃ n reason, e = .format (s.offset + n) reason ∧
      FlawAt (lines ++ s.rest) (lines.length + n) := by
  -- The induction is on what is left; each line that is read joins the lines in front of it.
  induction hn : s.left using Nat.strongRecOn generalizing s rs lines with
  | ind n ih =>
    subst hn
    rw [records_eq] at h
    split at h
    · rename_i e' hline
      cases h
      exact flawAt_line hlines hfault hline
    · cases h
    · rename_i r t hread
      obtain ⟨line, htakes, hline, hoffset⟩ := offset_of_line hread
      obtain ⟨n, reason, rfl, hflaw⟩ := ih t.left (left_lt_of_line hread)
        (htakes.fault_eq.trans hfault) h (hlines.concat hline) rfl
      refine ⟨line.length + n, reason, by rw [hoffset, Nat.add_assoc], ?_⟩
      rwa [List.append_assoc, ← htakes.rest_eq, List.length_append, Nat.add_assoc] at hflaw

end Source

namespace Builder

open RecordText

/-- Loading a short text that is not record text into a new builder fails, and the offset that is
reported is the one at which the text goes wrong.  That is behind the first byte that no
continuation makes up for, or else the end of the text.  It is never past the end, nor inside a line
at the front of the text. -/
theorem load_flawAt {s s' : FileSpace} {path : Path} {mode : Option Nat} {b : Builder}
    (hopen : Builder.open s path mode = .ok (b, s')) {input : Input}
    (hfault : input.source.fault = none)
    (hsize : input.source.bytes.size ≤ Layout.maxFieldSize)
    (hrejected : ¬∃ rs, Accepts rs input.text) :
    ∃ offset reason, (b.load input).1 = .error (.format offset reason) ∧
      ((0 < offset ∧ Viable (input.text.take (offset - 1)) ∧ ¬Viable (input.text.take offset)) ∨
        (Viable input.text ∧ offset = input.text.length)) ∧
      offset ≤ input.text.length ∧
      ∀ rs lines, IsLines rs lines → lines <+: input.text → lines.length < offset := by
  have htext : input.source.rest = input.text := rfl
  -- The records in front of the flaw are added first, and none of them is too large.
  have hadd : b.addAll input.source.records.items =
      (.ok (), { b with draft := .ofRecords input.source.records.items }) := by
    obtain ⟨lines, more, hlines, hrest⟩ := Source.startsWith_records input.source
    have hlength := congrArg List.length hrest
    rw [Source.length_rest, Source.left, List.length_append] at hlength
    exact addAll_of_storable hopen (hlines.storable (by omega))
  obtain ⟨e, he⟩ : ∃ e, input.source.records.failure = some e := by
    rw [← Option.ne_none_iff_exists']
    exact fun hnone => hrejected ⟨_, Source.accepts_records hnone⟩
  have hload : (b.load input).1 = .error e := by
    simp only [load, RecordText.parse, hadd, he]
  obtain ⟨offset, reason, rfl, hflaw⟩ := Source.flawAt_records hfault he .nil
  have hoffset : input.source.offset = 0 := rfl
  rw [hoffset, Nat.zero_add] at hload
  rw [List.nil_append, List.length_nil, Nat.zero_add, htext] at hflaw
  obtain ⟨hle, hwhere⟩ := hflaw.take
  exact ⟨offset, reason, hload, hwhere, hle,
    fun rs lines hlines hfront => hflaw.lt_of_lines hrejected hlines hfront⟩

/-- Behind the line of an empty record there is neither a line nor an end. -/
theorem load_flawAt_behind_line :
    ∃ reason, (Sample.builder.load (.ofBytes "+0,0:->\nx".toUTF8)).1 =
      .error (.format 9 reason) := by
  have hsource : (Input.ofBytes "+0,0:->\nx".toUTF8).source = ⟨"+0,0:->\nx".toUTF8, 0, none⟩ :=
    Input.source_ofBytes _
  have htext : (Input.ofBytes "+0,0:->\nx".toUTF8).text =
      [0x2b, 0x30, 0x2c, 0x30, 0x3a, 0x2d, 0x3e, 0x0a, 0x78] := by
    rw [Input.text, hsource]
    decide
  have hzero : IsLength 0 [0x30] := by decide
  have hline : IsLine ⟨.empty, .empty⟩ [0x2b, 0x30, 0x2c, 0x30, 0x3a, 0x2d, 0x3e, 0x0a] :=
    .intro (r := ⟨.empty, .empty⟩) hzero hzero
  have hlines := IsLines.cons hline .nil
  have hrejected : ¬∃ rs, Accepts rs (Input.ofBytes "+0,0:->\nx".toUTF8).text := by
    rintro ⟨rs, haccepts⟩
    rw [htext] at haccepts
    have hhopeless : ¬Viable (_ ++ [0x78]) := Source.not_viable_of_error hlines fun hs =>
      ⟨_, by rw [Source.line_of_rest_eq_cons hs, if_neg (by decide), if_pos (by decide)]⟩
    exact hhopeless ⟨[], rs, haccepts⟩
  -- The offset is behind the line and not past the end, and there is one byte between the two.
  obtain ⟨offset, reason, hload, -, hle, hbehind⟩ :=
    load_flawAt Sample.open_eq (by rw [hsource]) (by rw [hsource]; decide) hrejected
  have hlt := hbehind _ _ hlines ⟨[0x78], by rw [htext]; rfl⟩
  rw [htext] at hle
  obtain rfl : offset = 9 := Nat.le_antisymm hle hlt
  exact ⟨reason, hload⟩

end Builder

end ConstDb
