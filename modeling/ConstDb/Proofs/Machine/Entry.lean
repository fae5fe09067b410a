import ConstDb.Proofs.Image.Reach
import ConstDb.Proofs.Machine.Codec

/-! # Records that are written and read again

A record that was written between other bytes is read again from its offset, and the next record is
looked for behind it.

Of any other bytes a record is read just when the two lengths that stand at the offset, and the
fields that they announce, end before the region does.  That is one inequality between numbers.  The
machine decides it in three steps with sums of words, of which it checks each one before it needs
it, so that no sum wraps, wherever the offset is and whatever the lengths say.

## Key results

- `Machine.readEntry_of_written`: a record that was written
- `Machine.readEntry_iff_fits`: a record in arbitrary bytes
- `Machine.extract_of_readEntry`: a record that was read is written as it stood
- `Machine.records_read_back`: both ways together
-/

namespace ConstDb.Machine

/-! ### Writing -/

/-- The two lengths, written one after the other. -/
theorem prologue_eq (keySize valueSize : UInt32) :
    prologue keySize valueSize = .ok (Record.encodeLengths keySize valueSize) := by
  obtain ⟨rest₁, h₁, hkey⟩ :=
    @write32_behind .empty (ByteArray.replicate 8 0) 0 4 keySize rfl rfl
  obtain ⟨rest₂, h₂, hvalue⟩ := @write32_behind keySize.bigEndian rest₁ 4 0 valueSize (by simp) h₁
  rw [ByteArray.empty_append, ByteArray.empty_append] at hkey
  rw [prologue, hkey, ok_bind, hvalue, ByteArray.size_eq_zero_iff.1 h₂, ByteArray.append_empty,
    Record.encodeLengths]

/-- The size of a record is computed without wrapping, if a word has room for it. -/
theorem encodedSize_eq {keySize valueSize : Nat}
    (h : Record.encodedSize keySize valueSize < 2 ^ 64) :
    encodedSize (.ofNat keySize) (.ofNat valueSize) =
      .ok (.ofNat (Record.encodedSize keySize valueSize)) := by
  simp only [Record.encodedSize, Record.prologueSize] at h ⊢
  have height : (8 : UInt64).toNat = 8 := rfl
  have hword {n : Nat} (hn : n < 2 ^ 64) : (UInt64.ofNat n).toNat = n :=
    UInt64.toNat_ofNat_of_lt' hn
  rw [encodedSize, add64_eq_ok height (hword (show keySize < 2 ^ 64 by omega)) (by omega), ok_bind,
    add64_eq_ok (hword (show 8 + keySize < 2 ^ 64 by omega))
      (hword (show valueSize < 2 ^ 64 by omega)) h]

/-! ### A record that was written -/

/-- A record that stands at an offset is read from there. -/
theorem readEntry_of_hasAt {data : ByteArray} {offset stop : UInt64} {r : Record}
    (hat : data.HasAt offset.toNat r.encode) (hkey : r.key.size < 2 ^ 32)
    (hvalue : r.value.size < 2 ^ 32)
    (hstop : offset.toNat + Record.encodedSize r.key.size r.value.size ≤ stop.toNat) :
    readEntry data offset stop = .ok (.ok ⟨offset, r.key, r.value⟩) := by
  have hnext : (r.storedAt offset.toNat).next ≤ stop.toNat := by
    rw [Record.next_storedAt, Record.size_encode]
    exact hstop
  rw [readEntry_eq, Stored.read_of_hasAt hat hkey hvalue hnext]
  simp only [Except.map, Entry.of, Stored.key_of_hasAt hat, Stored.value_of_hasAt hat,
    Record.offset_storedAt, UInt64.ofNat_toNat]

/-- A record that was written between other bytes is read again, and what follows is looked for
behind it. -/
theorem readEntry_of_written (front back key value : ByteArray) {stop : UInt64}
    (hkey : key.size < 2 ^ 32) (hvalue : value.size < 2 ^ 32)
    (hstop : front.size + Record.encodedSize key.size value.size ≤ stop.toNat) :
    ∃ lengths size next, prologue (.ofNat key.size) (.ofNat value.size) = .ok lengths ∧
      encodedSize (.ofNat key.size) (.ofNat value.size) = .ok size ∧
      readEntry (front ++ (lengths ++ key ++ value) ++ back) (.ofNat front.size) stop =
        .ok (.ok ⟨.ofNat front.size, key, value⟩) ∧
      Entry.next ⟨.ofNat front.size, key, value⟩ = .ok next ∧
      next.toNat = front.size + size.toNat := by
  have hlt := stop.toNat_lt
  have hoffset : (UInt64.ofNat front.size).toNat = front.size :=
    UInt64.toNat_ofNat_of_lt' (show front.size < 2 ^ 64 by omega)
  have hat : (front ++ (Record.mk key value).encode ++ back).HasAt
      (UInt64.ofNat front.size).toNat (Record.mk key value).encode := by
    rw [hoffset]
    exact .of_append ..
  refine ⟨_, _, _, prologue_eq .., encodedSize_eq (by omega), ?read,
    Entry.next_eq (by rw [hoffset]; omega), ?next⟩
  case read => exact readEntry_of_hasAt hat hkey hvalue (by rw [hoffset]; exact hstop)
  case next =>
    rw [hoffset, UInt64.toNat_ofNat_of_lt' (show front.size + _ < 2 ^ 64 by omega),
      UInt64.toNat_ofNat_of_lt' (show Record.encodedSize key.size value.size < 2 ^ 64 by omega)]

/-! ### A record in arbitrary bytes -/

/-- The number that four bytes stand for, the first of them counting most. -/
def lengthAt (data : ByteArray) (pos : Nat) : Nat :=
  BigEndian.decode (data.extract pos (pos + 4)).data.toList

/-- Where the record ends whose two lengths stand at an offset. -/
def endAt (data : ByteArray) (offset : Nat) : Nat :=
  offset + 8 + lengthAt data offset + lengthAt data (offset + 4)

/-- The record that the two lengths at an offset announce. -/
def entryAt (data : ByteArray) (offset : UInt64) : Entry :=
  let keyStart := offset.toNat + 8
  let valueStart := keyStart + lengthAt data offset.toNat
  ⟨offset, data.extract keyStart valueStart,
    data.extract valueStart (valueStart + lengthAt data (offset.toNat + 4))⟩

section

variable {data : ByteArray} {offset stop : UInt64} (hstop : stop.toNat ≤ data.size)

include hstop

/-- A record that ends before the region does is read. -/
theorem readEntry_of_endAt_le (hfits : endAt data offset.toNat ≤ stop.toNat) :
    readEntry data offset stop = .ok (.ok (entryAt data offset)) := by
  rw [endAt] at hfits
  have hkey : (data.word32 offset.toNat).toNat = lengthAt data offset.toNat :=
    ByteArray.toNat_word32_eq_decode (by omega)
  have hvalue : (data.word32 (offset.toNat + 4)).toNat = lengthAt data (offset.toNat + 4) :=
    ByteArray.toNat_word32_eq_decode (by omega)
  have hroom : offset.toNat + Record.prologueSize ≤ min stop.toNat data.size := by
    simp only [Record.prologueSize]
    omega
  have hread : Stored.read data offset.toNat stop.toNat =
      .ok ⟨offset.toNat, lengthAt data offset.toNat, lengthAt data (offset.toNat + 4)⟩ := by
    refine Stored.read_eq_ok.2 ⟨Stored.announced_eq_ok.2 ⟨hroom, by rw [hkey, hvalue]⟩, ?_⟩
    simp only [Stored.next, Stored.valueStart, Stored.keyStart, Record.prologueSize]
    omega
  rw [readEntry_eq, hread]
  simp only [Except.map, Entry.of, UInt64.ofNat_toNat]
  rfl

/-- A record that does not is refused, with its offset. -/
theorem readEntry_of_lt_endAt (hshort : stop.toNat < endAt data offset.toNat) :
    ∃ problem, readEntry data offset stop = .ok (.error (.format offset.toNat problem)) := by
  rw [readEntry_eq]
  cases hread : Stored.read data offset.toNat stop.toNat with
  | error e =>
    obtain ⟨problem, rfl⟩ := Stored.error_of_read hread
    exact ⟨problem, rfl⟩
  | ok s =>
    obtain ⟨hannounced, hend⟩ := Stored.read_eq_ok.1 hread
    obtain ⟨hroom, rfl⟩ := Stored.announced_eq_ok.1 hannounced
    simp only [Stored.next, Stored.valueStart, Stored.keyStart, Record.prologueSize] at hroom hend
    rw [ByteArray.toNat_word32_eq_decode (show offset.toNat + 4 ≤ data.size by omega),
      ByteArray.toNat_word32_eq_decode (show offset.toNat + 4 + 4 ≤ data.size by omega)] at hend
    simp only [endAt, lengthAt] at hshort
    omega

/-- A record is read just when it ends before the region does, and then it is the one that its
lengths announce. -/
theorem readEntry_iff_fits (e : Entry) :
    readEntry data offset stop = .ok (.ok e) ↔
      endAt data offset.toNat ≤ stop.toNat ∧ e = entryAt data offset := by
  by_cases hfits : endAt data offset.toNat ≤ stop.toNat
  · rw [readEntry_of_endAt_le hstop hfits]
    simp [hfits, eq_comm]
  · obtain ⟨problem, hproblem⟩ := readEntry_of_lt_endAt hstop (Nat.lt_of_not_le hfits)
    rw [hproblem]
    simp [hfits]

end

/-- A record that was read is written as it stood. -/
theorem extract_of_readEntry {data : ByteArray} {offset stop : UInt64} {e : Entry}
    (h : readEntry data offset stop = .ok (.ok e)) :
    ∃ lengths, prologue (.ofNat e.key.size) (.ofNat e.value.size) = .ok lengths ∧
      data.HasAt offset.toNat (lengths ++ e.key ++ e.value) := by
  refine ⟨_, prologue_eq .., ?_⟩
  rw [readEntry_eq, Except.ok.injEq] at h
  obtain ⟨s, hread, rfl⟩ := map_eq_ok.1 h
  exact Stored.hasAt_of_read hread

/-- Writing and reading records are inverse to each other.  A record that was written between other
bytes is read again, and what follows is looked for behind it.  Whatever bytes there are, a record
is read from an offset just when it ends before the region does, and any other is refused with its
offset; a record that was read is written as it stood. -/
theorem records_read_back :
    (∀ (front back key value : ByteArray) (stop : UInt64),
      key.size < 2 ^ 32 → value.size < 2 ^ 32 →
      front.size + Record.encodedSize key.size value.size ≤ stop.toNat →
      ∃ lengths size next, prologue (.ofNat key.size) (.ofNat value.size) = .ok lengths ∧
        encodedSize (.ofNat key.size) (.ofNat value.size) = .ok size ∧
        readEntry (front ++ (lengths ++ key ++ value) ++ back) (.ofNat front.size) stop =
          .ok (.ok ⟨.ofNat front.size, key, value⟩) ∧
        Entry.next ⟨.ofNat front.size, key, value⟩ = .ok next ∧
        next.toNat = front.size + size.toNat) ∧
    ∀ (data : ByteArray) (offset stop : UInt64), stop.toNat ≤ data.size →
      (∀ e, readEntry data offset stop = .ok (.ok e) ↔
        endAt data offset.toNat ≤ stop.toNat ∧ e = entryAt data offset) ∧
      ((∃ problem, readEntry data offset stop = .ok (.error (.format offset.toNat problem))) ↔
        stop.toNat < endAt data offset.toNat) ∧
      ∀ e, readEntry data offset stop = .ok (.ok e) →
        ∃ lengths, prologue (.ofNat e.key.size) (.ofNat e.value.size) = .ok lengths ∧
          data.HasAt offset.toNat (lengths ++ e.key ++ e.value) := by
  refine ⟨fun front back key value stop hkey hvalue hstop =>
    readEntry_of_written front back key value hkey hvalue hstop, fun data offset stop hstop =>
    ⟨readEntry_iff_fits hstop, ⟨fun ⟨problem, hproblem⟩ => ?refused, readEntry_of_lt_endAt hstop⟩,
      fun _ => extract_of_readEntry⟩⟩
  case refused =>
    by_contra hfits
    have hread := readEntry_of_endAt_le hstop (Nat.le_of_not_lt hfits)
    rw [hread] at hproblem
    cases hproblem

/-- A record with a key of two bytes behind one other byte, and an offset at the end of the address
range. -/
theorem records_read_back_pair :
    (∃ lengths, prologue 2 1 = .ok lengths ∧
      readEntry (⟨#[7]⟩ ++ (lengths ++ ⟨#[104, 105]⟩ ++ ⟨#[33]⟩) ++ ⟨#[7, 7]⟩) 1 14 =
        .ok (.ok ⟨1, ⟨#[104, 105]⟩, ⟨#[33]⟩⟩)) ∧
      ∃ problem, readEntry ⟨#[7, 7]⟩ (.ofNat (2 ^ 64 - 1)) 2 =
        .ok (.error (.format (2 ^ 64 - 1) problem)) := by
  obtain ⟨hwritten, harbitrary⟩ := records_read_back
  constructor
  · obtain ⟨lengths, -, -, hlengths, -, hread, -⟩ :=
      hwritten ⟨#[7]⟩ ⟨#[7, 7]⟩ ⟨#[104, 105]⟩ ⟨#[33]⟩ 14 (by decide) (by decide) (by decide)
    exact ⟨lengths, hlengths, hread⟩
  · refine (harbitrary ⟨#[7, 7]⟩ (.ofNat (2 ^ 64 - 1)) 2 (by decide)).2.1.2 ?_
    have hoffset : (UInt64.ofNat (2 ^ 64 - 1)).toNat = 2 ^ 64 - 1 := rfl
    have hstop : (2 : UInt64).toNat = 2 := rfl
    rw [hoffset, hstop, endAt]
    omega

end ConstDb.Machine
