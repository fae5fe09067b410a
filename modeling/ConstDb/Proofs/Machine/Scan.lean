import ConstDb.Machine.Scan
import ConstDb.Proofs.Machine.Probe

/-! # Scans with machine words

A scan with machine words never traps, whatever the record region holds, and meets what the scan
with numbers meets.

## Key results

- `Machine.Scan.next_of`: one call
- `Machine.Scan.entries_gives`: all records
-/

namespace ConstDb.Machine.Scan

/-- The scan that stands at an offset. -/
def of (image : Image) (pos : Nat) : Scan := ⟨.ofNat pos, .ofNat image.recordEnd, false⟩

variable {image : Image}

theorem start_of (image : Image) :
    start (.of image.header) = .ok (of image Layout.headerSize) := by
  rw [start, Header.recordEnd_of]
  rfl

/-- The machine meets what the scan meets at an offset. -/
theorem next_of (haddr : Addressable image.bytes) {pos : Nat} (hpos : pos ≤ image.recordEnd) :
    (of image pos).next image.bytes =
      match image.recordAt pos with
      | none => .ok (none, (of image pos).finished)
      | some (.error e) => .ok (some (.error e), (of image pos).finished)
      | some (.ok s) => .ok (some (.ok (Entry.of image.bytes s)), of image s.next) := by
  have hend := toNat_of_le_size haddr image.recordEnd_le_size
  have hle := image.recordEnd_le_size
  have hstart := toNat_of_le_size haddr (Nat.le_trans hpos hle)
  have height : (8 : UInt64).toNat = 8 := rfl
  have hsize := haddr
  simp only [Addressable] at hsize
  have hprologue : (UInt64.ofNat (pos + 8)).toNat = pos + 8 :=
    UInt64.toNat_ofNat_of_lt' (show pos + 8 < 2 ^ 64 by omega)
  have hstop : (of image pos).stop.toNat = image.recordEnd := hend
  have hadd : add64 (of image pos).pos 8 = .ok (.ofNat (pos + 8)) :=
    add64_eq_ok hstart height (by omega)
  rw [next, if_neg (show ¬ (of image pos).done = true from Bool.false_ne_true), hadd, ok_bind,
    hstop, hprologue, Image.recordAt]
  -- At an offset the region may end, padding may start, or a record may be read.
  by_cases hroom : image.recordEnd < pos + 8
  · rw [if_pos hroom, if_pos (show image.recordEnd < pos + Record.prologueSize from hroom)]
    rfl
  rw [if_neg hroom, if_neg (show ¬ image.recordEnd < pos + Record.prologueSize from hroom)]
  simp only [of]
  rw [readLengths_eq, hstart, hend]
  cases hannounced : Stored.announced image.bytes pos image.recordEnd with
  | error e => rfl
  | ok s =>
    obtain ⟨hkeySize, -⟩ := Stored.sizes_lt_of_announced hannounced
    have hones : UInt32.ofNat s.keySize = 0xffffffff ↔ s.keySize = 0xffffffff := by
      rw [← UInt32.toNat_inj, UInt32.toNat_ofNat_of_lt' hkeySize]
      rfl
    simp only [Except.map, ok_bind]
    by_cases hkey : s.keySize = 0xffffffff
    · have hrest := toNat_of_le_size haddr (show image.recordEnd - pos ≤ image.bytes.size by omega)
      rw [if_pos (hones.2 hkey), if_pos hkey, sub64_eq_ok hend hstart hpos, ok_bind, hrest]
      by_cases hpadding : image.recordEnd - pos < Layout.alignment
      · rw [if_pos hpadding, if_pos hpadding]
        rfl
      · rw [if_neg hpadding, if_neg hpadding]
        rfl
    · rw [if_neg (mt hones.1 hkey), if_neg hkey, readEntry_eq, hstart, hend]
      cases hread : Stored.read image.bytes pos image.recordEnd with
      | error e => rfl
      | ok t =>
        have hnext := Nat.le_trans (Stored.read_eq_ok.1 hread).2 (Nat.min_le_right ..)
        simp only [Except.map, ok_bind]
        rw [Entry.next_of haddr hnext]
        rfl

/-- The feed of the records gives the scan. -/
theorem entries_gives (haddr : Addressable image.bytes) {pos : Nat} (hpos : pos ≤ image.recordEnd) :
    (entries image.bytes).Gives (Entry.of image.bytes) (image.scanFrom pos).failure
      (of image pos) (image.scanFrom pos).items := by
  have hends (it : Scan) : (entries image.bytes).Ends it.finished := ⟨_, _, rfl, rfl⟩
  fun_induction Image.scanFrom image pos with
  | case1 pos hrecord =>
    have hcall := next_of haddr hpos
    rw [hrecord] at hcall
    exact ⟨_, _, hcall, rfl⟩
  | case2 pos e hrecord =>
    have hcall := next_of haddr hpos
    rw [hrecord] at hcall
    exact ⟨_, hcall, hends _⟩
  | case3 pos s hrecord ih =>
    have hcall := next_of haddr hpos
    rw [hrecord] at hcall
    exact ⟨_, hcall, ih (Image.next_le_of_recordAt hrecord).2⟩

/-! ### Call by call -/

/-- What call number `n` of a scan gives, counted from 0. -/
def call (data : ByteArray) (it : Scan) : Nat → Except Trap (Option (Except Error Entry))
  | 0 => (it.next data).map Prod.fst
  | n + 1 =>
    match it.next data with
    | .error trap => .error trap
    | .ok (_, it') => it'.call data n

/-- A scan that is finished gives nothing for ever. -/
theorem call_finished (data : ByteArray) (it : Scan) (n : Nat) :
    it.finished.call data n = .ok none := by
  induction n with
  | zero => rfl
  | succ n ih => exact ih

/-- Each call of the machine gives what an iterator over the scan gives at its place. -/
theorem call_of (haddr : Addressable image.bytes) {pos : Nat} (hpos : pos ≤ image.recordEnd)
    (n : Nat) :
    (of image pos).call image.bytes n =
      .ok (((image.scanFrom pos).nth n).map (·.map (Entry.of image.bytes))) := by
  -- After an error or the end the machine gives nothing more, just as the scan has no more items.
  fun_induction Image.scanFrom image pos generalizing n with
  | case1 pos hrecord =>
    have hcall := next_of haddr hpos
    rw [hrecord] at hcall
    cases n with
    | zero => rw [call, hcall]; rfl
    | succ n => rw [call, hcall]; exact call_finished ..
  | case2 pos e hrecord =>
    have hcall := next_of haddr hpos
    rw [hrecord] at hcall
    cases n with
    | zero => rw [call, hcall]; rfl
    | succ n => rw [call, hcall]; exact call_finished ..
  | case3 pos s hrecord ih =>
    have hcall := next_of haddr hpos
    rw [hrecord] at hcall
    cases n with
    | zero => rw [call, hcall]; rfl
    | succ n =>
      rw [call, hcall, Walk.nth_cons_succ]
      exact ih (Image.next_le_of_recordAt hrecord).2 n

end ConstDb.Machine.Scan
