import ConstDb.Machine.Probe
import ConstDb.Proofs.Image.Reach
import ConstDb.Proofs.Machine.Feed
import ConstDb.Proofs.Machine.Format
import Mathlib.Data.List.Nodup

/-! # Searches with machine words

A search with machine words never traps, whatever the slots and the records hold, and finds what
the search with numbers finds.  However often it is called, it looks at no slot twice.

## Key results

- `Machine.Probe.start?_of`, `Machine.Probe.next_of`: the start and the steps of a search
- `Machine.Probe.hits_gives`: all records of a key
- `Machine.Probe.after_of`: what a search has looked at behind any number of calls
-/

namespace ConstDb.Machine

/-- A file with its header, as the machine holds it. -/
def Mapped.of (image : Image) : Mapped := ⟨image.bytes, .of image.header⟩

/-- The same record, with machine words. -/
def Hit.of (h : ConstDb.Hit) : Hit where
  offset := .ofNat h.stored.offset
  keyStart := .ofNat h.stored.keyStart
  keySize := .ofNat h.stored.keySize
  valueStart := .ofNat h.stored.valueStart
  valueSize := .ofNat h.stored.valueSize
  probes := .ofNat h.probes

/-- The same search, with machine words, which has looked at some slots. -/
def Probe.of (p : ConstDb.Probe) (seen : List UInt32) : Probe where
  hash := p.hash
  table := p.bucket.start
  slots := p.bucket.slots
  slot := .ofNat p.slot
  probed := .ofNat p.probed
  seen := seen

variable {image : Image} {key : ByteArray}

theorem toNat_of_le_size {n : Nat} (haddr : Addressable image.bytes) (h : n ≤ image.bytes.size) :
    (UInt64.ofNat n).toNat = n :=
  UInt64.toNat_ofNat_of_lt' (Nat.lt_of_le_of_lt h (Nat.lt_trans haddr (by decide)))

/-! ### Headers -/

theorem Header.recordEnd_of (image : Image) :
    (Header.of image.header).recordEnd = .ok (.ofNat image.recordEnd) := by
  have hitem : item image.header.buckets.toArray 0 = .ok image.header.buckets[0] := by
    rw [item_eq_ok (by simp)]
    rfl
  simp only [Header.recordEnd, Header.of, hitem, ok_bind, pure_eq_ok, Image.recordEnd,
    ConstDb.Header.recordEnd, UInt64.ofNat_toNat]

theorem toNat_bucketOf (hash : UInt32) : (bucketOf hash).toNat = (Hash.bucketOf hash).val := by
  rw [bucketOf, UInt32.toNat_toUInt64, UInt32.toNat_and]
  exact Nat.and_two_pow_sub_one_eq_mod hash.toNat 8

theorem Header.bucket_of (header : ConstDb.Header) (hash : UInt32) :
    (Header.of header).bucket (bucketOf hash) = .ok (header.bucket (Hash.bucketOf hash)) := by
  have hlt : (bucketOf hash).toNat < (Header.of header).buckets.size := by
    rw [toNat_bucketOf]
    simp [Header.of]
  rw [Header.bucket, item_eq_ok hlt, Except.ok.injEq]
  simp only [Header.of, toNat_bucketOf, ConstDb.Header.bucket]
  rfl

/-! ### Hits -/

/-- The value of a record that was found can be cut out. -/
theorem Hit.value_of (haddr : Addressable image.bytes) {hit : ConstDb.Hit}
    (h : hit.Sound image key) : (Hit.of hit).value image.bytes = .ok (hit.value image) := by
  have hnext : hit.stored.next = hit.stored.valueStart + hit.stored.valueSize := rfl
  have hle := Nat.le_trans h.next_le image.recordEnd_le_size
  have hstart := toNat_of_le_size haddr (show hit.stored.valueStart ≤ image.bytes.size by omega)
  have hstop := toNat_of_le_size haddr hle
  have hsize := toNat_widened (Stored.sizes_lt_of_read h.read_eq).2
  simp only [Addressable] at haddr
  simp only [Hit.value, Hit.of]
  rw [add64_eq_ok hstart hsize (by omega), ← hnext, ok_bind,
    slice_eq_ok hstart hstop (by omega) hle]
  rfl

/-! ### The start of a search -/

theorem startSlot_eq (hash : UInt32) {slots : UInt32} (h : slots ≠ 0) :
    startSlot hash slots = .ok (.ofNat (Hash.startSlot hash slots.toNat)) := by
  have hshift : (hash >>> 8).toNat = hash.toNat / 256 := by
    rw [UInt32.toNat_shiftRight]
    exact Nat.shiftRight_eq_div_pow hash.toNat 8
  rw [startSlot, rem32_eq_ok h, hshift, Hash.startSlot]

/-- The machine starts a search where it starts. -/
theorem Probe.start?_of (image : Image) (key : ByteArray) :
    Probe.start? (.of image.header) key =
      .ok ((ConstDb.Probe.start? image key).map fun p => .of p []) := by
  rw [Probe.start?, Header.bucket_of, ok_bind, ConstDb.Probe.start?]
  by_cases hslots : (image.header.bucket (Hash.bucketOf (Hash.ofBytes key))).slots = 0
  · rw [if_pos hslots, if_pos hslots]
    rfl
  · rw [if_neg hslots, if_neg hslots, startSlot_eq _ hslots]
    rfl

/-! ### The steps of a search -/

namespace Probe

variable {p : ConstDb.Probe} {seen : List UInt32}

theorem exhausted_of (p : ConstDb.Probe) (seen : List UInt32) :
    (of p seen).exhausted = of p.exhausted seen := by
  simp only [exhausted, of, ConstDb.Probe.exhausted, ConstDb.Probe.slotCount, UInt32.ofNat_toNat]

/-- Turning to the next slot does not overflow: the slot is one of the table. -/
theorem turn_of (h : p.InTable image) : (of p seen).turn = .ok (of p.turn seen) := by
  have hslots := p.bucket.slots.toNat_lt
  have hlt : p.slot < p.bucket.slots.toNat := h.slot_lt
  have hslot : (UInt32.ofNat p.slot).toNat = p.slot :=
    UInt32.toNat_ofNat_of_lt' (Nat.lt_trans hlt hslots)
  have hone : (1 : UInt32).toNat = 1 := rfl
  have hnext : (UInt32.ofNat (p.slot + 1)).toNat = p.slot + 1 :=
    UInt32.toNat_ofNat_of_lt' (show p.slot + 1 < 2 ^ 32 by omega)
  have hlast : UInt32.ofNat (p.slot + 1) = p.bucket.slots ↔ p.slot + 1 = p.bucket.slots.toNat := by
    rw [← UInt32.toNat_inj, hnext]
  have hadd : add32 (of p seen).slot 1 = .ok (.ofNat (p.slot + 1)) :=
    add32_eq_ok hslot hone (by omega)
  have hturned : (if UInt32.ofNat (p.slot + 1) = (of p seen).slots then (0 : UInt32)
      else .ofNat (p.slot + 1)) = .ofNat (if p.slot + 1 = p.slotCount then 0 else p.slot + 1) := by
    by_cases hend : p.slot + 1 = p.bucket.slots.toNat
    · exact (if_pos (hlast.2 hend)).trans (congrArg UInt32.ofNat (if_pos hend).symm)
    · exact (if_neg (mt hlast.1 hend)).trans (congrArg UInt32.ofNat (if_neg hend).symm)
  rw [turn, hadd, ok_bind, hturned]
  rfl

/-- Counting an entry does not overflow: there are no more entries than slots. -/
theorem tick_of (h : p.probed < p.slotCount) : (of p seen).tick = .ok (of p.tick seen) := by
  have hslots : p.slotCount < 2 ^ 32 := p.bucket.slots.toNat_lt
  have hprobed : (UInt32.ofNat p.probed).toNat = p.probed :=
    UInt32.toNat_ofNat_of_lt' (Nat.lt_trans h hslots)
  have hone : (1 : UInt32).toNat = 1 := rfl
  simp only [tick, of, ConstDb.Probe.tick]
  rw [add32_eq_ok hprobed hone (by omega)]
  rfl

/-- The slot of a search lies inside the file, so its position does not overflow. -/
theorem read_of (haddr : Addressable image.bytes) (h : p.InTable image) :
    (of p seen).read (.of image) = .ok (.ok (image.slotAt p.bucket p.slot)) := by
  obtain ⟨i, hi⟩ := h.bucket_eq
  have hlt : p.slot < p.bucket.slots.toNat := h.slot_lt
  obtain ⟨-, hin⟩ := image.slot_le_size i (hi ▸ hlt)
  rw [← hi] at hin
  have hslot := toNat_widened (Nat.lt_trans hlt p.bucket.slots.toNat_lt)
  have hwidth : image.header.width = image.width := rfl
  have hoffset := toNat_of_le_size haddr (show p.slot * image.width.bytes ≤ _ by omega)
  have hsum : p.bucket.start.toNat + p.slot * image.width.bytes < 2 ^ 64 := by
    simp only [Addressable] at haddr
    omega
  have hpos : (UInt64.ofNat (p.bucket.start.toNat + p.slot * image.width.bytes)).toNat =
      p.bucket.start.toNat + p.slot * image.width.bytes := UInt64.toNat_ofNat_of_lt' hsum
  simp only [read, of, Mapped.of, Header.of, hwidth]
  rw [shl64_eq_ok hslot (toNat_shift _) (shift_lt _), ← bytes_eq_two_pow, ok_bind,
    add64_eq_ok rfl hoffset hsum, ok_bind, readSlot_eq haddr, hpos]
  exact congrArg Except.ok h.read_eq

/-- The machine examines an entry as it is examined. -/
theorem examine_of (haddr : Addressable image.bytes) (hash : UInt32) (key : ByteArray)
    (slot : Slot) (probes : Nat) :
    examine (.of image) hash key slot (.ofNat probes) =
      .ok ((ConstDb.Probe.examine image hash key slot).map fun found =>
        found.map fun s => Hit.of ⟨s, probes⟩) := by
  rw [examine, ConstDb.Probe.examine]
  -- Machine and search check the same things in the same order.
  by_cases hhash : slot.hash ≠ hash
  · rw [if_pos hhash, if_pos hhash]
    rfl
  rw [if_neg hhash, if_neg hhash]
  by_cases hsize : slot.keySize.any fun size => decide (size.toNat ≠ key.size)
  · rw [if_pos hsize, if_pos hsize]
    rfl
  have hend := toNat_of_le_size haddr image.recordEnd_le_size
  rw [if_neg hsize, if_neg hsize]
  simp only [Mapped.of]
  rw [Header.recordEnd_of, ok_bind, readLengths_eq, hend]
  cases hannounced : Stored.announced image.bytes slot.offset.toNat image.recordEnd with
  | error e => rfl
  | ok s =>
    obtain ⟨hle, hs⟩ := Stored.announced_eq_ok.1 hannounced
    obtain ⟨hkeySize, -⟩ := Stored.sizes_lt_of_announced hannounced
    have hkeyword : (UInt32.ofNat s.keySize).toNat = s.keySize := UInt32.toNat_ofNat_of_lt' hkeySize
    simp only [Except.map, ok_bind]
    rw [hkeyword]
    by_cases hkey : s.keySize ≠ key.size
    · rw [if_pos hkey, if_pos hkey]
      rfl
    have hread : Stored.read image.bytes slot.offset.toNat image.recordEnd =
        (s.check image.bytes image.recordEnd).map fun _ => s := by rw [Stored.read, hannounced]
    rw [if_neg hkey, if_neg hkey, readEntry_eq, hend, hread]
    cases hcheck : s.check image.bytes image.recordEnd with
    | error e => rfl
    | ok u =>
      simp only [Except.map, ok_bind, Entry.of]
      by_cases hsame : s.key image.bytes = key
      · have hnext := Stored.check_eq_ok.1 hcheck
        simp only [Stored.next, Stored.valueStart, Stored.keyStart, Record.prologueSize] at hnext
        simp only [Addressable] at haddr
        have hoffset : s.offset = slot.offset.toNat := by rw [hs]
        have height : (8 : UInt64).toNat = 8 := rfl
        have hkeyStart : (UInt64.ofNat (slot.offset.toNat + 8)).toNat = slot.offset.toNat + 8 :=
          UInt64.toNat_ofNat_of_lt' (show slot.offset.toNat + 8 < 2 ^ 64 by omega)
        rw [if_pos hsame, if_pos hsame, add64_eq_ok rfl height (by omega), ok_bind,
          add64_eq_ok hkeyStart (toNat_widened hkeySize) (by omega), ok_bind, ← hoffset]
        have hword : slot.offset = .ofNat s.offset := by rw [hoffset, UInt64.ofNat_toNat]
        rw [hword]
        rfl
      · rw [if_neg hsame, if_neg hsame]
        rfl

/-- One slot of a search, where nothing traps. -/
private theorem next_eq {m : Mapped} (key : ByteArray) {p turned q : Probe} {slot : Slot}
    (hlt : p.probed.toNat < p.slots.toNat) (hread : p.read m = .ok (.ok slot))
    (hturn : p.look.turn = .ok turned) (htick : turned.tick = .ok q) :
    p.next m key =
      if slot.isVacant then .ok (.ok none, turned.exhausted)
      else
        match examine m p.hash key slot q.probed with
        | .error t => .error t
        | .ok (.error e) => .ok (.error e, q)
        | .ok (.ok (some hit)) => .ok (.ok (some hit), q)
        | .ok (.ok none) => q.next m key := by
  rw [next, dif_pos hlt, hread]
  simp only
  split
  · rename_i h
    cases hturn.symm.trans h
  · rename_i h
    cases hturn.symm.trans h
    split
    · rfl
    · split
      · rename_i h
        cases htick.symm.trans h
      · rename_i h
        cases htick.symm.trans h
        rfl

/-- The machine goes on to the next record as the search does, and looks only at slots of its
route. -/
theorem next_of (haddr : Addressable image.bytes) (h : p.InTable image) (key : ByteArray)
    (seen : List UInt32) :
    ∃ seen', (of p seen).next (.of image) key =
        .ok ((p.next image key).1.map fun hit => hit.map Hit.of, of (p.next image key).2 seen') ∧
      seen'.reverse.map UInt32.toNat ++ (p.next image key).2.route <+:
        seen.reverse.map UInt32.toNat ++ p.route := by
  -- The induction is on the number of slots that were not looked at yet.
  generalize hn : p.slotCount - p.probed = n
  induction n generalizing p seen with
  | zero =>
    have hprobed : (of p seen).probed = (of p seen).slots := by
      have hall : p.probed = p.bucket.slots.toNat :=
        Nat.le_antisymm h.probed_le (Nat.sub_eq_zero_iff_le.1 hn)
      simp only [of]
      rw [hall, UInt32.ofNat_toNat]
    refine ⟨seen, ?_, ?_⟩
    · rw [next, dif_neg (by rw [hprobed]; exact Nat.lt_irrefl _), exhausted_of,
        ConstDb.Probe.next, dif_neg (by omega)]
      rfl
    · rw [ConstDb.Probe.next, dif_neg (by omega), p.exhausted.route_of_le (Nat.le_refl _)]
      exact (List.prefix_append_right_inj _).2 (List.nil_prefix)
  | succ n ih =>
    have hlt : p.probed < p.slotCount := by omega
    have hslots : p.slotCount < 2 ^ 32 := p.bucket.slots.toNat_lt
    have hprobed : (of p seen).probed.toNat = p.probed :=
      UInt32.toNat_ofNat_of_lt' (Nat.lt_trans hlt hslots)
    have hslot : (UInt32.ofNat p.slot).toNat = p.slot :=
      UInt32.toNat_ofNat_of_lt' (Nat.lt_trans h.slot_lt hslots)
    have htail := h.turn_tick hlt
    -- Behind the slot, the list of slots that were looked at and the route are what they were.
    have htrail : (UInt32.ofNat p.slot :: seen).reverse.map UInt32.toNat ++ p.turn.tick.route =
        seen.reverse.map UInt32.toNat ++ p.route := by
      rw [ConstDb.Probe.route_of_lt h.slot_lt hlt, List.reverse_cons, List.map_append,
        List.map_singleton, hslot, List.append_assoc]
      rfl
    have hlook : (of p seen).look = of p (.ofNat p.slot :: seen) := rfl
    have hstep := next_eq key (show (of p seen).probed.toNat < (of p seen).slots.toNat by
        rw [hprobed]; exact hlt) (read_of haddr h) (hlook ▸ turn_of h) (tick_of (p := p.turn) hlt)
    rw [hstep, ConstDb.Probe.next, dif_pos hlt, h.read_eq]
    simp only
    by_cases hvacant : (image.slotAt p.bucket p.slot).isVacant
    · rw [if_pos hvacant, if_pos hvacant, exhausted_of]
      refine ⟨.ofNat p.slot :: seen, rfl, ?_⟩
      rw [p.turn.exhausted.route_of_le (Nat.le_refl _), ← htrail]
      exact (List.prefix_append_right_inj _).2 List.nil_prefix
    · rw [if_neg hvacant, if_neg hvacant]
      have hexamine : examine (.of image) (of p seen).hash key (image.slotAt p.bucket p.slot)
          (of p.turn.tick (.ofNat p.slot :: seen)).probed = _ :=
        examine_of haddr p.hash key (image.slotAt p.bucket p.slot) (p.probed + 1)
      rw [hexamine]
      cases ConstDb.Probe.examine image p.hash key (image.slotAt p.bucket p.slot) with
      | error e => exact ⟨.ofNat p.slot :: seen, rfl, htrail ▸ List.prefix_rfl⟩
      | ok found =>
        cases found with
        | some s => exact ⟨.ofNat p.slot :: seen, rfl, htrail ▸ List.prefix_rfl⟩
        | none =>
          obtain ⟨seen', hnext, hprefix⟩ := ih htail (.ofNat p.slot :: seen)
            (show p.slotCount - (p.probed + 1) = n by omega)
          exact ⟨seen', hnext, htrail ▸ hprefix⟩

/-- The feed of the records of a key gives the hits of the search. -/
theorem hits_gives (haddr : Addressable image.bytes) (h : p.InTable image) (key : ByteArray)
    (seen : List UInt32) :
    (hits (.of image) key).Gives Hit.of (p.hits image key).failure (some (of p seen))
      (p.hits image key).items := by
  have hends : (hits (.of image) key).Ends none := ⟨none, none, rfl, rfl⟩
  -- Each call that hits leaves fewer slots to look at.
  generalize hn : p.slotCount - p.probed = n
  induction n using Nat.strongRecOn generalizing p seen with
  | ind n ih =>
    obtain ⟨seen', hnext, -⟩ := next_of haddr h key seen
    have hbehind := h.next key
    rw [ConstDb.Probe.hits_eq_match]
    cases hmodel : p.next image key with
    | mk result q =>
      rw [hmodel] at hnext hbehind
      simp only at hnext hbehind
      have hcall : (hits (.of image) key).next (some (of p seen)) = nextHit (.of image) key
        (some (of p seen)) := rfl
      rw [nextHit, hnext] at hcall
      cases result with
      | error e => exact ⟨none, hcall, hends⟩
      | ok found =>
        cases found with
        | none => exact ⟨none, none, hcall, rfl⟩
        | some hit =>
          obtain ⟨hlt, hle, hsame⟩ := ConstDb.Probe.probed_lt_of_next hmodel
          exact ⟨some (of q seen'), hcall, ih _ (by omega) hbehind seen' rfl⟩

/-- The feed of the records of a key gives all that the index leads to. -/
theorem hits_gives_all (haddr : Addressable image.bytes) (key : ByteArray) :
    (hits (.of image) key).Gives Hit.of (image.hits key).failure
      ((ConstDb.Probe.start? image key).map fun p => of p []) (image.hits key).items := by
  unfold Image.hits
  cases hstart : ConstDb.Probe.start? image key with
  | none => exact ⟨none, none, rfl, rfl⟩
  | some p => exact hits_gives haddr (ConstDb.Probe.inTable_of_start? hstart) key []

/-- However often a search is called, it has looked at slots of its route only, one after the
other. -/
theorem after_of (haddr : Addressable image.bytes) (h : p.InTable image) (key : ByteArray)
    (seen : List UInt32) (n : Nat) :
    ∃ q, (of p seen).after (.of image) key n = .ok q ∧
      q.seen.reverse.map UInt32.toNat <+: seen.reverse.map UInt32.toNat ++ p.route := by
  induction n generalizing p seen with
  | zero => exact ⟨of p seen, rfl, List.prefix_append _ _⟩
  | succ n ih =>
    obtain ⟨seen', hnext, hprefix⟩ := next_of haddr h key seen
    obtain ⟨q, hafter, hseen⟩ := ih (h.next key) seen'
    refine ⟨q, ?_, hseen.trans hprefix⟩
    rw [after, hnext]
    exact hafter

/-- However often a search for a key is called, it looks at no slot twice, and only at slots of the
bucket of the key. -/
theorem nodup_seen (haddr : Addressable image.bytes) (key : ByteArray) {p : Probe}
    (hstart : start? (.of image.header) key = .ok (some p)) (n : Nat) :
    ∃ q, p.after (.of image) key n = .ok q ∧ q.seen.Nodup ∧
      (∀ slot ∈ q.seen,
        slot < (image.header.bucket (Hash.bucketOf (Hash.ofBytes key))).slots) ∧
      q.seen.length ≤ (image.header.bucket (Hash.bucketOf (Hash.ofBytes key))).slots.toNat := by
  rw [start?_of] at hstart
  cases hp : ConstDb.Probe.start? image key with
  | none => simp [hp] at hstart
  | some p' =>
    obtain rfl : of p' [] = p := by simpa [hp] using hstart
    obtain ⟨hhash, hbucket, -, -, hprobed⟩ := ConstDb.Probe.start?_eq_some_iff.1 hp
    rw [hhash] at hbucket
    obtain ⟨q, hafter, hprefix⟩ :=
      after_of haddr (ConstDb.Probe.inTable_of_start? hp) key [] n
    -- What was looked at is a front of the route, which meets each slot of the bucket once.
    have hsub : (q.seen.reverse.map UInt32.toNat).Sublist p'.route := hprefix.sublist
    have hnodup := hsub.nodup p'.nodup_route
    rw [← hbucket]
    refine ⟨q, hafter, ?_, ?_, ?_⟩
    · exact List.nodup_reverse.1 (hnodup.of_map UInt32.toNat)
    · intro slot hslot
      have hmem : slot.toNat ∈ q.seen.reverse.map UInt32.toNat :=
        List.mem_map_of_mem (List.mem_reverse.2 hslot)
      exact UInt32.lt_iff_toNat_lt.2 (ConstDb.Probe.lt_of_mem_route (hsub.subset hmem))
    · have hlength := hsub.length_le
      rw [List.length_map, List.length_reverse, ConstDb.Probe.length_route, hprobed] at hlength
      exact hlength

end Probe

end ConstDb.Machine
