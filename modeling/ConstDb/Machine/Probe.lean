import ConstDb.Hash
import ConstDb.Machine.Feed
import ConstDb.Machine.Format

/-! # Probing with machine words

A search for the records of a key as the machine does it.  The state of a search is made of words,
and goes on from call to call.  A search also keeps a list of the slots that it has looked at;
nothing that it does depends on that list. -/

namespace ConstDb.Machine

/-- A file in memory, with its header. -/
structure Mapped where
  data : ByteArray
  header : Header

/-- A record that a search met. -/
structure Hit where
  offset : UInt64
  keyStart : UInt64
  keySize : UInt32
  valueStart : UInt64
  valueSize : UInt32
  /-- How many entries the search had looked at by then. -/
  probes : UInt32

/-- The value that was found. -/
def Hit.value (data : ByteArray) (h : Hit) : Except Trap ByteArray := do
  let stop ← add64 h.valueStart h.valueSize.toUInt64
  slice data h.valueStart stop

/-- The bucket that a hash belongs to. -/
def bucketOf (hash : UInt32) : UInt64 := (hash &&& 255).toUInt64

/-- The slot where the search for a hash starts. -/
def startSlot (hash slots : UInt32) : Except Trap UInt32 := rem32 (hash >>> 8) slots

/-- A search for the records of a key, between two hits. -/
structure Probe where
  hash : UInt32
  /-- Where the table of the bucket starts. -/
  table : UInt64
  slots : UInt32
  /-- The slot to look at next. -/
  slot : UInt32
  /-- How many entries were looked at. -/
  probed : UInt32
  /-- The slots that were looked at, the last one first. -/
  seen : List UInt32

namespace Probe

/-- The search for a key before its first step. -/
def start? (header : Header) (key : ByteArray) : Except Trap (Option Probe) := do
  let hash := Hash.ofBytes key
  let bucket ← header.bucket (bucketOf hash)
  if bucket.slots = 0 then return none
  else
    let slot ← startSlot hash bucket.slots
    return some ⟨hash, bucket.start, bucket.slots, slot, 0, []⟩

/-- Notes that the slot where the search stands is looked at. -/
def look (p : Probe) : Probe := { p with seen := p.slot :: p.seen }

/-- Turns to the slot behind; the first one is behind the last. -/
def turn (p : Probe) : Except Trap Probe := do
  let slot ← add32 p.slot 1
  return { p with slot := if slot = p.slots then 0 else slot }

/-- Counts an entry that was looked at. -/
def tick (p : Probe) : Except Trap Probe := do
  let probed ← add32 p.probed 1
  return { p with probed := probed }

/-- The search that will find nothing more. -/
def exhausted (p : Probe) : Probe := { p with probed := p.slots }

/-- Reads the slot where the search stands. -/
def read (m : Mapped) (p : Probe) : Except Trap (Except Error Slot) := do
  let offset ← shl64 p.slot.toUInt64 (shift m.header.width)
  let pos ← add64 p.table offset
  readSlot m.data pos m.header.width

/-- Whether the entry of a slot leads to a record with a key of the given hash, and to which. -/
def examine (m : Mapped) (hash : UInt32) (key : ByteArray) (slot : Slot) (probes : UInt32) :
    Except Trap (Except Error (Option Hit)) :=
  if slot.hash ≠ hash then .ok (.ok none)
  else if slot.keySize.any fun size => decide (size.toNat ≠ key.size) then .ok (.ok none)
  else do
    let recordEnd ← m.header.recordEnd
    match ← readLengths m.data slot.offset recordEnd with
    | .error e => return .error e
    | .ok (keySize, valueSize) =>
      if keySize.toNat ≠ key.size then return .ok none
      else
        match ← readEntry m.data slot.offset recordEnd with
        | .error e => return .error e
        | .ok entry =>
          if entry.key = key then
            let keyStart ← add64 slot.offset 8
            let valueStart ← add64 keyStart keySize.toUInt64
            return .ok (some ⟨slot.offset, keyStart, keySize, valueStart, valueSize, probes⟩)
          else return .ok none

/-- Turning leaves everything but the slot as it is. -/
theorem of_turn_eq_ok {p q : Probe} (h : p.turn = .ok q) :
    q.slots = p.slots ∧ q.probed.toNat = p.probed.toNat := by
  unfold turn at h
  cases hadd : add32 p.slot 1 with
  | error t => rw [hadd] at h; cases h
  | ok slot =>
    rw [hadd] at h
    cases h
    exact ⟨rfl, rfl⟩

/-- Counting an entry raises the count by one. -/
theorem of_tick_eq_ok {p q : Probe} (h : p.tick = .ok q) :
    q.slots = p.slots ∧ q.probed.toNat = p.probed.toNat + 1 := by
  unfold tick at h
  have hone : (1 : UInt32).toNat = 1 := rfl
  by_cases hfits : p.probed.toNat + (1 : UInt32).toNat < 2 ^ 32
  · rw [add32_eq_ok rfl rfl hfits, ok_bind] at h
    cases h
    exact ⟨rfl, UInt32.toNat_ofNat_of_lt' hfits⟩
  · rw [add32, if_neg hfits] at h
    cases h

/-- Goes on to the next record of the key. -/
def next (m : Mapped) (key : ByteArray) (p : Probe) :
    Except Trap (Except Error (Option Hit) × Probe) :=
  if _h : p.probed.toNat < p.slots.toNat then
    match p.read m with
    | .error t => .error t
    | .ok (.error e) => .ok (.error e, p.look)
    | .ok (.ok slot) =>
      match _hturn : p.look.turn with
      | .error t => .error t
      | .ok turned =>
        if slot.isVacant then .ok (.ok none, turned.exhausted)
        else
          match _htick : turned.tick with
          | .error t => .error t
          | .ok q =>
            match examine m p.hash key slot q.probed with
            | .error t => .error t
            | .ok (.error e) => .ok (.error e, q)
            | .ok (.ok (some hit)) => .ok (.ok (some hit), q)
            | .ok (.ok none) => next m key q
  else .ok (.ok none, p.exhausted)
termination_by p.slots.toNat - p.probed.toNat
decreasing_by
  obtain ⟨hslots, hprobed⟩ := of_turn_eq_ok _hturn
  obtain ⟨hslots', hprobed'⟩ := of_tick_eq_ok _htick
  simp only [look] at hslots hprobed
  rw [hslots', hprobed', hslots, hprobed]
  omega

/-- A search that hit has looked at more entries of the same table. -/
theorem probed_lt_of_next {m : Mapped} {key : ByteArray} {p q : Probe} {hit : Hit}
    (h : p.next m key = .ok (.ok (some hit), q)) :
    p.probed.toNat < q.probed.toNat ∧ p.probed.toNat < p.slots.toNat ∧ q.slots = p.slots := by
  fun_induction next m key p with
  | case8 p hlt slot _ turned hturn _ q' htick hit' _ =>
    obtain ⟨hslots, hprobed⟩ := of_turn_eq_ok hturn
    obtain ⟨hslots', hprobed'⟩ := of_tick_eq_ok htick
    simp only [Except.ok.injEq, Prod.mk.injEq] at h
    obtain ⟨-, rfl⟩ := h
    simp only [look] at hslots hprobed
    exact ⟨by omega, hlt, hslots'.trans hslots⟩
  | case9 p hlt slot _ turned hturn _ q' htick _ ih =>
    obtain ⟨hslots, hprobed⟩ := of_turn_eq_ok hturn
    obtain ⟨hslots', hprobed'⟩ := of_tick_eq_ok htick
    obtain ⟨hlt', -, hsame⟩ := ih h
    simp only [look] at hslots hprobed
    exact ⟨by omega, hlt, hsame.trans (hslots'.trans hslots)⟩
  | _ => simp at h

/-- The search behind some number of calls, whatever they give. -/
def after (m : Mapped) (key : ByteArray) : Nat → Probe → Except Trap Probe
  | 0, p => .ok p
  | n + 1, p =>
    match p.next m key with
    | .error t => .error t
    | .ok (_, q) => after m key n q

/-- The next record of a key.  Behind the last one, and behind an error, there is no search any
more. -/
def nextHit (m : Mapped) (key : ByteArray) :
    Option Probe → Except Trap (Option (Except Error Hit) × Option Probe)
  | none => .ok (none, none)
  | some p =>
    match p.next m key with
    | .error t => .error t
    | .ok (.error e, _) => .ok (some (.error e), none)
    | .ok (.ok none, _) => .ok (none, none)
    | .ok (.ok (some hit), q) => .ok (some (.ok hit), some q)

/-- The records of a key. -/
def hits (m : Mapped) (key : ByteArray) : Feed (Option Probe) Hit where
  next := nextHit m key
  left
    | none => 0
    | some p => p.slots.toNat - p.probed.toNat + 1
  left_lt {o o' r} h := by
    cases o with
    | none => simp [nextHit] at h
    | some p =>
      rw [nextHit] at h
      split at h
      · cases h
      · simp only [Except.ok.injEq, Prod.mk.injEq] at h
        obtain ⟨-, rfl⟩ := h
        exact Nat.succ_pos _
      · simp at h
      · rename_i hit q hnext
        obtain ⟨hlt, hlt', hslots⟩ := probed_lt_of_next hnext
        simp only [Except.ok.injEq, Prod.mk.injEq] at h
        obtain ⟨-, rfl⟩ := h
        simp only [hslots]
        omega

end Probe

end ConstDb.Machine
