import ConstDb.Machine.Feed
import ConstDb.Machine.Format

/-! # Scanning with machine words

The scan of all records as the machine does it, call by call. -/

namespace ConstDb.Machine

/-- A scan that goes on from call to call. -/
structure Scan where
  /-- Where the next record starts. -/
  pos : UInt64
  /-- Where the record region ends. -/
  stop : UInt64
  done : Bool

namespace Scan

/-- The scan of a file before its first call. -/
def start (header : Header) : Except Trap Scan := do
  let stop ← header.recordEnd
  return ⟨.ofNat Layout.headerSize, stop, false⟩

/-- The scan that will find nothing more. -/
def finished (it : Scan) : Scan := { it with done := true }

/-- Goes on to the next record. -/
def next (data : ByteArray) (it : Scan) : Except Trap (Option (Except Error Entry) × Scan) :=
  if it.done then .ok (none, it.finished)
  else do
    let prologueEnd ← add64 it.pos 8
    if it.stop.toNat < prologueEnd.toNat then return (none, it.finished)
    else
      match ← readLengths data it.pos it.stop with
      | .error e => return (some (.error e), it.finished)
      | .ok (keySize, _) =>
        if keySize = 0xffffffff then
          let rest ← sub64 it.stop it.pos
          if rest.toNat < Layout.alignment then return (none, it.finished)
          else return (some (.error (.format it.pos.toNat .paddingInside)), it.finished)
        else
          match ← readEntry data it.pos it.stop with
          | .error e => return (some (.error e), it.finished)
          | .ok entry =>
            let pos ← entry.next
            return (some (.ok entry), { it with pos := pos })

/-- Bounds the calls that still give something: each record takes up a part of the region, and
behind an error there is nothing. -/
def left (it : Scan) : Nat := if it.done then 0 else it.stop.toNat - it.pos.toNat + 1

theorem left_lt_of_next {data : ByteArray} {it it' : Scan} {r : Except Error Entry}
    (h : it.next data = .ok (some r, it')) : it'.left < it.left := by
  unfold next at h
  split at h
  · simp at h
  · rename_i hdone
    have hleft : it.left = it.stop.toNat - it.pos.toNat + 1 := if_neg hdone
    have hfinished : it.finished.left < it.left := by
      rw [hleft]
      exact Nat.succ_pos _
    have height : (8 : UInt64).toNat = 8 := rfl
    obtain ⟨prologueEnd, hprologue, h⟩ := bind_eq_ok.1 h
    have hprologueEnd := of_add64_eq_ok hprologue
    -- A scan that is finished has nothing left, so only the last way to go on needs the record.
    split at h
    · simp at h
    · rename_i hroom
      obtain ⟨lengths, -, h⟩ := bind_eq_ok.1 h
      split at h
      · simp only [pure_eq_ok, Except.ok.injEq, Prod.mk.injEq] at h
        exact h.2 ▸ hfinished
      · split at h
        · obtain ⟨rest, -, h⟩ := bind_eq_ok.1 h
          split at h
          · simp at h
          · simp only [pure_eq_ok, Except.ok.injEq, Prod.mk.injEq] at h
            exact h.2 ▸ hfinished
        · obtain ⟨result, hread, h⟩ := bind_eq_ok.1 h
          split at h
          · simp only [pure_eq_ok, Except.ok.injEq, Prod.mk.injEq] at h
            exact h.2 ▸ hfinished
          · obtain ⟨pos, hpos, h⟩ := bind_eq_ok.1 h
            simp only [pure_eq_ok, Except.ok.injEq, Prod.mk.injEq] at h
            obtain ⟨-, rfl⟩ := h
            have hlt := Entry.lt_of_next hpos
            rw [offset_of_readEntry hread] at hlt
            rw [hleft, left, if_neg hdone]
            simp only
            omega

/-- The records of a file. -/
def entries (data : ByteArray) : Feed Scan Entry where
  next := next data
  left := left
  left_lt := left_lt_of_next

end Scan

end ConstDb.Machine
