import ConstDb.Image.Query
import ConstDb.Proofs.Layout.Codec
import ConstDb.Proofs.Layout.Tables
import Mathlib.Data.Nat.ModEq

/-! # The route of a probe

A probe that stands at a slot of a table (`Probe.InTable`) looks at the slots from there on, around
the end of the table, and at none of them twice: this is its `route`.  What it finds is said by
`Probe.gather`, a walk along a plain list of slots, without any state.

## Key results

- `Probe.examine_of_carries`, `Probe.examine_of_not_carries`: which slots lead to a record
- `Probe.nodup_route`, `Probe.length_route`: no slot comes twice, and there are at most as many as
  the table has
- `Probe.hits_eq_gather`: the hits of a probe are those along its route
- `Image.hits_eq`: the hits of a key are those along the slots of its bucket, from its start slot on
-/

namespace ConstDb

/-- A slot of a table, as it stands in the file. -/
def Image.slotAt (image : Image) (b : Bucket) (i : Nat) : Slot :=
  Slot.decode image.width image.bytes (b.start.toNat + i * image.width.bytes)

/-- A slot whose record a lookup of the key has to look at: it carries the hash of the key and, if
it holds a length, that of the key. -/
structure Slot.Carries (slot : Slot) (key : ByteArray) : Prop where
  hash_eq : slot.hash = Hash.ofBytes key
  keySize_eq : ∀ size, slot.keySize = some size → size.toNat = key.size

namespace Probe

/-! ### Single slots -/

section

variable {image : Image} {key : ByteArray} {slot : Slot}

/-- Other slots are passed over. -/
theorem examine_of_not_carries (h : ¬slot.Carries key) :
    examine image (Hash.ofBytes key) key slot = .ok none := by
  unfold examine
  by_cases hhash : slot.hash = Hash.ofBytes key
  · rw [if_neg (by simpa using hhash)]
    cases hsize : slot.keySize with
    | none => exact absurd ⟨hhash, by simp [hsize]⟩ h
    | some size =>
      have hne : size.toNat ≠ key.size := by
        intro heq
        refine h ⟨hhash, fun size' h' => ?_⟩
        cases hsize.symm.trans h'
        exact heq
      rw [if_pos (by simpa using hne)]
  · rw [if_pos hhash]

/-- Of a slot of the key only the offset matters. -/
theorem examine_of_carries (h : slot.Carries key) :
    examine image (Hash.ofBytes key) key slot =
      match Stored.announced image.bytes slot.offset.toNat image.recordEnd with
      | .error e => .error e
      | .ok s =>
        if s.keySize ≠ key.size then .ok none
        else (s.check image.bytes image.recordEnd).map fun () =>
          if s.key image.bytes = key then some s else none := by
  have hsize : slot.keySize.any (fun size => decide (size.toNat ≠ key.size)) = false := by
    cases hsize : slot.keySize with
    | none => rfl
    | some size => simp [h.keySize_eq size hsize]
  unfold examine
  rw [if_neg (by simp [h.hash_eq]), hsize, if_neg Bool.false_ne_true]
  cases Stored.announced image.bytes slot.offset.toNat image.recordEnd with
  | error e => rfl
  | ok s =>
    simp only
    split
    · rfl
    · cases s.check image.bytes image.recordEnd with
      | error e => rfl
      | ok u =>
        simp only [Except.map]
        split <;> rfl

end

/-! ### Routes -/

/-- The probe stands at a slot of a table of the image. -/
structure InTable (image : Image) (p : Probe) : Prop where
  bucket_eq : ∃ i, p.bucket = image.header.bucket i
  slot_lt : p.slot < p.slotCount
  probed_le : p.probed ≤ p.slotCount

/-- The slots that are still to be looked at, in order. -/
def route (p : Probe) : List Nat :=
  (List.range (p.slotCount - p.probed)).map fun j => (p.slot + j) % p.slotCount

@[simp] theorem length_route (p : Probe) : p.route.length = p.slotCount - p.probed := by
  simp [route]

/-- No slot comes twice on a route. -/
theorem nodup_route (p : Probe) : p.route.Nodup := by
  rw [route, List.nodup_iff_pairwise_ne, List.pairwise_map]
  refine List.Pairwise.imp_of_mem ?_ List.nodup_range
  intro a b ha hb hne h
  rw [List.mem_range] at ha hb
  -- Both places are less than a full turn behind the same slot.
  have hmod : a % p.slotCount = b % p.slotCount := Nat.ModEq.add_left_cancel' p.slot h
  rw [Nat.mod_eq_of_lt (by omega), Nat.mod_eq_of_lt (by omega)] at hmod
  exact hne hmod

/-- All slots of a route belong to the table. -/
theorem lt_of_mem_route {p : Probe} {i : Nat} (h : i ∈ p.route) : i < p.slotCount := by
  obtain ⟨j, hj, rfl⟩ := List.mem_map.1 h
  rw [List.mem_range] at hj
  exact Nat.mod_lt _ (by omega)

/-- A probe that has not looked at all slots looks at the one where it stands. -/
theorem route_of_lt {p : Probe} (hslot : p.slot < p.slotCount) (h : p.probed < p.slotCount) :
    p.route = p.slot :: p.turn.tick.route := by
  have hcount : p.slotCount - p.probed = (p.slotCount - (p.probed + 1)) + 1 := by omega
  have hturn : p.turn.tick.slotCount = p.slotCount := rfl
  have hprobed : p.turn.tick.probed = p.probed + 1 := rfl
  have hnext : p.turn.tick.slot = (p.slot + 1) % p.slotCount := by
    change (if p.slot + 1 = p.slotCount then 0 else p.slot + 1) = _
    split
    · rename_i hlast
      rw [hlast, Nat.mod_self]
    · rw [Nat.mod_eq_of_lt (by omega)]
  rw [route, route, hturn, hprobed, hcount, List.range_succ_eq_map, List.map_cons, Nat.add_zero,
    Nat.mod_eq_of_lt hslot, List.map_map]
  congr 1
  apply List.map_congr_left
  intro j _
  simp only [Function.comp_apply, hnext]
  rw [Nat.mod_add_mod]
  congr 1
  omega

theorem route_of_le {p : Probe} (h : p.slotCount ≤ p.probed) : p.route = [] := by
  rw [route, Nat.sub_eq_zero_of_le h]
  rfl

/-! ### Walking along a list of slots -/

/-- The hits along a list of slots, up to the first vacant one or the first error; `probed` counts
the entries before. -/
def gather (image : Image) (key : ByteArray) (hash : UInt32) : (probed : Nat) → List Slot → Walk Hit
  | _, [] => .empty
  | probed, slot :: rest =>
    if slot.isVacant then .empty
    else
      match examine image hash key slot with
      | .error e => .failed e
      | .ok none => gather image key hash (probed + 1) rest
      | .ok (some s) => .cons ⟨s, probed + 1⟩ (gather image key hash (probed + 1) rest)

/-- Where no slot of the hash leads to an error, what is found is what the slots of the hash lead
to, up to the first vacant slot. -/
theorem gather_map_stored {image : Image} {key : ByteArray} {hash : UInt32} {slots : List Slot}
    {found : Slot → Option Stored}
    (h : ∀ s ∈ slots.takeWhile Slot.isTaken, s.hash = hash →
      examine image hash key s = .ok (found s)) (probed : Nat) :
    (gather image key hash probed slots).map Hit.stored =
      ⟨((slots.takeWhile Slot.isTaken).filter fun s => decide (s.hash = hash)).filterMap found,
        none⟩ := by
  -- The search stops at a vacant slot and passes over slots of other hashes, whatever they lead to.
  induction slots generalizing probed with
  | nil => rfl
  | cons s rest ih =>
    rw [gather]
    by_cases hvacant : s.isVacant
    · rw [if_pos hvacant, List.takeWhile_cons_of_neg (by simp [Slot.isTaken, hvacant])]
      rfl
    · have htaken : s.isTaken = true := by simpa [Slot.isTaken] using hvacant
      rw [List.takeWhile_cons_of_pos htaken] at h ⊢
      have htail := ih (fun u hu => h u (List.mem_cons_of_mem _ hu)) (probed + 1)
      rw [if_neg hvacant, List.filter_cons]
      by_cases hhash : s.hash = hash
      · rw [if_pos (by simpa using hhash), h s List.mem_cons_self hhash, List.filterMap_cons]
        cases found s with
        | none => exact htail
        | some stored => exact congrArg (Walk.cons stored) htail
      · have hskip : examine image hash key s = .ok none := by rw [examine, if_pos hhash]
        rw [if_neg (by simpa using hhash), hskip]
        exact htail

/-- A probe in a table of an image can always read its slot. -/
theorem InTable.read_eq {image : Image} {p : Probe} (h : p.InTable image) :
    Slot.read image.bytes (p.slotPosition image.width) image.width =
      .ok (image.slotAt p.bucket p.slot) := by
  obtain ⟨i, hi⟩ := h.bucket_eq
  have hlt : p.slot < (image.header.bucket i).slots.toNat := hi ▸ h.slot_lt
  have hle := (image.slot_le_size i hlt).2
  rw [Slot.read, slotPosition, if_pos (by rw [hi]; exact hle)]
  rfl

/-- A probe stays in its table when it turns to the next slot. -/
theorem InTable.turn_tick {image : Image} {p : Probe} (h : p.InTable image)
    (hlt : p.probed < p.slotCount) : p.turn.tick.InTable image where
  bucket_eq := h.bucket_eq
  probed_le := hlt
  slot_lt := by
    have hlt := h.slot_lt
    change (if p.slot + 1 = p.slotCount then 0 else p.slot + 1) < p.slotCount
    split <;> omega

/-- The hits of a probe are its next one and those behind. -/
theorem hits_eq_match (image : Image) (key : ByteArray) (p : Probe) :
    p.hits image key =
      match p.next image key with
      | (.error e, _) => .failed e
      | (.ok none, _) => .empty
      | (.ok (some hit), q) => .cons hit (q.hits image key) := by
  rw [hits]
  split <;> rename_i h <;> simp only [h]

/-- One slot of a search: it ends at a vacant slot or an error, and goes on otherwise. -/
theorem InTable.hits_eq {image : Image} {p : Probe} (h : p.InTable image) (key : ByteArray)
    (hlt : p.probed < p.slotCount) :
    p.hits image key =
      if (image.slotAt p.bucket p.slot).isVacant then .empty
      else
        match examine image p.hash key (image.slotAt p.bucket p.slot) with
        | .error e => .failed e
        | .ok none => p.turn.tick.hits image key
        | .ok (some s) => .cons ⟨s, p.probed + 1⟩ (p.turn.tick.hits image key) := by
  rw [hits_eq_match, next, dif_pos hlt, h.read_eq]
  simp only
  by_cases hvacant : (image.slotAt p.bucket p.slot).isVacant
  · rw [if_pos hvacant, if_pos hvacant]
  · rw [if_neg hvacant, if_neg hvacant]
    cases examine image p.hash key (image.slotAt p.bucket p.slot) with
    | error e => rfl
    | ok found =>
      cases found with
      -- The search goes on as that of the probe one slot further on.
      | none => exact (hits_eq_match image key p.turn.tick).symm
      | some s => rfl

/-- A probe that has looked at all slots finds nothing. -/
theorem hits_of_le {image : Image} {p : Probe} (key : ByteArray) (h : p.slotCount ≤ p.probed) :
    p.hits image key = .empty := by
  rw [hits_eq_match, next, dif_neg (by omega)]

/-- The hits of a probe are those along its route. -/
theorem hits_eq_gather {image : Image} {p : Probe} (h : p.InTable image) (key : ByteArray) :
    p.hits image key =
      gather image key p.hash p.probed (p.route.map (image.slotAt p.bucket)) := by
  -- The induction is on the number of slots that were not looked at yet.
  generalize hn : p.slotCount - p.probed = n
  induction n generalizing p with
  | zero =>
    rw [hits_of_le key (by omega), route_of_le (by omega)]
    rfl
  | succ n ih =>
    have hlt : p.probed < p.slotCount := by omega
    have htail := ih (h.turn_tick hlt) (show p.slotCount - (p.probed + 1) = n by omega)
    rw [h.hits_eq key hlt, route_of_lt h.slot_lt hlt, List.map_cons, gather, htail]
    rfl

/-- A probe for a key starts at the start slot of the hash, if the bucket has slots. -/
theorem start?_eq_some_iff {image : Image} {key : ByteArray} {p : Probe} :
    start? image key = some p ↔
      p.hash = Hash.ofBytes key ∧ p.bucket = image.header.bucket (Hash.bucketOf p.hash) ∧
        p.bucket.slots ≠ 0 ∧ p.slot = Hash.startSlot p.hash p.slotCount ∧ p.probed = 0 := by
  simp only [start?, Option.ite_none_left_eq_some, Option.some.injEq]
  constructor
  · rintro ⟨hslots, rfl⟩
    exact ⟨rfl, rfl, hslots, rfl, rfl⟩
  · obtain ⟨hash, bucket, slot, probed⟩ := p
    simp only [slotCount]
    rintro ⟨rfl, rfl, hslots, rfl, rfl⟩
    exact ⟨hslots, rfl⟩

/-- A probe for a key starts in a table of the image. -/
theorem inTable_of_start? {image : Image} {key : ByteArray} {p : Probe}
    (h : start? image key = some p) : p.InTable image := by
  obtain ⟨-, hbucket, hslots, hslot, hprobed⟩ := start?_eq_some_iff.1 h
  refine ⟨⟨_, hbucket⟩, ?_, by omega⟩
  rw [hslot]
  exact Hash.startSlot_lt _ (Nat.pos_of_ne_zero fun h0 => hslots (UInt32.toNat_inj.1 h0))

end Probe

namespace Image

/-- The slots of the bucket of a key, in the order in which a search for the key goes through
them. -/
def slotsFor (image : Image) (key : ByteArray) : List Slot :=
  match Probe.start? image key with
  | none => []
  | some p => p.route.map (image.slotAt p.bucket)

/-- The hits of a key are those along the slots of its bucket. -/
theorem hits_eq (image : Image) (key : ByteArray) :
    image.hits key = Probe.gather image key (Hash.ofBytes key) 0 (image.slotsFor key) := by
  unfold hits slotsFor
  cases h : Probe.start? image key with
  | none => rfl
  | some p =>
    obtain ⟨hhash, -, -, -, hprobed⟩ := Probe.start?_eq_some_iff.1 h
    simp only
    rw [Probe.hits_eq_gather (Probe.inTable_of_start? h), hhash, hprobed]

end Image

end ConstDb
