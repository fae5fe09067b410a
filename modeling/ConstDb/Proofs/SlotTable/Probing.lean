import ConstDb.Proofs.Layout.Codec
import ConstDb.SlotTable
import Mathlib.Data.List.Rotate
import Mathlib.Data.List.TakeWhile
import Mathlib.Data.Nat.ModEq

/-! # Linear probing

A search for a hash goes through the slots of a table from the start slot of the hash on and around
the end (`SlotTable.route`).  `SlotTable.Holds t entries` says what makes such searches work: along
its route every hash meets its own entries, each once and in the order in which they were placed,
and it meets all of them before the first vacant slot.

Where a search comes to its first vacant slot is found by counting (`SlotTable.way`): the slots that
it passes are taken, so there are no more of these than taken slots.

## Key results

- `place_eq_set`: an entry takes the first vacant slot on its way
- `place_holds`: placing a further entry keeps the table in order, as long as a slot is vacant
- `ofEntries_holds`: the table of a bucket holds the entries of the bucket
- `Holds.filter_takeWhile`: what a search that stops at the first vacant slot meets
-/

namespace ConstDb

namespace SlotTable

/-- The slots of a table in the order in which a search for a hash goes through them. -/
def route (t : SlotTable) (hash : UInt32) : List Slot :=
  t.toList.rotate (Hash.startSlot hash t.size)

/-- The table holds the entries, placed one after the other. -/
structure Holds (t : SlotTable) (entries : List IndexEntry) : Prop where
  /-- A slot without an entry is blank. -/
  blank : ∀ s ∈ t.toList, s.isVacant → s = Slot.vacant
  /-- There are as many taken slots as entries. -/
  count : t.toList.countP Slot.isTaken = entries.length
  /-- On its route a hash meets its own entries in the order in which they were placed. -/
  chain : ∀ hash, (t.route hash).filter (fun s => s.isTaken && decide (s.hash = hash)) =
    (entries.filter fun e => decide (e.hash = hash)).map IndexEntry.slot
  /-- Behind the first vacant slot of its route it meets none of them. -/
  gapless : ∀ hash, ∀ s ∈ (t.route hash).dropWhile Slot.isTaken, s.isTaken → s.hash ≠ hash

@[simp] theorem length_route (t : SlotTable) (hash : UInt32) :
    (t.route hash).length = t.size := by
  rw [route, List.length_rotate, Array.length_toList]

/-- A search for a hash goes through all slots. -/
theorem mem_route {t : SlotTable} {hash : UInt32} {s : Slot} :
    s ∈ t.route hash ↔ s ∈ t.toList := List.mem_rotate

/-! ### Where an entry goes -/

/-- Changing one place of a list changes one place of the list turned around. -/
private theorem rotate_set {α : Type} (l : List α) (a : α) (start : Nat) {j : Nat}
    (hj : j < l.length) :
    (l.set ((j + start) % l.length) a).rotate start = (l.rotate start).set j a := by
  apply List.ext_getElem (by simp)
  intro k h₁ h₂
  simp only [List.length_set, List.length_rotate] at h₁ h₂
  rw [List.getElem_rotate, List.getElem_set, List.getElem_set, List.getElem_rotate]
  simp only [List.length_set]
  -- Two places below the length that differ stay different when they are moved around.
  have hiff : (j + start) % l.length = (k + start) % l.length ↔ j = k := by
    constructor
    · intro h
      have hmod : j % l.length = k % l.length := Nat.ModEq.add_right_cancel' start h
      rwa [Nat.mod_eq_of_lt hj, Nat.mod_eq_of_lt h₁] at hmod
    · rintro rfl
      rfl
  by_cases h : j = k
  · rw [if_pos (hiff.2 h), if_pos h]
  · rw [if_neg fun h' => h (hiff.1 h'), if_neg h]

/-- Every slot has a place on a route that starts anywhere. -/
private theorem exists_add_mod_eq (start : Nat) {i n : Nat} (hi : i < n) :
    ∃ j < n, (j + start) % n = i := by
  refine ⟨(i + (n - start % n)) % n, Nat.mod_lt _ (by omega), ?_⟩
  have hstart := Nat.mod_lt start (show 0 < n by omega)
  calc ((i + (n - start % n)) % n + start) % n
      = (i + (n - start % n) + start % n) % n := by
        rw [Nat.mod_add_mod, Nat.add_mod_eq_add_mod_left]
        rw [Nat.mod_mod]
    _ = (i + n) % n := by congr 1; omega
    _ = i := by rw [Nat.add_mod_right, Nat.mod_eq_of_lt hi]

/-- The slot that a search for a hash comes to after some others. -/
def slotAfter (slots : Nat) (hash : UInt32) (d : Nat) : Nat :=
  (d + Hash.startSlot hash slots) % slots

theorem slotAfter_lt {slots : Nat} (hash : UInt32) (d : Nat) (h : 0 < slots) :
    slotAfter slots hash d < slots :=
  Nat.mod_lt _ h

/-- How many taken slots a search for a hash passes before it comes to a vacant one. -/
def way (t : SlotTable) (hash : UInt32) : Nat := ((t.route hash).takeWhile Slot.isTaken).length

section

variable {t : SlotTable} {hash : UInt32}

/-- The slots on a route, by their distance. -/
theorem getElem?_route {d : Nat} (hd : d < t.size) :
    (t.route hash)[d]? = t[slotAfter t.size hash d]? := by
  have hlt := slotAfter_lt hash d (show 0 < t.size by omega)
  rw [List.getElem?_eq_getElem (by simpa using hd), Array.getElem?_eq_getElem hlt]
  simp only [route, List.getElem_rotate, Array.length_toList, Array.getElem_toList, slotAfter]

/-- A slot is vacant or taken. -/
theorem countP_isVacant_add (t : SlotTable) :
    t.toList.countP Slot.isVacant + t.toList.countP Slot.isTaken = t.size := by
  have htaken : Slot.isTaken = fun s => decide ¬s.isVacant = true := by
    funext s
    simp [Slot.isTaken]
  rw [htaken, ← List.length_eq_countP_add_countP, Array.length_toList]

/-- No search passes more slots than are taken. -/
theorem way_le_countP : t.way hash ≤ t.toList.countP Slot.isTaken := by
  have hall : ∀ s ∈ (t.route hash).takeWhile Slot.isTaken, s.isTaken = true :=
    fun s hs => List.mem_takeWhile_imp hs
  calc t.way hash
      = ((t.route hash).takeWhile Slot.isTaken).countP Slot.isTaken :=
        (List.countP_eq_length.2 hall).symm
    _ ≤ (t.route hash).countP Slot.isTaken := (List.takeWhile_sublist _).countP_le
    _ = t.toList.countP Slot.isTaken := (List.rotate_perm ..).countP_eq _

/-- The slots that a search passes are taken. -/
theorem taken_of_lt_way {d : Nat} (hd : d < t.way hash) :
    ∃ s, t[slotAfter t.size hash d]? = some s ∧ s.isTaken := by
  have hsize : t.way hash ≤ t.size := by
    rw [← length_route t hash]
    exact (List.takeWhile_sublist _).length_le
  have hlt : d < ((t.route hash).takeWhile Slot.isTaken).length := hd
  refine ⟨_, ?_, List.mem_takeWhile_imp (List.getElem_mem hlt)⟩
  rw [← getElem?_route (by omega), ← List.getElem?_eq_getElem hlt]
  conv_lhs => rw [← List.takeWhile_append_dropWhile (p := Slot.isTaken) (l := t.route hash)]
  exact List.getElem?_append_left hlt

/-- The slot at which a search ends is vacant. -/
theorem vacant_way (h : t.toList.countP Slot.isTaken < t.size) :
    ∃ s, t[slotAfter t.size hash (t.way hash)]? = some s ∧ s.isVacant := by
  have hway : t.way hash < t.size := Nat.lt_of_le_of_lt way_le_countP h
  have hsplit := List.takeWhile_append_dropWhile (p := Slot.isTaken) (l := t.route hash)
  cases hdrop : (t.route hash).dropWhile Slot.isTaken with
  | nil =>
    have hlength := congrArg List.length hsplit
    rw [hdrop, List.append_nil, length_route] at hlength
    exact absurd hlength (Nat.ne_of_lt hway)
  | cons s back =>
    have hnot : s.isTaken = false := by
      have hhead := List.head?_dropWhile_not Slot.isTaken (t.route hash)
      rw [hdrop] at hhead
      simpa using hhead
    have hroute : t.route hash = (t.route hash).takeWhile Slot.isTaken ++ s :: back := by
      rw [← hdrop, hsplit]
    refine ⟨s, ?_, by simpa [Slot.isTaken] using hnot⟩
    rw [← getElem?_route hway, hroute, List.getElem?_append_right (Nat.le_refl (t.way hash)),
      show t.way hash - ((t.route hash).takeWhile Slot.isTaken).length = 0 from Nat.sub_self _]
    rfl

/-- The slot behind another on the way of a search. -/
theorem after_mod {i : Nat} (hi : i < t.size) : t.after i = (i + 1) % t.size := by
  unfold after
  split
  · rename_i hlast
    rw [hlast, Nat.mod_self]
  · rw [Nat.mod_eq_of_lt (by omega)]

/-- A search that may look at enough slots ends at the first vacant one. -/
theorem vacantFrom?_eq_some {i d count : Nat} (hi : i < t.size)
    (hbefore : ∀ k < d, ∃ s, t[(k + i) % t.size]? = some s ∧ s.isTaken)
    (hvacant : ∃ s, t[(d + i) % t.size]? = some s ∧ s.isVacant) (hcount : d < count) :
    t.vacantFrom? i count = some ((d + i) % t.size) := by
  induction d generalizing i count with
  | zero =>
    obtain ⟨count, rfl⟩ : ∃ n, count = n + 1 := ⟨count - 1, by omega⟩
    obtain ⟨s, hs, hfree⟩ := hvacant
    rw [Nat.zero_add, Nat.mod_eq_of_lt hi] at hs ⊢
    rw [vacantFrom?, hs, Option.any_some, if_pos hfree]
  | succ d ih =>
    obtain ⟨count, rfl⟩ : ∃ n, count = n + 1 := ⟨count - 1, by omega⟩
    obtain ⟨s, hs, htaken⟩ := hbefore 0 (Nat.succ_pos d)
    rw [Nat.zero_add, Nat.mod_eq_of_lt hi] at hs
    have hlt : t.after i < t.size := by
      rw [after_mod hi]
      exact Nat.mod_lt _ (by omega)
    -- From the next slot on, the same slots are one step nearer.
    have hnext (k : Nat) : (k + t.after i) % t.size = (k + 1 + i) % t.size := by
      rw [after_mod hi, Nat.add_mod_mod]
      congr 1
      omega
    rw [vacantFrom?, hs, Option.any_some, if_neg (by simpa [Slot.isTaken] using htaken),
      ih hlt (fun k hk => ?_) (by rwa [hnext]) (by omega), hnext]
    rw [hnext]
    exact hbefore (k + 1) (by omega)

/-- In a table with a vacant slot an entry takes the first one on its way, and a search for it finds
it as soon as it may look at more slots than are taken. -/
theorem vacantFrom?_startSlot (h : t.toList.countP Slot.isTaken < t.size) {count : Nat}
    (hcount : t.toList.countP Slot.isTaken < count) :
    t.vacantFrom? (Hash.startSlot hash t.size) count =
      some (slotAfter t.size hash (t.way hash)) :=
  vacantFrom?_eq_some (Hash.startSlot_lt hash (by omega)) (fun _ hk => taken_of_lt_way hk)
    (vacant_way h) (Nat.lt_of_le_of_lt way_le_countP hcount)

/-- An entry takes the first vacant slot on its way. -/
theorem place_eq_set (e : IndexEntry) (h : t.toList.countP Slot.isTaken < t.size) :
    t.place e = t.setIfInBounds (slotAfter t.size e.hash (t.way e.hash)) e.slot := by
  rw [place, vacantFrom?_startSlot h h]

end

/-- In a table with a vacant slot, placing an entry turns one vacant slot into it: the first on the
route of its hash, and some slot on the route of every other hash. -/
theorem route_place {t : SlotTable} (e : IndexEntry) (h : t.toList.countP Slot.isTaken < t.size) :
    (∃ front v back, t.route e.hash = front ++ v :: back ∧ v.isVacant ∧
      (∀ s ∈ front, s.isTaken) ∧ (t.place e).route e.hash = front ++ e.slot :: back) ∧
    ∀ hash, ∃ front v back, t.route hash = front ++ v :: back ∧ v.isVacant ∧
      (t.place e).route hash = front ++ e.slot :: back := by
  have hway : t.way e.hash < t.size := Nat.lt_of_le_of_lt way_le_countP h
  obtain ⟨v, hv, hvacant⟩ := @vacant_way t e.hash h
  -- The place on a route at which the slot is met that the entry takes.
  have hmeets {hash : UInt32} {j : Nat} (hj : j < t.size)
      (hsame : slotAfter t.size hash j = slotAfter t.size e.hash (t.way e.hash)) :
      t.route hash = (t.route hash).take j ++ v :: (t.route hash).drop (j + 1) ∧
        (t.place e).route hash =
          (t.route hash).take j ++ e.slot :: (t.route hash).drop (j + 1) := by
    have hlist : j < t.toList.length := by simpa using hj
    have hroute : j < (t.route hash).length := by simpa using hj
    have hslot : (t.route hash)[j] = v := by
      rw [← Option.some.injEq, ← List.getElem?_eq_getElem, getElem?_route hj, hsame, hv]
    constructor
    · rw [← hslot, ← List.drop_eq_getElem_cons hroute, List.take_append_drop]
    · rw [route, size_place, place_eq_set e h, Array.toList_setIfInBounds, ← hsame, slotAfter,
        ← Array.length_toList, rotate_set _ _ _ hlist, Array.length_toList, ← route,
        List.set_eq_take_append_cons_drop, if_pos hroute]
  constructor
  · obtain ⟨hroute, hplace⟩ := hmeets hway rfl
    refine ⟨_, v, _, hroute, hvacant, fun s hs => ?_, hplace⟩
    obtain ⟨k, hk, rfl⟩ := List.getElem_of_mem hs
    rw [List.length_take] at hk
    obtain ⟨s, hs, htaken⟩ := @taken_of_lt_way t e.hash k (by omega)
    rw [← getElem?_route (by omega)] at hs
    obtain ⟨_, hslot⟩ := List.getElem?_eq_some_iff.1 hs
    rwa [List.getElem_take, hslot]
  · intro hash
    have hlt := slotAfter_lt e.hash (t.way e.hash) (show 0 < t.size by omega)
    obtain ⟨j, hj, hsame⟩ := exists_add_mod_eq (Hash.startSlot hash t.size) hlt
    obtain ⟨hroute, hplace⟩ := hmeets hj hsame
    exact ⟨_, v, _, hroute, hvacant, hplace⟩

/-! ### The table stays in order -/

/-- A vacant slot is not taken. -/
private theorem isTaken_of_isVacant {v : Slot} (hv : v.isVacant) : v.isTaken = false := by
  simp [Slot.isTaken, hv]

/-- The slot of an entry is taken: no record is at offset 0. -/
theorem isTaken_slot {e : IndexEntry} (he : e.offset ≠ 0) : e.slot.isTaken := by
  simp [Slot.isTaken, Slot.isVacant, IndexEntry.slot, he]

/-- A list in which a place turned from vacant into an entry: what is taken of it. -/
private theorem countP_isTaken_replace {front back : List Slot} {v s : Slot} (hv : v.isVacant)
    (hs : s.isTaken) :
    (front ++ s :: back).countP Slot.isTaken = (front ++ v :: back).countP Slot.isTaken + 1 := by
  simp only [List.countP_append, List.countP_cons, hs, isTaken_of_isVacant hv, if_true,
    Bool.false_eq_true, if_false]
  omega

/-- What lies behind the first vacant place of a list, after a vacant place of it was taken, lay
behind it before, or is what took the place. -/
private theorem mem_dropWhile_replace {front back : List Slot} {v s x : Slot} (hv : v.isVacant)
    (hx : x ∈ (front ++ s :: back).dropWhile Slot.isTaken) :
    x = s ∨ x ∈ (front ++ v :: back).dropWhile Slot.isTaken := by
  -- The induction is on the slots in front of the place.
  induction front with
  | nil =>
    rw [List.nil_append, List.dropWhile_cons_of_neg (by simp [isTaken_of_isVacant hv])]
    have hmem : x ∈ s :: back := (List.dropWhile_sublist _).subset hx
    rcases List.mem_cons.1 hmem with h | h
    · exact .inl h
    · exact .inr (List.mem_cons_of_mem _ h)
  | cons a front ih =>
    simp only [List.cons_append, List.dropWhile_cons] at hx ⊢
    split at hx
    · rename_i ha
      rw [if_pos ha]
      exact ih hx
    · -- The first vacant place is in front of the one that was taken: nothing moves.
      rename_i ha
      rw [if_neg ha]
      simp only [List.mem_cons, List.mem_append] at hx ⊢
      rcases hx with h | h | h | h
      · exact .inr (.inl h)
      · exact .inr (.inr (.inl h))
      · exact .inl h
      · exact .inr (.inr (.inr (.inr h)))

section

variable {t : SlotTable} {entries : List IndexEntry} {e : IndexEntry}

/-- Behind the first vacant slot of the route of an entry there is none of its hash. -/
private theorem Holds.hash_ne_of_mem_back (h : t.Holds entries) {front back : List Slot} {v : Slot}
    (hroute : t.route e.hash = front ++ v :: back) (hv : v.isVacant)
    (hfront : ∀ s ∈ front, s.isTaken) : ∀ s ∈ back, s.isTaken → s.hash ≠ e.hash := by
  intro s hs
  apply h.gapless e.hash s
  rw [hroute, List.dropWhile_append_of_pos hfront,
    List.dropWhile_cons_of_neg (by simp [isTaken_of_isVacant hv])]
  exact List.mem_cons_of_mem _ hs

/-- The entry that is placed comes last of its hash, and the chains of other hashes stay. -/
private theorem Holds.chain_place (h : t.Holds entries) (hlt : entries.length < t.size)
    (he : e.offset ≠ 0) (hash : UInt32) :
    ((t.place e).route hash).filter (fun s => s.isTaken && decide (s.hash = hash)) =
      ((entries ++ [e]).filter fun u => decide (u.hash = hash)).map IndexEntry.slot := by
  obtain ⟨⟨front, v, back, hroute, hv, hfront, hnew⟩, hothers⟩ :=
    route_place e (show t.toList.countP Slot.isTaken < t.size by rw [h.count]; exact hlt)
  by_cases hhash : e.hash = hash
  · -- Behind the place that is taken nothing has the hash, so the new entry comes last.
    subst hhash
    have hnone : back.filter (fun s => s.isTaken && decide (s.hash = e.hash)) = [] := by
      rw [List.filter_eq_nil_iff]
      intro s hs
      simpa using h.hash_ne_of_mem_back hroute hv hfront s hs
    have hchain := h.chain e.hash
    rw [hroute, List.filter_append, List.filter_cons, isTaken_of_isVacant hv, Bool.false_and,
      if_neg Bool.false_ne_true, hnone, List.append_nil] at hchain
    have hslot : (e.slot.isTaken && decide (e.slot.hash = e.hash)) = true := by
      rw [isTaken_slot he, Bool.true_and, decide_eq_true_eq]
      rfl
    rw [hnew, List.filter_append, List.filter_cons, if_pos hslot, hnone, hchain,
      List.filter_append, List.map_append]
    simp
  · -- On other routes the filter passes over the place that was taken, before and after.
    obtain ⟨front, v, back, hroute, hv, hnew⟩ := hothers hash
    have hslot : e.slot.hash ≠ hash := hhash
    rw [hnew, List.filter_append, List.filter_append, List.filter_cons,
      if_neg (by simp [hslot]), List.map_append, ← h.chain hash, hroute, List.filter_append,
      List.filter_cons, if_neg (by simp [isTaken_of_isVacant hv])]
    simp [hhash]

/-- No hash has an entry behind the first vacant slot of its route, still. -/
private theorem Holds.gapless_place (h : t.Holds entries) (hlt : entries.length < t.size)
    (he : e.offset ≠ 0) (hash : UInt32) :
    ∀ s ∈ ((t.place e).route hash).dropWhile Slot.isTaken, s.isTaken → s.hash ≠ hash := by
  obtain ⟨⟨front, v, back, hroute, hv, hfront, hnew⟩, hothers⟩ :=
    route_place e (show t.toList.countP Slot.isTaken < t.size by rw [h.count]; exact hlt)
  intro s hs htaken
  by_cases hhash : e.hash = hash
  · subst hhash
    rw [hnew, List.dropWhile_append_of_pos hfront,
      List.dropWhile_cons_of_pos (isTaken_slot he)] at hs
    exact h.hash_ne_of_mem_back hroute hv hfront s ((List.dropWhile_sublist _).subset hs) htaken
  · obtain ⟨front', v', back', hroute', hv', hnew'⟩ := hothers hash
    rw [hnew'] at hs
    rcases mem_dropWhile_replace hv' hs with rfl | hs
    · exact hhash
    · rw [← hroute'] at hs
      exact h.gapless hash s hs htaken

/-- Placing a further entry keeps a table in order, as long as a slot is vacant. -/
theorem place_holds (h : t.Holds entries) (hlt : entries.length < t.size) (he : e.offset ≠ 0) :
    (t.place e).Holds (entries ++ [e]) := by
  have hcount : t.toList.countP Slot.isTaken < t.size := by rw [h.count]; exact hlt
  obtain ⟨⟨front, v, back, hroute, hv, hfront, hnew⟩, -⟩ := route_place e hcount
  refine ⟨?blank, ?count, h.chain_place hlt he, h.gapless_place hlt he⟩
  case blank =>
    intro s hs hvacant
    replace hs : s ∈ (t.place e).route e.hash := mem_route.2 hs
    rw [hnew] at hs
    -- The slot that was taken is not vacant, and all others are as before.
    have hold : s ∈ t.route e.hash := by
      rw [hroute]
      simp only [List.mem_append, List.mem_cons] at hs ⊢
      rcases hs with hs | rfl | hs
      · exact .inl hs
      · exact absurd (isTaken_slot he) (by simp [isTaken_of_isVacant hvacant])
      · exact .inr (.inr hs)
    exact h.blank s (mem_route.1 hold) hvacant
  case count =>
    have hperm := (List.rotate_perm (t.place e).toList (Hash.startSlot e.hash (t.place e).size))
    have hperm' := (List.rotate_perm t.toList (Hash.startSlot e.hash t.size))
    rw [← hperm.countP_eq, List.length_append, List.length_singleton, ← h.count,
      ← hperm'.countP_eq]
    change List.countP _ ((t.place e).route e.hash) = List.countP _ (t.route e.hash) + 1
    rw [hnew, hroute]
    exact countP_isTaken_replace hv (isTaken_slot he)

end

/-- A table of vacant slots holds nothing. -/
theorem vacant_holds (slots : Nat) : (vacant slots).Holds [] := by
  have hlist : (vacant slots).toList = List.replicate slots Slot.vacant := by simp [vacant]
  have hroute (hash : UInt32) : (vacant slots).route hash = List.replicate slots Slot.vacant := by
    rw [route, hlist, List.rotate_replicate]
  have hfree : ∀ s ∈ List.replicate slots Slot.vacant, ¬ s.isTaken = true := by
    intro s hs
    rw [List.eq_of_mem_replicate hs]
    decide
  refine ⟨?blank, ?count, ?chain, ?gapless⟩
  case blank =>
    intro s hs _
    rw [hlist] at hs
    exact List.eq_of_mem_replicate hs
  case count =>
    rw [hlist, List.countP_eq_zero.2 hfree]
    rfl
  case chain =>
    intro hash
    rw [hroute, List.filter_eq_nil_iff.2]
    · rfl
    · intro s hs
      simp [hfree s hs]
  case gapless =>
    intro hash s hs htaken
    rw [hroute] at hs
    exact absurd htaken (hfree s ((List.dropWhile_sublist _).subset hs))

/-- Placing entries one after the other keeps a table in order, as long as there is room. -/
theorem foldl_place_holds {t : SlotTable} {done : List IndexEntry} (h : t.Holds done)
    (rest : List IndexEntry) (hroom : done.length + rest.length ≤ t.size)
    (hoffset : ∀ e ∈ rest, e.offset ≠ 0) : (rest.foldl place t).Holds (done ++ rest) := by
  induction rest generalizing t done with
  | nil => simpa using h
  | cons e rest ih =>
    rw [List.length_cons] at hroom
    have hplace := place_holds h (by omega) (hoffset e List.mem_cons_self)
    have := ih hplace (by rw [size_place, List.length_append, List.length_singleton]; omega)
      fun e' he' => hoffset e' (List.mem_cons_of_mem _ he')
    rwa [List.append_assoc, List.singleton_append] at this

/-- The table of a bucket holds the entries of the bucket. -/
theorem ofEntries_holds {entries : List IndexEntry} (h : ∀ e ∈ entries, e.offset ≠ 0) :
    (ofEntries entries).Holds entries := by
  have := foldl_place_holds (vacant_holds (2 * entries.length)) entries
    (by simp only [List.length_nil, vacant, Array.size_replicate]; omega) h
  rwa [List.nil_append] at this

/-- Every slot of a table is blank or holds one of the entries. -/
theorem Holds.eq_vacant_or_mem {t : SlotTable} {entries : List IndexEntry} (h : t.Holds entries)
    {s : Slot} (hs : s ∈ t.toList) : s = Slot.vacant ∨ ∃ e ∈ entries, s = e.slot := by
  by_cases hvacant : s.isVacant
  · exact .inl (h.blank s hs hvacant)
  · have htaken : s.isTaken = true := by simpa [Slot.isTaken] using hvacant
    -- The entry is on the route of its own hash.
    have hmem : s ∈ (t.route s.hash).filter fun u => u.isTaken && decide (u.hash = s.hash) :=
      List.mem_filter.2 ⟨mem_route.2 hs, by simp [htaken]⟩
    rw [h.chain] at hmem
    obtain ⟨e, he, rfl⟩ := List.mem_map.1 hmem
    exact .inr ⟨e, List.mem_of_mem_filter he, rfl⟩

/-- A search that stops at the first vacant slot meets all entries of its hash, in the order in
which they were placed. -/
theorem Holds.filter_takeWhile {t : SlotTable} {entries : List IndexEntry} (h : t.Holds entries)
    (hash : UInt32) :
    ((t.route hash).takeWhile Slot.isTaken).filter (fun s => decide (s.hash = hash)) =
      (entries.filter fun e => decide (e.hash = hash)).map IndexEntry.slot := by
  have hbehind : ((t.route hash).dropWhile Slot.isTaken).filter
      (fun s => s.isTaken && decide (s.hash = hash)) = [] := by
    rw [List.filter_eq_nil_iff]
    intro s hs
    simpa using h.gapless hash s hs
  have hfront : ((t.route hash).takeWhile Slot.isTaken).filter
      (fun s => s.isTaken && decide (s.hash = hash)) =
        ((t.route hash).takeWhile Slot.isTaken).filter fun s => decide (s.hash = hash) := by
    apply List.filter_congr
    intro s hs
    rw [List.all_eq_true.1 List.all_takeWhile s hs, Bool.true_and]
  rw [← h.chain hash, ← hfront]
  conv_rhs => rw [← List.takeWhile_append_dropWhile (p := Slot.isTaken) (l := t.route hash)]
  rw [List.filter_append, hbehind, List.append_nil]

end SlotTable

end ConstDb
