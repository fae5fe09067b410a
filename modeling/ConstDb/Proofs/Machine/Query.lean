import ConstDb.Machine.Query
import ConstDb.Proofs.Machine.Scan

/-! # Queries with machine words

No query traps, whatever the file holds, and each gives what it gives with numbers.

## Key results

- `Machine.nth_of`, `Machine.count_of`, `Machine.findAll_of`, `Machine.valuesAt_of`,
  `Machine.valueCalls_of`, `Machine.firstOffset_of`, `Machine.probesTo_of`: through the index
- `Machine.pairs_of`, `Machine.toMap_of`, `Machine.invert_of`, `Machine.keyOf_of`,
  `Machine.entryCalls_of`, `Machine.dump_of`: through a scan
- `Machine.hasUniqueKeys_of`, `Machine.validate_of`, `Machine.stats_of`: audits
-/

namespace ConstDb.Machine

variable {image : Image} {σ τ β : Type}

/-! ### Loops -/

/-- A loop over the records of a key. -/
theorem forHits_of (haddr : Addressable image.bytes) {key : ByteArray}
    {body : τ → Hit → Except Trap (Turn τ β)} (step : σ → ConstDb.Hit → Turn σ β) (form : σ → τ)
    (inv : σ → List ConstDb.Hit → Prop)
    (hbody : ∀ x hit rest, hit.Sound image key → inv x (hit :: rest) →
      body (form x) (.of hit) = .ok ((step x hit).map form))
    (hinv : ∀ x hit rest y, inv x (hit :: rest) → step x hit = .more y → inv y rest) {x : σ}
    (hx : inv x (image.hits key).items) :
    forHits (.of image) key body (form x) = .ok (((image.hits key).loop step x).map form) := by
  have hgives := Probe.hits_gives_all haddr key
  simp only [forHits, Mapped.of] at hgives ⊢
  rw [Probe.start?_of, ok_bind]
  exact hgives.forEach_eq step form inv
    (fun x hit rest hmem => hbody x hit rest (Image.sound_of_mem_hits hmem)) hinv hx

/-- The feed of the values of a key gives its occurrences. -/
theorem values_gives (haddr : Addressable image.bytes) (key : ByteArray) :
    (values (.of image) key).Gives id (image.occurrences key).failure
      ((ConstDb.Probe.start? image key).map fun p => Probe.of p [])
      (image.occurrences key).items :=
  ((Probe.hits_gives_all haddr key).through fun _ hmem =>
    Hit.value_of haddr (Image.sound_of_mem_hits hmem)).map_items (g := ConstDb.Hit.value image)

/-- A loop over the values of a key. -/
theorem forValues_of (haddr : Addressable image.bytes) {key : ByteArray}
    {body : τ → ByteArray → Except Trap (Turn τ β)} (step : σ → ByteArray → Turn σ β) (form : σ → τ)
    (inv : σ → List ByteArray → Prop)
    (hbody : ∀ x value rest, inv x (value :: rest) →
      body (form x) value = .ok ((step x value).map form))
    (hinv : ∀ x value rest y, inv x (value :: rest) → step x value = .more y → inv y rest) {x : σ}
    (hx : inv x (image.occurrences key).items) :
    forValues (.of image) key body (form x) =
      .ok (((image.occurrences key).loop step x).map form) := by
  have hgives := values_gives haddr key
  simp only [forValues, Mapped.of] at hgives ⊢
  rw [Probe.start?_of, ok_bind]
  exact hgives.forEach_eq step form inv (fun x value rest _ => hbody x value rest) hinv hx

/-- The feed of all records gives the scan. -/
theorem entries_gives (haddr : Addressable image.bytes) :
    (Scan.entries image.bytes).Gives (Entry.of image.bytes) image.scan.failure
      (.of image Layout.headerSize) image.scan.items := by
  rw [Image.scan]
  exact Scan.entries_gives haddr image.headerSize_le_recordEnd

/-- A loop over all records. -/
theorem forEntries_of (haddr : Addressable image.bytes)
    {body : τ → Entry → Except Trap (Turn τ β)} (step : σ → Stored → Turn σ β) (form : σ → τ)
    (inv : σ → List Stored → Prop)
    (hbody : ∀ x s rest, s.next ≤ image.recordEnd → inv x (s :: rest) →
      body (form x) (.of image.bytes s) = .ok ((step x s).map form))
    (hinv : ∀ x s rest y, inv x (s :: rest) → step x s = .more y → inv y rest) {x : σ}
    (hx : inv x image.scan.items) :
    forEntries (.of image) body (form x) = .ok ((image.scan.loop step x).map form) := by
  have hmem (s : Stored) (hs : s ∈ image.scan.items) : s.next ≤ image.recordEnd := by
    rw [Image.scan] at hs
    exact Image.next_le_of_mem_scanFrom hs
  simp only [forEntries, Mapped.of]
  rw [Scan.start_of, ok_bind]
  exact (entries_gives haddr).forEach_eq step form inv
    (fun x s rest hs => hbody x s rest (hmem s hs)) hinv hx

/-! ### Their bodies -/

/-- Counting does not overflow below the greatest word. -/
theorem countOne_of {α : Type} {n : Nat} (a : α) (h : n + 1 < 2 ^ 64) :
    countOne (.ofNat n) a = .ok (.more (.ofNat (n + 1))) := by
  rw [countOne, add64_one h]
  rfl

theorem countTo_of {α : Type} (n : UInt64) {i : Nat} (a : α) (h : i + 1 < 2 ^ 64) :
    countTo n (.ofNat i) a =
      .ok (Turn.map .ofNat (if i = n.toNat then .stop (.ok (some a)) else .more (i + 1))) := by
  have hn : UInt64.ofNat i = n ↔ i = n.toNat := by
    rw [← UInt64.toNat_inj, UInt64.toNat_ofNat_of_lt' (show i < 2 ^ 64 by omega)]
  rw [countTo, add64_one h, ok_bind]
  by_cases heq : i = n.toNat
  · rw [if_pos heq, if_pos (hn.2 heq)]
    rfl
  · rw [if_neg heq, if_neg (mt hn.1 heq)]
    rfl

/-- What says the same of an item as the machine's test stops the loop where the machine does. -/
theorem stopAt_of {α : Type} {p : α → Prop} [DecidablePred p] {q : Prop} [Decidable q]
    (f : α → β) {a : α} (h : p a ↔ q) :
    stopAt p f () a = .ok (Turn.map id (if q then .stop (.ok (some (f a))) else .more ())) := by
  rw [stopAt]
  by_cases hq : q
  · rw [if_pos hq, if_pos (h.2 hq)]
    rfl
  · rw [if_neg hq, if_neg (mt h.1 hq)]
    rfl

private theorem foldl_append_map {α : Type} (f : α → β) (l : List α) (found : List β) :
    l.foldl (fun values a => values ++ [f a]) found = found ++ l.map f := by
  rw [List.foldl_append_eq_append, ← List.flatMap_def, List.map_eq_flatMap]

/-! ### Through the index -/

theorem length_occurrences_lt (image : Image) (key : ByteArray) :
    (image.occurrences key).items.length < 2 ^ 32 := by
  have hlength := image.length_hits_lt key
  rwa [Image.occurrences, Walk.items_map, List.length_map]

/-- The machine finds the value of an occurrence. -/
theorem nth_of (haddr : Addressable image.bytes) (key : ByteArray) (n : UInt64) :
    nth (.of image) key n = .ok (image.nth key n.toNat) := by
  have hlength := length_occurrences_lt image key
  -- What was counted and what is still to come is never more than all occurrences.
  have hloop : forValues (.of image) key (countTo n) (.ofNat 0) = _ :=
    forValues_of haddr
      (fun i value => if i = n.toNat then .stop (.ok (some value)) else .more (i + 1))
      UInt64.ofNat (fun i rest => i + rest.length < 2 ^ 32)
      (by
        intro i value rest hi
        rw [List.length_cons] at hi
        exact countTo_of n value (by omega))
      (by
        intro i value rest j hi hj
        rw [List.length_cons] at hi
        split at hj
        · simp at hj
        · cases hj
          omega)
      (x := 0) (by omega)
  rw [nth, show (0 : UInt64) = .ofNat 0 from rfl, hloop, ok_bind, Exit.finish_map, Image.nth_eq,
    ← Walk.finish_loop_nth]
  rfl

/-- The machine counts the occurrences of a key. -/
theorem count_of (haddr : Addressable image.bytes) (key : ByteArray) :
    count (.of image) key = .ok ((image.count key).map UInt64.ofNat) := by
  have hlength := length_occurrences_lt image key
  have hloop : forValues (.of image) key countOne (.ofNat 0) = _ :=
    forValues_of haddr (fun n _ => .more (n + 1)) UInt64.ofNat
      (fun n rest => n + rest.length < 2 ^ 32)
      (by
        intro n value rest hn
        rw [List.length_cons] at hn
        exact countOne_of value (by omega))
      (by
        intro n value rest k hn hk
        rw [List.length_cons] at hn
        cases hk
        omega)
      (x := 0) (by omega)
  rw [count, show (0 : UInt64) = .ofNat 0 from rfl, hloop, ok_bind, Exit.finish_map,
    Walk.finish_loop_fold, Image.count_eq]
  simp only [List.foldl_add_const, Nat.one_mul, Nat.zero_add]
  cases (image.occurrences key).toExcept <;> rfl

/-- The machine finds all values of a key, and puts them behind others. -/
theorem findAll_of (haddr : Addressable image.bytes) (key : ByteArray) (found : List ByteArray) :
    findAll (.of image) key found = .ok ((image.findAll key).map (found ++ ·)) := by
  have hloop : forValues (.of image) key (takeIn fun values value => values ++ [value]) found = _ :=
    forValues_of haddr (fun values value => .more (values ++ [value])) id (fun _ _ => True)
      (fun _ _ _ _ => rfl) (fun _ _ _ _ _ _ => trivial) (x := found) trivial
  have hfold (items : List ByteArray) :
      items.foldl (fun values value => values ++ [value]) found = found ++ items := by
    rw [foldl_append_map (fun value => value), List.map_id']
  rw [findAll, hloop, ok_bind, Exit.finish_map, Walk.finish_loop_fold, Image.findAll_eq]
  simp only [hfold]
  rfl

/-- The machine finds all values of several keys. -/
theorem valuesAt_of (haddr : Addressable image.bytes) (keys found : List ByteArray) :
    valuesAt (.of image) found keys = .ok ((image.valuesAt keys).map (found ++ ·)) := by
  induction keys generalizing found with
  | nil => simp [valuesAt, Except.map]
  | cons key keys ih =>
    rw [valuesAt, findAll_of haddr, ok_bind, Image.valuesAt_cons]
    cases image.findAll key with
    | error e => rfl
    | ok values =>
      simp only [Except.map]
      rw [ih]
      cases image.valuesAt keys with
      | error e => rfl
      | ok rest => simp [Except.map]

/-- The machine gives the occurrences of a key, call by call. -/
theorem valueCalls_of (haddr : Addressable image.bytes) (key : ByteArray) :
    valueCalls (.of image) key = .ok (image.occurrences key).outcomes := by
  have hcalls := (values_gives haddr key).calls_eq
  simp only [valueCalls, Mapped.of] at hcalls ⊢
  rw [Probe.start?_of, ok_bind, hcalls]
  simp

/-- A place inside the file is told apart by its word. -/
theorem ofNat_eq_iff (haddr : Addressable image.bytes) {m n : Nat} (hm : m ≤ image.bytes.size)
    (hn : n ≤ image.bytes.size) : UInt64.ofNat m = .ofNat n ↔ m = n := by
  rw [← UInt64.toNat_inj, toNat_of_le_size haddr hm, toNat_of_le_size haddr hn]

/-- The machine finds the first record that the index leads to. -/
theorem firstOffset_of (haddr : Addressable image.bytes) (key : ByteArray) :
    firstOffset (.of image) key =
      .ok ((image.firstHit key).map fun s => s.map fun s => .ofNat s.offset) := by
  simp only [firstOffset, Mapped.of]
  rw [Probe.start?_of, ok_bind, Image.firstHit]
  cases hstart : ConstDb.Probe.start? image key with
  | none => rfl
  | some p =>
    obtain ⟨seen, hnext, -⟩ := Probe.next_of haddr (ConstDb.Probe.inTable_of_start? hstart) key []
    simp only [Option.map_some]
    simp only [Mapped.of] at hnext
    rw [hnext, ok_bind]
    rcases p.next image key with ⟨_ | _ | hit, q⟩ <;> rfl

/-- The machine counts the entries up to a record. -/
theorem probesTo_of (haddr : Addressable image.bytes) (key : ByteArray) {offset : Nat}
    (hoffset : offset ≤ image.bytes.size) :
    probesTo (.of image) key (.ofNat offset) =
      .ok ((image.probesTo key offset).map fun n => n.map UInt32.ofNat) := by
  have hloop : forHits (.of image) key
      (stopAt (fun hit => hit.offset = .ofNat offset) Hit.probes) () = _ :=
    forHits_of haddr
      (fun () hit => if hit.stored.offset = offset then .stop (.ok (some (.ofNat hit.probes)))
        else .more ()) id (fun _ _ => True)
      (fun _ _ _ hsound _ => stopAt_of Hit.probes (ofNat_eq_iff haddr hsound.offset_le hoffset))
      (fun _ _ _ _ _ _ => trivial) (x := ()) trivial
  have hfirst := Walk.finish_loop_first (fun hit : ConstDb.Hit => hit.stored.offset = offset)
    (fun hit => UInt32.ofNat hit.probes) (image.hits key)
  have hmap := Walk.firstSome_map UInt32.ofNat
    (fun hit : ConstDb.Hit => if hit.stored.offset = offset then some hit.probes else none)
    (image.hits key)
  rw [probesTo, hloop, ok_bind, Exit.finish_map, Image.probesTo_eq, ← hmap]
  simp only [apply_ite (Option.map UInt32.ofNat), Option.map_some, Option.map_none]
  exact congrArg Except.ok hfirst

/-! ### Through a scan -/

theorem length_scan_le (image : Image) : image.scan.items.length ≤ image.bytes.size := by
  have hlength := image.length_scanFrom_le Layout.headerSize
  have hend := image.recordEnd_le_size
  rw [Image.scan]
  omega

theorem offset_le_of_next {s : Stored} (h : s.next ≤ image.recordEnd) :
    s.offset ≤ image.bytes.size := by
  have hle := s.offset_add_le_next
  have hend := image.recordEnd_le_size
  omega

/-- The machine puts all records together. -/
theorem gatherAll_of (haddr : Addressable image.bytes) (f : σ → Entry → σ) (x : σ) :
    gatherAll (.of image) f x =
      .ok (image.scan.toExcept.map fun items =>
        items.foldl (fun x s => f x (.of image.bytes s)) x) := by
  have hloop : forEntries (.of image) (takeIn f) x = _ :=
    forEntries_of haddr (fun x s => .more (f x (.of image.bytes s))) id (fun _ _ => True)
      (fun _ _ _ _ _ => rfl) (fun _ _ _ _ _ _ => trivial) (x := x) trivial
  rw [gatherAll, hloop, ok_bind, Exit.finish_map, Walk.finish_loop_fold]
  rfl

private theorem pairs_eq (image : Image) :
    image.pairs = image.scan.toExcept.map (List.map fun s => s.record image.bytes) := by
  rw [Image.pairs, Image.records, Walk.toExcept_map]

/-- What is put together out of the records, one by one, is what is made of all pairs. -/
private theorem gatherAll_eq (haddr : Addressable image.bytes) {f : σ → Entry → σ} {x : σ}
    {g : List Record → σ}
    (h : ∀ items : List Stored, items.foldl (fun x s => f x (.of image.bytes s)) x =
      g (items.map fun s => s.record image.bytes)) :
    gatherAll (.of image) f x = .ok (image.pairs.map g) := by
  rw [gatherAll_of haddr, pairs_eq]
  cases image.scan.toExcept with
  | error e => rfl
  | ok items =>
    simp only [Except.map]
    rw [h]

theorem keys_of (haddr : Addressable image.bytes) :
    gatherAll (.of image) (fun keys entry => keys ++ [entry.key]) [] = .ok image.keys := by
  apply gatherAll_eq haddr
  intro items
  have hfold := foldl_append_map (fun s : Stored => s.key image.bytes) items []
  rw [List.map_map]
  exact hfold

theorem values_of (haddr : Addressable image.bytes) :
    gatherAll (.of image) (fun values entry => values ++ [entry.value]) [] = .ok image.values := by
  apply gatherAll_eq haddr
  intro items
  have hfold := foldl_append_map (fun s : Stored => s.value image.bytes) items []
  rw [List.map_map]
  exact hfold

theorem pairs_of (haddr : Addressable image.bytes) :
    gatherAll (.of image) (fun rs entry => rs ++ [entry.record]) [] = .ok image.pairs := by
  have hgather := gatherAll_eq haddr (f := fun rs entry => rs ++ [entry.record]) (x := [])
    (g := id) fun items => foldl_append_map (fun s : Stored => s.record image.bytes) items []
  rw [hgather]
  cases image.pairs <;> rfl

theorem toMap_of (haddr : Addressable image.bytes) :
    gatherAll (.of image) (fun map entry => map.insert entry.key entry.value) (∅ : ByteMap) =
      .ok image.toMap := by
  apply gatherAll_eq haddr
  intro items
  rw [List.foldl_map]
  rfl

theorem invert_of (haddr : Addressable image.bytes) :
    gatherAll (.of image) (fun map entry => map.insert entry.value entry.key) (∅ : ByteMap) =
      .ok image.invert := by
  apply gatherAll_eq haddr
  intro items
  rw [List.foldl_map]
  rfl

/-- The machine finds the key of a value. -/
theorem keyOf_of (haddr : Addressable image.bytes) (value : ByteArray) :
    keyOf (.of image) value = .ok (image.keyOf value) := by
  have hloop :
      forEntries (.of image) (stopAt (fun entry => entry.value = value) Entry.key) () = _ :=
    forEntries_of haddr
      (fun () s => if s.value image.bytes = value then .stop (.ok (some (s.key image.bytes)))
        else .more ()) id (fun _ _ => True)
      (fun _ _ _ _ _ => stopAt_of Entry.key Iff.rfl) (fun _ _ _ _ _ _ => trivial)
      (x := ()) trivial
  rw [keyOf, hloop, ok_bind, Exit.finish_map]
  exact congrArg Except.ok (Walk.finish_loop_first ..)

/-- The machine gives all records, call by call. -/
theorem entryCalls_of (haddr : Addressable image.bytes) :
    entryCalls (.of image) =
      .ok (image.scan.outcomes.map fun call => call.map (·.map (Entry.of image.bytes))) := by
  simp only [entryCalls, Mapped.of]
  rw [Scan.start_of, ok_bind]
  exact (entries_gives haddr).calls_eq

/-- The machine writes the text of all records. -/
theorem dump_of (haddr : Addressable image.bytes) :
    dump (.of image) =
      .ok ((image.dump {}).1.map UInt64.ofNat, (image.dump {}).2.taken) := by
  have hlength := length_scan_le image
  -- What was written and what is still to come are together all records, so the count fits.
  have hloop : forEntries (.of image) writeOne (ByteArray.empty, .ofNat 0) = _ :=
    forEntries_of haddr
      (fun x s => .more (x.1 ++ RecordText.line (s.record image.bytes), x.2 + 1))
      (fun x => (x.1, UInt64.ofNat x.2)) (fun x rest => x.2 + rest.length ≤ image.bytes.size)
      (by
        intro x s rest _ hx
        simp only [Addressable] at haddr
        rw [List.length_cons] at hx
        rw [writeOne, add64_one (by omega), ok_bind]
        rfl)
      (by
        intro x s rest y hx hy
        rw [List.length_cons] at hx
        cases hy
        simp only
        omega)
      (x := (ByteArray.empty, 0)) (by simpa using hlength)
  have hfold (items : List Stored) (text : ByteArray) (n : Nat) :
      items.foldl (fun x s => (x.1 ++ RecordText.line (s.record image.bytes), x.2 + 1)) (text, n) =
        ((items.map fun s => s.record image.bytes).foldl
          (fun text r => text ++ RecordText.line r) text, n + items.length) := by
    induction items generalizing text n with
    | nil => rfl
    | cons s rest ih =>
      rw [List.foldl_cons, ih, List.map_cons, List.foldl_cons, List.length_cons, Nat.add_assoc,
        Nat.add_comm 1]
  rw [Walk.loop_fold, hfold, Nat.zero_add] at hloop
  rw [dump, show (0 : UInt64) = .ofNat 0 from rfl, hloop, ok_bind, Image.dump_eq, Image.records,
    Walk.failure_map, Walk.items_map, List.length_map]
  cases image.scan.failure with
  | none => rfl
  | some e => rfl

/-! ### Audits -/

/-- The index leads to a record first just when it leads to the place of the record first. -/
theorem checkFirst_of (haddr : Addressable image.bytes) {s : Stored}
    (hs : s.next ≤ image.recordEnd) :
    checkFirst (.of image) () (.of image.bytes s) =
      .ok (Turn.map id (.ofCheck ((image.firstHit (s.key image.bytes)).map fun first =>
        decide (first.map Stored.offset = some s.offset)))) := by
  rw [checkFirst, Entry.of, firstOffset_of haddr, ok_bind]
  cases hfirst : image.firstHit (s.key image.bytes) with
  | error e => rfl
  | ok first =>
    have hsame : (first.map fun t => UInt64.ofNat t.offset) = some (.ofNat s.offset) ↔
        first.map Stored.offset = some s.offset := by
      cases first with
      | none => simp
      | some t =>
        -- Both records lie in the file, so words are enough to tell their places apart.
        obtain ⟨hit, rfl, hsound⟩ := Image.sound_of_firstHit hfirst
        simpa using ofNat_eq_iff haddr hsound.offset_le (offset_le_of_next hs)
    simp only [Except.map]
    by_cases h : first.map Stored.offset = some s.offset
    · rw [if_pos (hsame.2 h), decide_eq_true h]
      rfl
    · rw [if_neg (mt hsame.1 h), decide_eq_false h]
      rfl

/-- The machine finds out whether no key occurs twice. -/
theorem hasUniqueKeys_of (haddr : Addressable image.bytes) :
    hasUniqueKeys (.of image) = .ok image.hasUniqueKeys := by
  have hloop : forEntries (.of image) (checkFirst (.of image)) () = _ :=
    forEntries_of haddr
      (fun () s => .ofCheck ((image.firstHit (s.key image.bytes)).map fun first =>
        decide (first.map Stored.offset = some s.offset))) id (fun _ _ => True)
      (fun _ _ _ hs _ => checkFirst_of haddr hs) (fun _ _ _ _ _ _ => trivial) (x := ()) trivial
  rw [hasUniqueKeys, hloop, ok_bind, Exit.finish_map]
  exact congrArg Except.ok (Walk.finish_loop_all ..)

theorem recordCount_lt (header : ConstDb.Header) : header.recordCount < 2 ^ 64 := by
  have hsum := sum_slots_le header.buckets.toList
  rw [Vector.length_toList] at hsum
  rw [ConstDb.Header.recordCount, ConstDb.Header.slotTotal_eq_sum]
  omega

/-- A header that was read once is read again. -/
theorem parse_of (haddr : Addressable image.bytes) :
    parse (Mapped.of image).data = .ok (.ok (.of image.header)) := by
  simp only [Mapped.of]
  rw [parse_eq haddr, image.parse_eq]
  rfl

/-- All records are counted: there are no more of them than bytes. -/
theorem countAll_of (haddr : Addressable image.bytes) :
    forEntries (.of image) countOne (.ofNat 0) =
      .ok ((image.scan.loop (fun n _ => .more (n + 1)) 0).map UInt64.ofNat) := by
  have hlength := length_scan_le image
  refine forEntries_of haddr (fun n _ => .more (n + 1)) UInt64.ofNat
    (fun n rest => n + rest.length ≤ image.bytes.size) ?body ?step (x := 0) (by simpa using hlength)
  case body =>
    intro n s rest _ hn
    simp only [Addressable] at haddr
    rw [List.length_cons] at hn
    exact countOne_of _ (by omega)
  case step =>
    intro n s rest k hn hk
    rw [List.length_cons] at hn
    cases hk
    omega

/-- The machine confirms the number of records. -/
theorem validate_of (haddr : Addressable image.bytes) :
    validate (.of image) = .ok image.validate := by
  rw [validate, parse_of haddr, ok_bind, show (0 : UInt64) = .ofNat 0 from rfl]
  simp only
  rw [countAll_of haddr, ok_bind, Exit.finish_map, Walk.finish_loop_fold, Image.validate]
  simp only [List.foldl_add_const, Nat.one_mul, Nat.zero_add]
  cases hscan : image.scan.toExcept with
  | error e => rfl
  | ok items =>
    have hitems : items.length ≤ image.bytes.size := by
      rw [← (Walk.toExcept_eq_ok.1 hscan).1]
      exact length_scan_le image
    -- Neither number exceeds a word, so the machine compares the numbers themselves.
    have hscanned := toNat_of_le_size haddr hitems
    have hcount : (UInt64.ofNat image.recordCount).toNat = image.recordCount :=
      UInt64.toNat_ofNat_of_lt' (recordCount_lt image.header)
    have hsame : UInt64.ofNat items.length = .ofNat image.recordCount ↔
        items.length = image.recordCount := by
      rw [← UInt64.toNat_inj, hscanned, hcount]
    have hrecords : (Mapped.of image).header.records = .ofNat image.recordCount := rfl
    have hend : (Mapped.of image).header.recordEnd = .ok (.ofNat image.recordEnd) :=
      Header.recordEnd_of image
    have hendword := toNat_of_le_size haddr image.recordEnd_le_size
    simp only [Except.map, Function.comp_apply, id, hrecords, hend, ok_bind]
    by_cases h : items.length = image.recordCount
    · rw [if_neg (by simpa using hsame.2 h), if_neg (by simpa using h)]
      rfl
    · rw [if_pos (mt hsame.1 h), if_pos h, hscanned, hcount, hendword]
      rfl

/-! ### Statistics -/

/-- The same statistics, with machine words. -/
def Stats.of (s : ConstDb.Stats) : Stats := ⟨.ofNat s.records, s.distances.map .ofNat⟩

/-- No class of distances counts more than some number of records. -/
def Stats.AtMost (s : ConstDb.Stats) (n : Nat) : Prop :=
  s.records ≤ n ∧ ∀ (i : Nat) (hi : i < ConstDb.Stats.classCount), s.distances[i] ≤ n

theorem Stats.atMost_empty : Stats.AtMost .empty 0 := by
  refine ⟨Nat.le_refl _, ?_⟩
  intro i hi
  simp [ConstDb.Stats.empty]

/-- One more record is counted in one class at most. -/
theorem Stats.AtMost.add {s : ConstDb.Stats} {n : Nat} (h : AtMost s n) (probes : Nat) :
    AtMost (s.add probes) (n + 1) := by
  refine ⟨Nat.succ_le_succ h.1, ?_⟩
  intro i hi
  have hle := h.2 i hi
  simp only [ConstDb.Stats.add, Vector.getElem_mapIdx]
  split <;> omega

theorem Stats.numbers_of {s : ConstDb.Stats} {n : Nat} (h : AtMost s n) (hn : n < 2 ^ 64) :
    (Stats.of s).numbers = s := by
  obtain ⟨records, distances⟩ := s
  simp only [numbers, of, ConstDb.Stats.mk.injEq]
  refine ⟨UInt64.toNat_ofNat_of_lt' (Nat.lt_of_le_of_lt h.1 hn), ?_⟩
  apply Vector.ext
  intro i hi
  rw [Vector.getElem_map, Vector.getElem_map]
  exact UInt64.toNat_ofNat_of_lt' (Nat.lt_of_le_of_lt (h.2 i hi) hn)

/-- Counting a distance does not trap: the entry that was found is one of those looked at. -/
theorem Stats.add_of {s : ConstDb.Stats} {n probes : Nat} (h : AtMost s n) (hn : n + 1 < 2 ^ 64)
    (hpos : 0 < probes) (hlt : probes < 2 ^ 32) :
    (Stats.of s).add (.ofNat probes) = .ok (.of (s.add probes)) := by
  have hone : (1 : UInt64).toNat = 1 := rfl
  have hclasses : ConstDb.Stats.classCount = 11 := rfl
  have hprobes := toNat_widened hlt
  have hdistance : (UInt64.ofNat (probes - 1)).toNat = probes - 1 :=
    UInt64.toNat_ofNat_of_lt' (show probes - 1 < 2 ^ 64 by omega)
  have hlast : (UInt64.ofNat (ConstDb.Stats.classCount - 1)).toNat =
      ConstDb.Stats.classCount - 1 := rfl
  -- The class is cut off before the counters are indexed with it.
  generalize hd : min (probes - 1) (ConstDb.Stats.classCount - 1) = d
  have hclass : (if (UInt64.ofNat (probes - 1)).toNat <
      (UInt64.ofNat (ConstDb.Stats.classCount - 1)).toNat then UInt64.ofNat (probes - 1)
      else UInt64.ofNat (ConstDb.Stats.classCount - 1)) = .ofNat d := by
    rw [hdistance, hlast]
    split
    · rw [← hd, Nat.min_eq_left (by omega)]
    · rw [← hd, Nat.min_eq_right (by omega)]
  have hdlt : d < ConstDb.Stats.classCount := by omega
  have hdword : (UInt64.ofNat d).toNat = d :=
    UInt64.toNat_ofNat_of_lt' (show d < 2 ^ 64 by omega)
  have hcounter := h.2 d hdlt
  have hitem : item (Stats.of s).distances.toArray (.ofNat d) = .ok (.ofNat s.distances[d]) := by
    have hsize : (UInt64.ofNat d).toNat < (Stats.of s).distances.toArray.size := by
      rw [hdword, Vector.size_toArray]
      exact hdlt
    rw [item_eq_ok hsize]
    simp only [hdword, of, Vector.getElem_toArray, Vector.getElem_map]
  rw [add, sub64_eq_ok hprobes hone hpos, ok_bind]
  simp only
  rw [hclass, hitem, ok_bind, add64_one (by omega), ok_bind, of,
    add64_one (show s.records + 1 < 2 ^ 64 by have := h.1; omega), ok_bind, hdword, pure_eq_ok,
    of, Except.ok.injEq, Stats.mk.injEq]
  refine ⟨rfl, ?_⟩
  apply Vector.ext
  intro i hi
  rw [Vector.getElem_setIfInBounds, Vector.getElem_map, Vector.getElem_map]
  simp only [ConstDb.Stats.add, Vector.getElem_mapIdx, hd]
  by_cases hi' : d = i
  · subst hi'
    rw [if_pos rfl, if_pos rfl]
  · rw [if_neg hi', if_neg (Ne.symm hi')]

theorem Stats.AtMost.tally {x y : ConstDb.Stats} {n : Nat} {s : Stored} (h : AtMost x n)
    (hy : image.tally x s = .ok y) : AtMost y (n + 1) := by
  unfold Image.tally at hy
  split at hy
  · cases hy
  · cases hy
  · cases hy
    exact h.add _

/-- Statistics of so many records count at most so many. -/
theorem Stats.AtMost.of_foldlM {items : List Stored} {s result : ConstDb.Stats} {n : Nat}
    (h : AtMost s n) (hresult : items.foldlM image.tally s = .ok result) :
    AtMost result (n + items.length) := by
  induction items generalizing s n with
  | nil =>
    cases hresult
    exact h
  | cons t rest ih =>
    rw [List.foldlM_cons] at hresult
    obtain ⟨x, hx, hrest⟩ := bind_eq_ok.1 hresult
    have hcount := ih (h.tally hx) hrest
    rwa [Nat.add_assoc, Nat.add_comm 1] at hcount

theorem Stats.atMost_of_foldM {w : Walk Stored} {s : ConstDb.Stats}
    (h : w.foldM image.tally .empty = .ok s) : AtMost s w.items.length := by
  rw [Walk.foldM] at h
  split at h
  · cases h
  · rename_i result hresult
    have hle := atMost_empty.of_foldlM hresult
    rw [Nat.zero_add] at hle
    split at h
    · cases h
      exact hle
    · cases h

/-- The machine counts the distance of a record, or stops where the index does not lead to it. -/
theorem tallyOne_of (haddr : Addressable image.bytes) {x : ConstDb.Stats} {n : Nat} {s : Stored}
    (hs : s.next ≤ image.recordEnd) (hx : Stats.AtMost x n) (hn : n + 1 < 2 ^ 64) :
    tallyOne (.of image) (.of x) (.of image.bytes s) =
      .ok ((Turn.ofStep (image.tally x s)).map Stats.of) := by
  rw [tallyOne, Entry.of]
  simp only
  rw [probesTo_of haddr _ (offset_le_of_next hs), ok_bind, Image.tally]
  cases hprobes : image.probesTo (s.key image.bytes) s.offset with
  | error e => rfl
  | ok found =>
    cases found with
    | none =>
      have hoffset := toNat_of_le_size haddr (offset_le_of_next hs)
      simp only [Except.map, Option.map_none, hoffset]
      rfl
    | some probes =>
      obtain ⟨hit, hsound, rfl⟩ := Image.sound_of_probesTo hprobes
      simp only [Except.map, Option.map_some]
      rw [Stats.add_of hx hn hsound.probes_pos hsound.probes_lt]
      rfl

/-- The machine finds the distances of all records. -/
theorem stats_of (haddr : Addressable image.bytes) :
    stats (.of image) = .ok (image.stats.map Stats.of) := by
  have hlength := length_scan_le image
  -- No counter ever passes the number of records, and there are fewer records than bytes.
  have hloop : forEntries (.of image) (tallyOne (.of image)) (.of .empty) = _ :=
    forEntries_of haddr
      (fun x s => .ofStep (image.tally x s)) Stats.of
      (fun x rest => ∃ n, Stats.AtMost x n ∧ n + rest.length ≤ image.bytes.size)
      (by
        rintro x s rest hs ⟨n, hx, hn⟩
        rw [List.length_cons] at hn
        have hcount : n + 1 < 2 ^ 64 := by
          simp only [Addressable] at haddr
          omega
        exact tallyOne_of haddr hs hx hcount)
      (by
        rintro x s rest y ⟨n, hx, hn⟩ hy
        rw [List.length_cons] at hn
        cases htally : image.tally x s with
        | error e =>
          rw [htally] at hy
          cases hy
        | ok y' =>
          rw [htally] at hy
          cases hy
          exact ⟨n + 1, hx.tally htally, by omega⟩)
      (x := .empty) ⟨0, Stats.atMost_empty, by omega⟩
  have hempty : (Stats.empty : Stats) = .of .empty := by
    simp only [Stats.empty, Stats.of, ConstDb.Stats.empty, Vector.map_replicate]
    rfl
  rw [stats, hempty, hloop, ok_bind, Exit.finish_map, Image.stats]
  exact congrArg Except.ok (Walk.finish_loop_step image.tally Stats.of _ _)

end ConstDb.Machine
