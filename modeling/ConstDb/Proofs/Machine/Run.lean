import ConstDb.Proofs.Builder.Commit
import ConstDb.Proofs.Image.Damage
import ConstDb.Proofs.Machine.Query
import ConstDb.Proofs.Reader.Calls

/-! # Runs with machine words

A run of queries on a file whose header is accepted never traps: it gives the replies that a session
gives, each of them an answer or an error that says where the file is damaged.  The cursor is the
only state that is kept between the queries.

## Key results

- `Machine.perform_of`: one query
- `Machine.run_eq_replies`: a run gives the replies of a session
- `Machine.run_safe`: runs do not trap, and no search looks at a slot twice
-/

namespace ConstDb.Machine

variable {image : Image}

/-! ### The cursor -/

/-- The cursor of the machine is where that of the reader is. -/
def Cursor.Is (image : Image) : Option ConstDb.Cursor → Cursor → Prop
  | none, c => c.probe = none
  | some c, c' =>
    c.probe.InTable image ∧ c.keyStart + c.keySize ≤ image.bytes.size ∧ c.keySize < 2 ^ 32 ∧
      ∃ seen, c' = ⟨some (.of c.probe seen), .ofNat c.keyStart, .ofNat c.keySize⟩

section

variable {r : Reader} {time : Nat} {c : Cursor}

theorem ask_eq (hr : r.mapping = some ⟨image, time⟩) {α : Type}
    (question : Image → Except Error α) : r.ask question = question image := by
  rw [Reader.ask, Reader.current, hr]

/-- The cursor is put on the first occurrence of a key. -/
theorem findKey_of (haddr : Addressable image.bytes) (hr : r.mapping = some ⟨image, time⟩)
    (key : ByteArray) :
    ∃ c', findKey (.of image) key = .ok ((r.findKey key).1, c') ∧
      Cursor.Is image (r.findKey key).2.cursor c' ∧
      (r.findKey key).2.mapping = some ⟨image, time⟩ := by
  simp only [findKey, Mapped.of]
  rw [Probe.start?_of, ok_bind, Reader.findKey_eq hr]
  cases hstart : ConstDb.Probe.start? image key with
  | none => exact ⟨.nowhere, rfl, rfl, hr⟩
  | some p =>
    have htable := ConstDb.Probe.inTable_of_start? hstart
    obtain ⟨seen, hnext, -⟩ := Probe.next_of haddr htable key []
    have hbehind := htable.next key
    simp only [Mapped.of] at hnext
    simp only [Option.map_some]
    rw [hnext, ok_bind]
    cases hmodel : p.next image key with
    | mk result q =>
      rw [hmodel] at hbehind
      rcases result with e | _ | hit
      · exact ⟨.nowhere, rfl, rfl, hr⟩
      · exact ⟨.nowhere, rfl, rfl, hr⟩
      · have hsound := htable.sound_of_mem_hits (ConstDb.Probe.mem_hits_of_next hmodel)
        -- The key that was found stands in the file, where a later call can read it again.
        have hkey : hit.stored.keyStart + hit.stored.keySize ≤ image.bytes.size := by
          have hnext := hsound.next_le
          have hend := image.recordEnd_le_size
          simp only [Stored.next, Stored.valueStart] at hnext
          omega
        have hsize := (Stored.sizes_lt_of_read hsound.read_eq).1
        simp only [Except.map, Option.map_some]
        rw [Hit.value_of haddr hsound]
        exact ⟨_, rfl, ⟨hbehind, hkey, hsize, seen, rfl⟩, hr⟩

/-- The cursor is moved to the next occurrence of its key. -/
theorem findNext_of (haddr : Addressable image.bytes) (hr : r.mapping = some ⟨image, time⟩)
    (hc : Cursor.Is image r.cursor c) :
    ∃ c', findNext (.of image) c = .ok (r.findNext.1, c') ∧
      Cursor.Is image r.findNext.2.cursor c' ∧ r.findNext.2.mapping = some ⟨image, time⟩ := by
  cases hcursor : r.cursor with
  | none =>
    rw [hcursor] at hc
    have hself := r.findNext_eq_none hr hcursor
    refine ⟨c, ?_, ?_, ?_⟩
    · rw [hself, findNext, show c.probe = none from hc]
    · rw [hself, hcursor]
      exact hc
    · rw [hself, hr]
  | some t =>
    rw [hcursor] at hc
    obtain ⟨htable, hkey, hsize, seen, rfl⟩ := hc
    -- The key lay inside the file when the cursor was put on it.
    have hstart := toNat_of_le_size haddr (show t.keyStart ≤ image.bytes.size by omega)
    have hsizeword := toNat_widened hsize
    have hstop := toNat_of_le_size haddr hkey
    have hadd : add64 (.ofNat t.keyStart) (UInt32.ofNat t.keySize).toUInt64 =
        .ok (.ofNat (t.keyStart + t.keySize)) := by
      simp only [Addressable] at haddr
      exact add64_eq_ok hstart hsizeword (by omega)
    have hslice : slice (Mapped.of image).data (.ofNat t.keyStart)
        (.ofNat (t.keyStart + t.keySize)) = .ok (t.key image) :=
      slice_eq_ok hstart hstop (Nat.le_add_right ..) hkey
    obtain ⟨seen', hnext, -⟩ := Probe.next_of haddr htable (t.key image) seen
    have hbehind := htable.next (t.key image)
    rw [Reader.findNext_eq hr hcursor]
    simp only [findNext]
    rw [hadd, ok_bind, hslice, ok_bind, hnext, ok_bind]
    cases hmodel : t.probe.next image (t.key image) with
    | mk result q =>
      rw [hmodel] at hbehind
      rcases result with e | _ | hit
      · exact ⟨_, rfl, rfl, hr⟩
      · exact ⟨_, rfl, rfl, hr⟩
      · have hsound := htable.sound_of_mem_hits (ConstDb.Probe.mem_hits_of_next hmodel)
        have hvalue : (Hit.of hit).value (Mapped.of image).data = .ok (hit.value image) :=
          Hit.value_of haddr hsound
        simp only [Except.map, Option.map_some]
        rw [hvalue]
        exact ⟨_, rfl, ⟨hbehind, hkey, hsize, seen', rfl⟩, hr⟩

/-! ### One query -/

theorem replyOf_map {α β : Type} (answer : β → Answer) (f : α → β) (x : Except Error α) :
    Session.replyOf answer (x.map f) = Session.replyOf (fun a => answer (f a)) x := by
  cases x <;> rfl

theorem map_nil_append {α : Type} (x : Except Error (List α)) : x.map ([] ++ ·) = x := by
  cases x <;> rfl

/-- The number of occurrences of a key survives as a word. -/
theorem count_words (image : Image) (key : ByteArray) :
    ((image.count key).map UInt64.ofNat).map UInt64.toNat = image.count key := by
  cases hcount : image.count key with
  | error e => rfl
  | ok n =>
    rw [Image.count] at hcount
    cases hhits : (image.hits key).toExcept with
    | error e =>
      rw [hhits] at hcount
      cases hcount
    | ok hits =>
      rw [hhits] at hcount
      cases hcount
      have hlength := image.length_hits_lt key
      rw [(Walk.toExcept_eq_ok.1 hhits).1] at hlength
      simp only [Except.map]
      rw [UInt64.toNat_ofNat_of_lt' (Nat.lt_trans hlength (by decide))]

private theorem perform_dump {m : Mapped} (c : Cursor) {n : Except Error UInt64} {text : ByteArray}
    (h : dump m = .ok (n, text)) :
    perform m c .dump = .ok (.ok (.dumped (n.map UInt64.toNat) text), c) := by
  rw [perform, h]
  rfl

/-- The number of records that were written survives as a word. -/
theorem dump_words (haddr : Addressable image.bytes) :
    ((image.dump {}).1.map UInt64.ofNat).map UInt64.toNat = (image.dump {}).1 := by
  have hlength := length_scan_le image
  rw [Image.dump_eq, Image.records, Walk.failure_map, Walk.items_map, List.length_map]
  cases image.scan.failure with
  | some e => rfl
  | none =>
    simp only [Except.map]
    rw [toNat_of_le_size haddr hlength]

/-- Statistics survive as words. -/
theorem stats_words (haddr : Addressable image.bytes) :
    (image.stats.map Stats.of).map Stats.numbers = image.stats := by
  have hlength := length_scan_le image
  cases hstats : image.stats with
  | error e => rfl
  | ok s =>
    have hfit : image.scan.items.length < 2 ^ 64 :=
      Nat.lt_of_le_of_lt hlength (Nat.lt_trans haddr (by decide))
    rw [Image.stats] at hstats
    simp only [Except.map]
    rw [Stats.numbers_of (Stats.atMost_of_foldM hstats) hfit]

/-- The reply to a question that the machine answers as the image does. -/
theorem reply_of (hr : r.mapping = some ⟨image, time⟩) {α : Type} (answer : α → Answer)
    {question : Image → Except Error α} {x : Except Trap (Except Error α)}
    (hx : x = .ok (question image)) :
    reply c answer x = .ok (Session.replyOf answer (r.ask question), c) := by
  rw [ask_eq hr, hx]
  rfl

/-- The reply to a question that the machine answers in its own words. -/
theorem reply_of_map (hr : r.mapping = some ⟨image, time⟩) {α β : Type} (answer : β → Answer)
    {question : Image → Except Error β} {form : α → β} {result : Except Error α}
    {x : Except Trap (Except Error α)} (hx : x = .ok result)
    (hresult : result.map form = question image) :
    reply c (fun a => answer (form a)) x = .ok (Session.replyOf answer (r.ask question), c) := by
  rw [ask_eq hr, ← hresult, replyOf_map, hx]
  rfl

/-- The machine answers a query as the reader does, and its cursor stays where that of the reader
is. -/
theorem perform_of (haddr : Addressable image.bytes) (hr : r.mapping = some ⟨image, time⟩)
    (hc : Cursor.Is image r.cursor c) (space : FileSpace) (query : Query) :
    ∃ c', perform (.of image) c query = .ok ((Session.stepReader r space query.step).2, c') ∧
      Cursor.Is image (Session.stepReader r space query.step).1.cursor c' ∧
      (Session.stepReader r space query.step).1.mapping = some ⟨image, time⟩ := by
  -- All queries but two leave the reader and the cursor as they are.
  cases query with
  | findKey key =>
    obtain ⟨c', hfind, hc', hr'⟩ := findKey_of haddr hr key
    refine ⟨c', ?_, hc', hr'⟩
    simp only [perform, Query.step, Session.stepReader]
    rw [hfind]
    rfl
  | findNext =>
    obtain ⟨c', hfind, hc', hr'⟩ := findNext_of haddr hr hc
    refine ⟨c', ?_, hc', hr'⟩
    simp only [perform, Query.step, Session.stepReader]
    rw [hfind]
    rfl
  | size =>
    refine ⟨c, ?_, hc, hr⟩
    have hcount : (Mapped.of image).header.records.toNat = image.recordCount :=
      UInt64.toNat_ofNat_of_lt' (recordCount_lt image.header)
    simp only [perform, Query.step, Session.stepReader]
    rw [ask_eq hr, hcount]
    rfl
  | unique => exact ⟨c, reply_of hr .flag (hasUniqueKeys_of haddr), hc, hr⟩
  | validate => exact ⟨c, reply_of hr (fun _ => .unit) (validate_of haddr), hc, hr⟩
  | nth key n => exact ⟨c, reply_of hr .bytes? (nth_of haddr key n), hc, hr⟩
  | keyOf value => exact ⟨c, reply_of hr .bytes? (keyOf_of haddr value), hc, hr⟩
  | count key =>
    exact ⟨c, reply_of_map hr .number (count_of haddr key) (count_words image key), hc, hr⟩
  | hasKey key => exact ⟨c, reply_of_map hr .flag (nth_of haddr key 0) rfl, hc, hr⟩
  | hasValue value => exact ⟨c, reply_of_map hr .flag (keyOf_of haddr value) rfl, hc, hr⟩
  | findAll key =>
    have hfind := findAll_of haddr key []
    rw [map_nil_append] at hfind
    exact ⟨c, reply_of hr .byteStrings hfind, hc, hr⟩
  | valuesAt ks =>
    have hvalues := valuesAt_of haddr ks []
    rw [map_nil_append] at hvalues
    exact ⟨c, reply_of hr .byteStrings hvalues, hc, hr⟩
  | keys => exact ⟨c, reply_of hr .byteStrings (keys_of haddr), hc, hr⟩
  | values => exact ⟨c, reply_of hr .byteStrings (values_of haddr), hc, hr⟩
  | pairs => exact ⟨c, reply_of hr .records (pairs_of haddr), hc, hr⟩
  | toMap => exact ⟨c, reply_of hr _ (toMap_of haddr), hc, hr⟩
  | invert => exact ⟨c, reply_of hr _ (invert_of haddr), hc, hr⟩
  | scan =>
    refine ⟨c, ?_, hc, hr⟩
    have hrecords :
        (image.scan.outcomes.map fun call => call.map (·.map (Entry.of image.bytes))).map
          (fun call => call.map fun r => r.map Entry.record) = image.records.outcomes := by
      rw [Image.records, Walk.outcomes_map, List.map_map]
      apply List.map_congr_left
      rintro (_ | _ | s) _ <;> rfl
    simp only [perform, Query.step, Session.stepReader]
    rw [ask_eq hr, entryCalls_of haddr, ← hrecords]
    rfl
  | occurrences key =>
    refine ⟨c, ?_, hc, hr⟩
    simp only [perform, Query.step, Session.stepReader]
    rw [ask_eq hr, valueCalls_of haddr]
    rfl
  | stats => exact ⟨c, reply_of_map hr .stats (stats_of haddr) (stats_words haddr), hc, hr⟩
  | dump =>
    refine ⟨c, ?_, hc, hr⟩
    have hcurrent : r.dump {} = image.dump {} := by
      rw [Reader.dump, Reader.current, hr]
    simp only [Query.step, Session.stepReader]
    rw [perform_dump c (dump_of haddr), hcurrent, dump_words haddr]

/-- Putting the cursor on a key fails by damage only. -/
theorem findKey_damage (hr : r.mapping = some ⟨image, time⟩) (key : ByteArray) :
    FailsByDamage (r.findKey key).1 := by
  rw [(image.answersFrom_hits key).findKey hr]
  exact ((image.hits_damage key).map _).get? 0

/-- Moving the cursor fails by damage only. -/
theorem findNext_damage (hr : r.mapping = some ⟨image, time⟩) (hc : Cursor.Is image r.cursor c) :
    FailsByDamage r.findNext.1 := by
  cases hcursor : r.cursor with
  | none =>
    rw [r.findNext_eq_none hr hcursor]
    exact .ok _
  | some t =>
    rw [hcursor] at hc
    have hdamage := hc.1.next_damage (t.key image)
    rw [Reader.findNext_eq hr hcursor]
    generalize t.probe.next image (t.key image) = result at hdamage ⊢
    obtain ⟨e | _ | hit, q⟩ := result
    · intro e' he
      cases he
      exact hdamage e rfl
    · exact .ok _
    · exact .ok _

/-- A question that is answered or fails by damage has a safe reply. -/
theorem isSafe_ask (hr : r.mapping = some ⟨image, time⟩) {α : Type}
    {question : Image → Except Error α} (h : FailsByDamage (question image)) {answer : α → Answer}
    (hanswer : ∀ a, (answer a).IsSafe) :
    Reply.IsSafe (Session.replyOf answer (r.ask question)) := by
  rw [ask_eq hr]
  exact h.isSafe hanswer

/-- Every reply of a reader is an answer, or says where the file is damaged. -/
theorem isSafe_stepReader (hr : r.mapping = some ⟨image, time⟩) (hc : Cursor.Is image r.cursor c)
    (space : FileSpace) (query : Query) :
    Reply.IsSafe (Session.stepReader r space query.step).2 := by
  -- Whatever goes through all records or all hits can fail by the damage that ends the walk.
  cases query with
  | findKey key => exact (findKey_damage hr key).isSafe fun _ => trivial
  | findNext => exact (findNext_damage hr hc).isSafe fun _ => trivial
  | size =>
    simp only [Query.step, Session.stepReader]
    rw [ask_eq hr]
    trivial
  | unique => exact isSafe_ask hr image.hasUniqueKeys_damage fun _ => trivial
  | validate => exact isSafe_ask hr image.validate_damage fun _ => trivial
  | nth key n => exact isSafe_ask hr (image.nth_damage key _) fun _ => trivial
  | keyOf value => exact isSafe_ask hr (image.keyOf_damage value) fun _ => trivial
  | count key => exact isSafe_ask hr ((image.hits_damage key).toExcept.map _) fun _ => trivial
  | hasKey key => exact isSafe_ask hr ((image.nth_damage key 0).map _) fun _ => trivial
  | hasValue value => exact isSafe_ask hr ((image.keyOf_damage value).map _) fun _ => trivial
  | findAll key => exact isSafe_ask hr (image.findAll_damage key) fun _ => trivial
  | valuesAt ks => exact isSafe_ask hr (image.valuesAt_damage ks) fun _ => trivial
  | keys => exact isSafe_ask hr (image.pairs_damage.map _) fun _ => trivial
  | values => exact isSafe_ask hr (image.pairs_damage.map _) fun _ => trivial
  | pairs => exact isSafe_ask hr image.pairs_damage fun _ => trivial
  | toMap => exact isSafe_ask hr (image.pairs_damage.map _) fun _ => trivial
  | invert => exact isSafe_ask hr (image.pairs_damage.map _) fun _ => trivial
  | scan =>
    simp only [Query.step, Session.stepReader]
    rw [ask_eq hr]
    exact fun _ hcall => (image.scan_damage.map _).outcomes hcall
  | occurrences key =>
    simp only [Query.step, Session.stepReader]
    rw [ask_eq hr]
    exact fun _ hcall => ((image.hits_damage key).map _).outcomes hcall
  | stats => exact isSafe_ask hr image.stats_damage fun _ => trivial
  | dump =>
    have hcurrent : r.dump {} = image.dump {} := by
      rw [Reader.dump, Reader.current, hr]
    simp only [Query.step, Session.stepReader]
    rw [hcurrent]
    exact image.dump_damage

end

/-! ### Runs -/

theorem length_run (s : Session) (steps : List Step) : (s.run steps).1.length = steps.length := by
  induction steps generalizing s with
  | nil => rfl
  | cons step rest ih => exact congrArg (· + 1) (ih _)

/-- A run answers the queries as a session does in which they are asked of a reader, and each reply
is safe. -/
theorem performAll_of (haddr : Addressable image.bytes) {s : Session} {n : Nat} {r : Reader}
    {time : Nat} {c : Cursor} (hlookup : s.readers.lookup n = some r)
    (hr : r.mapping = some ⟨image, time⟩) (hc : Cursor.Is image r.cursor c)
    (queries : List Query) :
    performAll (.of image) c queries =
        .ok (s.run (queries.map fun query => .reader n query.step)).1 ∧
      ∀ reply ∈ (s.run (queries.map fun query => .reader n query.step)).1, Reply.IsSafe reply := by
  induction queries generalizing s r c with
  | nil => exact ⟨rfl, fun _ h => absurd h List.not_mem_nil⟩
  | cons query queries ih =>
    -- A query leaves the reader its mapping and its cursor in step, which is all that the next one
    -- needs.
    obtain ⟨c', hperform, hc', hr'⟩ := perform_of haddr hr hc s.space query
    have hsafe := isSafe_stepReader hr hc s.space query
    have hstep : s.step (.reader n query.step) =
        ({ s with
            readers := Session.putAt s.readers n (Session.stepReader r s.space query.step).1 },
          (Session.stepReader r s.space query.step).2) := by
      simp only [Session.step, hlookup]
    have hlookup' := Session.lookup_putAt_self s.readers n
      (Session.stepReader r s.space query.step).1
    obtain ⟨hrest, hall⟩ := @ih { s with
      readers := Session.putAt s.readers n (Session.stepReader r s.space query.step).1 } _ _
      hlookup' hr' hc'
    rw [List.map_cons, Session.run, hstep]
    constructor
    · rw [performAll, hperform, ok_bind]
      simp only
      rw [hrest]
      rfl
    · intro reply hreply
      rcases List.mem_cons.1 hreply with rfl | hreply
      · exact hsafe
      · exact hall reply hreply

/-- A run on a file gives the replies of every session that has just opened it. -/
theorem run_eq_replies (haddr : Addressable image.bytes) {s : Session} {n time : Nat} {path : Path}
    (hlookup : s.readers.lookup n = some ⟨path, some ⟨image, time⟩, none⟩)
    (queries : List Query) :
    run image.bytes queries =
        .ok (.ok (s.run (queries.map fun query => .reader n query.step)).1) ∧
      ∀ reply ∈ (s.run (queries.map fun query => .reader n query.step)).1, Reply.IsSafe reply := by
  have hnowhere : Cursor.Is image none .nowhere := rfl
  obtain ⟨hperform, hsafe⟩ := performAll_of haddr hlookup rfl hnowhere queries
  refine ⟨?_, hsafe⟩
  simp only [Mapped.of] at hperform
  rw [run, parse_eq haddr, image.parse_eq, ok_bind]
  simp only [Except.map]
  rw [hperform]
  rfl

/-- No run of queries on a file whose header is accepted traps, and no search on it looks at a slot
twice: each query is answered or fails by damage, as it does in every session that has just opened
the file. -/
theorem run_safe {data : ByteArray} {header : ConstDb.Header} (haddr : Addressable data)
    (hparse : ConstDb.Header.parse data = .ok header) :
    (∀ queries : List Query,
      ∃ replies, run data queries = .ok (.ok replies) ∧ replies.length = queries.length ∧
        (∀ reply ∈ replies, Reply.IsSafe reply) ∧
        ∀ (s : Session) (n time : Nat) (path : Path) (image : Image), image.bytes = data →
          s.readers.lookup n = some ⟨path, some ⟨image, time⟩, none⟩ →
          (s.run (queries.map fun query => .reader n query.step)).1 = replies) ∧
    ∀ key : ByteArray,
      ∃ start, Probe.start? (.of header) key = .ok start ∧
        ∀ p, start = some p → ∀ n,
          ∃ q, p.after ⟨data, .of header⟩ key n = .ok q ∧ q.seen.Nodup ∧
            (∀ slot ∈ q.seen, slot < (header.bucket (Hash.bucketOf (Hash.ofBytes key))).slots) ∧
            q.seen.length ≤ (header.bucket (Hash.bucketOf (Hash.ofBytes key))).slots.toNat := by
  let image : Image := ⟨data, header, hparse⟩
  constructor
  · intro queries
    let opened : Session := ⟨.empty Session.topSize, [], [(0, ⟨.here, some ⟨image, 0⟩, none⟩)]⟩
    have hopened : opened.readers.lookup 0 = some ⟨.here, some ⟨image, 0⟩, none⟩ := rfl
    obtain ⟨hrun, hsafe⟩ := run_eq_replies haddr hopened queries
    refine ⟨_, hrun, ?_, hsafe, ?_⟩
    · rw [length_run, List.length_map]
    · intro s n time path image' hbytes hlookup
      obtain rfl : image' = image := Image.eq_of_bytes_eq hbytes
      obtain ⟨hrun', -⟩ := run_eq_replies haddr hlookup queries
      exact Except.ok.inj (Except.ok.inj (hrun'.symm.trans hrun))
  · intro key
    refine ⟨_, Probe.start?_of image key, ?_⟩
    intro p hp n
    have hstart : Probe.start? (.of image.header) key = .ok (some p) := by
      rw [Probe.start?_of, hp]
    exact Probe.nodup_seen haddr key hstart n

/-- A search that is taken up again behind its last hit, and two scans, on a file of three
records. -/
theorem run_safe_resumed :
    Addressable (Draft.ofRecords Builder.Sample.records).image ∧
      ∃ header, ConstDb.Header.parse (Draft.ofRecords Builder.Sample.records).image = .ok header ∧
        ∃ replies, run (Draft.ofRecords Builder.Sample.records).image
            [.findKey ⟨#[0x6b]⟩, .findNext, .findNext, .findNext, .stats, .dump] =
              .ok (.ok replies) ∧
          replies.length = 6 ∧ ∀ reply ∈ replies, Reply.IsSafe reply := by
  have haddr : Addressable (Draft.ofRecords Builder.Sample.records).image := by
    rw [Addressable, Draft.size_image, Draft.tablesSize_eq]
    decide
  obtain ⟨hstorable, -, -⟩ := Builder.file_of_finish Builder.Sample.open_eq
    Builder.Sample.addAll_eq Builder.Sample.finish_eq
  have hparse := hstorable.addressable.parse_image
  obtain ⟨replies, hrun, hlength, hsafe, -⟩ := (run_safe haddr hparse).1
    [.findKey ⟨#[0x6b]⟩, .findNext, .findNext, .findNext, .stats, .dump]
  exact ⟨haddr, _, hparse, replies, hrun, hlength, hsafe⟩

end ConstDb.Machine
