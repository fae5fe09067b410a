import ConstDb.Proofs.Image.Reach
import ConstDb.Session.Basic

/-! # Lookups call by call

Every lookup of a key asks one search for its next hit, again and again, and what it is told is an
item of the walk of all hits, or the error that ended that walk, or nothing.  A cursor keeps the
search between the calls.  It may be taken up again at any time, so it matters that every cursor
that a session can bring about stands where some lookup of its key gets (`Image.Reaches`).

## Key results

- `Image.answersFrom_hits`: all lookups of a key answer from the walk of its hits
- `Session.OnCourse.run`: the cursors of a session stay where lookups get, whatever its steps are
-/

namespace ConstDb

theorem Walk.get?_cons_succ {α : Type} (a : α) (w : Walk α) (n : Nat) :
    (w.cons a).get? (n + 1) = w.get? n := rfl

/-- What a search is told is the first of its hits, or what ends it before. -/
theorem Probe.get?_hits_zero (image : Image) (key : ByteArray) (p : Probe) :
    (p.hits image key).get? 0 = (p.next image key).1 := by
  rw [hits_eq_match]
  rcases p.next image key with ⟨_ | _ | hit, q⟩ <;> rfl

namespace Image

/-- A lookup of the key asks the search `p` for hit number `n`: all calls before had one. -/
inductive Reaches (image : Image) (key : ByteArray) : Nat → Probe → Prop
  | start {p : Probe} (hstart : Probe.start? image key = some p) : Reaches image key 0 p
  | hit {n : Nat} {p q : Probe} {hit : Hit} (h : Reaches image key n p)
      (hnext : p.next image key = (.ok (some hit), q)) : Reaches image key (n + 1) q

variable {image : Image} {key : ByteArray}

/-- The hits behind a call are those of the search that it asks. -/
theorem Reaches.get?_hits {n : Nat} {p : Probe} (h : image.Reaches key n p) (m : Nat) :
    (image.hits key).get? (n + m) = (p.hits image key).get? m := by
  induction h generalizing m with
  | start hstart =>
    rw [Nat.zero_add, hits, hstart]
  | @hit n p q hit _ hnext ih =>
    have hcons : p.hits image key = .cons hit (q.hits image key) := by
      rw [Probe.hits_eq_match, hnext]
    rw [Nat.add_assoc, Nat.add_comm 1 m, ih (m + 1), hcons, Walk.get?_cons_succ]

/-- What a call is told is the item of the walk at its place. -/
theorem Reaches.next_eq {n : Nat} {p : Probe} (h : image.Reaches key n p) :
    (p.next image key).1 = (image.hits key).get? n := by
  rw [← Probe.get?_hits_zero, ← h.get?_hits 0, Nat.add_zero]

/-- All lookups of a key answer from one walk of hits: a lookup that stops at an occurrence is told
of no damage behind it. -/
structure AnswersFrom (image : Image) (key : ByteArray) (w : Walk Hit) : Prop where
  nth (n : Nat) : image.nth key n = (w.map (Hit.value image)).get? n
  count : image.count key = w.toExcept.map List.length
  findAll : image.findAll key = w.toExcept.map fun hits => hits.map (Hit.value image)
  occurrences : image.occurrences key = w.map (Hit.value image)
  firstHit : image.firstHit key = (w.get? 0).map fun hit => hit.map Hit.stored
  findKey {r : Reader} {time : Nat} (hr : r.mapping = some ⟨image, time⟩) :
    (r.findKey key).1 = (w.map (Hit.value image)).get? 0
  /-- The cursor comes from call number `n`. -/
  findNext {r : Reader} {time n : Nat} {c : Cursor} (hr : r.mapping = some ⟨image, time⟩)
    (hc : r.cursor = some c) (hkey : c.key image = key) (hreach : image.Reaches key n c.probe) :
    r.findNext.1 = (w.map (Hit.value image)).get? n

end Image

/-! ### The cursor -/

namespace Reader

variable {r : Reader} {image : Image} {time : Nat}

/-- What `findKey` gives, and where it leaves the cursor. -/
theorem findKey_eq (hr : r.mapping = some ⟨image, time⟩) (key : ByteArray) :
    r.findKey key =
      match Probe.start? image key with
      | none => (.ok none, { r with cursor := none })
      | some p =>
        match p.next image key with
        | (.error e, _) => (.error e, { r with cursor := none })
        | (.ok none, _) => (.ok none, { r with cursor := none })
        | (.ok (some hit), q) =>
          (.ok (some (hit.value image)),
            { r with cursor := some ⟨q, hit.stored.keyStart, hit.stored.keySize⟩ }) := by
  obtain ⟨path, mapping, cursor⟩ := r
  cases hr
  rfl

/-- A cursor that is nowhere finds nothing and stays there. -/
theorem findNext_eq_none (hr : r.mapping = some ⟨image, time⟩) (hc : r.cursor = none) :
    r.findNext = (.ok none, r) := by
  simp only [findNext, current, hr, hc]

/-- What `findNext` gives, and where it leaves the cursor. -/
theorem findNext_eq (hr : r.mapping = some ⟨image, time⟩) {c : Cursor} (hc : r.cursor = some c) :
    r.findNext =
      match c.probe.next image (c.key image) with
      | (.error e, _) => (.error e, { r with cursor := none })
      | (.ok none, _) => (.ok none, { r with cursor := none })
      | (.ok (some hit), q) =>
        (.ok (some (hit.value image)), { r with cursor := some { c with probe := q } }) := by
  obtain ⟨path, mapping, cursor⟩ := r
  cases hr
  cases hc
  rfl

end Reader

/-- The cursor is nowhere after `findKey`, or where the next call for the key asks. -/
theorem Reader.findKey_cases {r : Reader} {image : Image} {time : Nat}
    (hr : r.mapping = some ⟨image, time⟩) (key : ByteArray) :
    ((r.findKey key).2.cursor = none ∧ ∀ value, (r.findKey key).1 ≠ .ok (some value)) ∨
      ∃ c, (r.findKey key).2 = { r with cursor := some c } ∧ c.key image = key ∧
        image.Reaches key 1 c.probe := by
  rw [findKey_eq hr]
  cases hstart : Probe.start? image key with
  | none => exact .inl ⟨rfl, by simp⟩
  | some p =>
    simp only
    cases hnext : p.next image key with
    | mk result q =>
      rcases result with _ | _ | hit
      · exact .inl ⟨rfl, by simp⟩
      · exact .inl ⟨rfl, by simp⟩
      · have hsound := (Probe.inTable_of_start? hstart).sound_of_mem_hits
          (Probe.mem_hits_of_next hnext)
        exact .inr ⟨_, rfl, hsound.key_eq, (Image.Reaches.start hstart).hit hnext⟩

/-- All lookups of a key answer from the walk of its hits. -/
theorem Image.answersFrom_hits (image : Image) (key : ByteArray) :
    image.AnswersFrom key (image.hits key) where
  nth n := image.nth_eq key n
  count := rfl
  findAll := rfl
  occurrences := rfl
  firstHit := image.firstHit_eq key
  findKey hr := by
    rw [Reader.findKey_eq hr, Walk.get?_map, hits]
    cases Probe.start? image key with
    | none => rfl
    | some p =>
      simp only
      rw [Probe.get?_hits_zero]
      rcases p.next image key with ⟨_ | _ | hit, q⟩ <;> rfl
  findNext hr hc hkey hreach := by
    rw [Reader.findNext_eq hr hc, hkey, Walk.get?_map, ← hreach.next_eq]
    rename_i c
    rcases c.probe.next image key with ⟨_ | _ | hit, q⟩ <;> rfl

/-- After `findKey` a reader goes on to the second occurrence of the key, if there is one. -/
theorem Reader.findNext_of_findKey {r : Reader} {image : Image} {time : Nat}
    (hr : r.mapping = some ⟨image, time⟩) {key first second : ByteArray} {more : List ByteArray}
    {failure : Option Error}
    (hoccurrences : image.occurrences key = ⟨first :: second :: more, failure⟩) :
    ∃ c, r.findKey key = (.ok (some first), { r with cursor := some c }) ∧
      (findNext { r with cursor := some c }).1 = .ok (some second) := by
  have hanswers := image.answersFrom_hits key
  rw [hanswers.occurrences] at hoccurrences
  have hfirst := hanswers.findKey hr
  rw [hoccurrences] at hfirst
  rcases findKey_cases hr key with ⟨-, hnone⟩ | ⟨c, hc, hkey, hreach⟩
  · exact absurd hfirst (hnone first)
  · have hnext : (findNext { r with cursor := some c }).1 = _ :=
      hanswers.findNext hr rfl hkey hreach
    rw [hoccurrences] at hnext
    exact ⟨c, Prod.ext hfirst hc, hnext⟩

/-- The cursor of a reader stands where some lookup of its key gets. -/
def Reader.OnCourse (r : Reader) : Prop :=
  ∀ mapping c, r.mapping = some mapping → r.cursor = some c →
    ∃ n, mapping.image.Reaches (c.key mapping.image) n c.probe

namespace Reader.OnCourse

variable {r : Reader}

/-- A cursor that is nowhere is on course. -/
theorem of_cursor_none (h : r.cursor = none) : r.OnCourse := by
  intro mapping c _ hc
  cases h.symm.trans hc

/-- A reader of the same image whose cursor is nowhere or was moved on is on course. -/
private theorem findNext (h : r.OnCourse) : r.findNext.2.OnCourse := by
  cases hmapping : r.mapping with
  | none =>
    have hself : r.findNext.2 = r := by
      simp only [Reader.findNext, current, hmapping]
    rw [hself]
    exact h
  | some mapping =>
    cases hcursor : r.cursor with
    | none =>
      have hself : r.findNext.2 = r := by
        simp only [Reader.findNext, current, hmapping, hcursor]
      rw [hself]
      exact h
    | some c =>
      obtain ⟨n, hreach⟩ := h mapping c hmapping hcursor
      rw [Reader.findNext_eq hmapping hcursor]
      cases hnext : c.probe.next mapping.image (c.key mapping.image) with
      | mk result q =>
        rcases result with _ | _ | hit
        · exact of_cursor_none rfl
        · exact of_cursor_none rfl
        · intro mapping' c' hmapping' hc'
          cases hmapping.symm.trans hmapping'
          cases hc'
          -- The key of the cursor is that of the first hit still.
          exact ⟨n + 1, hreach.hit hnext⟩

private theorem findKey (h : r.OnCourse) (key : ByteArray) : (r.findKey key).2.OnCourse := by
  cases hmapping : r.mapping with
  | none =>
    have hself : (r.findKey key).2 = r := by
      simp only [Reader.findKey, current, hmapping]
    rw [hself]
    exact h
  | some mapping =>
    rcases findKey_cases hmapping key with ⟨hnone, -⟩ | ⟨c, hc, hkey, hreach⟩
    · exact of_cursor_none hnone
    · rw [hc]
      intro mapping' c' hmapping' hc'
      cases hmapping.symm.trans hmapping'
      cases hc'
      exact ⟨1, hkey.symm ▸ hreach⟩

private theorem close (h : r.OnCourse) (space : FileSpace) :
    (Session.stepReader r space .close).1.OnCourse := by
  simp only [Session.stepReader]
  cases hclose : r.close with
  | error e => exact h
  | ok r' =>
    simp only [Reader.close] at hclose
    obtain ⟨mapping, -, rfl⟩ := map_eq_ok.1 hclose
    exact of_cursor_none rfl

/-- A reader that takes a new file forgets its cursor. -/
private theorem refresh_eq_ok {space : FileSpace} {changed : Bool} {r' : Reader}
    (h : r.refresh space = .ok (changed, r')) : r' = r ∨ r'.cursor = none := by
  have loaded (h : (Mapping.load space r.path).map (fun fresh =>
      (true, { r with mapping := some fresh, cursor := none })) = .ok (changed, r')) :
      r'.cursor = none := by
    obtain ⟨fresh, -, heq⟩ := map_eq_ok.1 h
    cases heq
    rfl
  -- Only a file with the stamp and the size of the mapping is left alone.
  simp only [Reader.refresh] at h
  split at h
  · simp at h
  · split at h
    · simp at h
    · rename_i node _
      cases node with
      | directory => exact .inr (loaded h)
      | file f =>
        simp only [decide_eq_true_eq] at h
        split at h
        · cases h
          exact .inl rfl
        · exact .inr (loaded h)

private theorem refresh (h : r.OnCourse) (space : FileSpace) :
    (Session.stepReader r space .refresh).1.OnCourse := by
  simp only [Session.stepReader]
  cases hrefresh : r.refresh space with
  | error e => exact h
  | ok result =>
    rcases refresh_eq_ok hrefresh with hsame | hnone
    · simp only [hsame]
      exact h
    · exact of_cursor_none hnone

/-- Whatever is done with a reader keeps its cursor on course. -/
theorem stepReader (h : r.OnCourse) (space : FileSpace) (step : ReaderStep) :
    (Session.stepReader r space step).1.OnCourse := by
  cases step with
  | close => exact h.close space
  | refresh => exact h.refresh space
  | advise name =>
    simp only [Session.stepReader]
    split <;> exact h
  | findKey key => exact h.findKey key
  | findNext => exact h.findNext
  | _ => exact h

end Reader.OnCourse

/-- The reader that a step is about. -/
def Step.reader? : Step → Option Nat
  | .open n _ => some n
  | .reader n _ => some n
  | _ => none

namespace Session

/-- The cursors of all readers stand where lookups of their keys get. -/
def OnCourse (s : Session) : Prop := ∀ entry ∈ s.readers, entry.2.OnCourse

theorem onCourse_start (clock : Nat → Nat) : OnCourse (start clock) :=
  fun _ h => absurd h List.not_mem_nil

variable {s : Session}

theorem OnCourse.of_lookup (h : s.OnCourse) {n : Nat} {r : Reader}
    (hlookup : s.readers.lookup n = some r) : r.OnCourse := by
  obtain ⟨before, behind, hreaders, -⟩ := List.lookup_eq_some_iff.1 hlookup
  exact h (n, r) (by rw [hreaders]; simp)

theorem OnCourse.putAt (h : s.OnCourse) {r : Reader} (hr : r.OnCourse) (n : Nat) :
    ∀ entry ∈ Session.putAt s.readers n r, entry.2.OnCourse := by
  intro entry hentry
  rcases List.mem_cons.1 hentry with rfl | hentry
  · exact hr
  · exact h entry (List.mem_filter.1 hentry).1

theorem OnCourse.dropAt (h : s.OnCourse) (n : Nat) :
    ∀ entry ∈ Session.dropAt s.readers n, entry.2.OnCourse :=
  fun entry hentry => h entry (List.mem_filter.1 hentry).1

theorem readers_changed (s : Session) (result : Except Fault FileSpace) :
    (s.changed result).1.readers = s.readers := by
  cases result <;> rfl

theorem readers_dropBuilder (s : Session) (n : Nat) : (s.dropBuilder n).readers = s.readers := by
  unfold dropBuilder
  split <;> rfl

/-- Only `open` and what is done with a reader touch the readers. -/
theorem readers_step (s : Session) {step : Step} (h : step.reader? = none) :
    (s.step step).1.readers = s.readers := by
  -- Only steps that are about a reader, which are excluded here, change the list of readers.
  cases step with
  | write path data => exact s.readers_changed _
  | patch source path edits resize tail =>
    simp only [Session.step]
    split
    · rfl
    · rename_i f _
      have hchanged := s.readers_changed
        (s.space.write path (patched f.bytes edits resize tail) writtenMode)
      split <;> rename_i heq <;> rw [heq] at hchanged <;> exact hchanged
  | read path start stop =>
    simp only [Session.step]
    split <;> rfl
  | remove path => exact s.readers_changed _
  | makeDirectory path => exact s.readers_changed _
  | removeDirectory path => exact s.readers_changed _
  | mode path =>
    simp only [Session.step]
    split <;> rfl
  | setMode path mode => exact s.readers_changed _
  | setTime path time => rfl
  | list path =>
    simp only [Session.step]
    split <;> rfl
  | build n path mode =>
    simp only [Session.step, Session.build]
    split <;> exact s.readers_dropBuilder n
  | drop n => exact s.readers_dropBuilder n
  | builder n step =>
    simp only [Session.step, workOn]
    split <;> rfl
  | create path mode rs ending => rfl
  | «open» n path => cases h
  | reader n step => cases h
  | command args stdin settings => rfl

/-- Each step of a session keeps its cursors on course. -/
theorem OnCourse.step (h : s.OnCourse) (step : Step) : (s.step step).1.OnCourse := by
  -- A new reader has no cursor, and what is asked of a reader keeps it on course.
  cases step with
  | «open» n path =>
    simp only [Session.step]
    split
    · exact h.dropAt n
    · rename_i r hopen
      have hnone : r.cursor = none := by
        obtain ⟨mapping, -, rfl⟩ := map_eq_ok.1 hopen
        rfl
      exact OnCourse.putAt (s := { s with readers := Session.dropAt s.readers n }) (h.dropAt n)
        (.of_cursor_none hnone) n
  | reader n step =>
    simp only [Session.step]
    split
    · exact h
    · rename_i r hlookup
      exact h.putAt ((h.of_lookup hlookup).stepReader s.space step) n
  | _ =>
    rw [OnCourse, s.readers_step rfl]
    exact h

/-- The cursors of a session stay on course, whatever its steps are. -/
theorem OnCourse.run (h : s.OnCourse) (steps : List Step) : (s.run steps).2.OnCourse := by
  induction steps generalizing s with
  | nil => exact h
  | cons step rest ih => exact ih (h.step step)

end Session

end ConstDb
