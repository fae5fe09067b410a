import ConstDb.Error

/-! # Walks

A walk is what a reader meets when it goes through part of a database: the items in order, and the
error that ended it, if one did.  A damaged database thus still yields all that lies before the
damage.

Seen as an iterator, a walk answers its `n`-th call by `nth`: first the items, then the error once,
then nothing for ever. -/

namespace ConstDb

/-- The items of a walk, and the error that ended it. -/
structure Walk (α : Type) where
  items : List α
  failure : Option Error := none

namespace Walk

variable {α β : Type}

/-- The walk that meets nothing. -/
def empty : Walk α := ⟨[], none⟩

/-- The walk that fails at once. -/
def failed (e : Error) : Walk α := ⟨[], some e⟩

/-- The walk that meets `a` first. -/
def cons (a : α) (w : Walk α) : Walk α := ⟨a :: w.items, w.failure⟩

/-- Applies a function to each item. -/
def map (f : α → β) (w : Walk α) : Walk β := ⟨w.items.map f, w.failure⟩

/-- All items, or the error that ended the walk. -/
def toExcept (w : Walk α) : Except Error (List α) :=
  match w.failure with
  | none => .ok w.items
  | some e => .error e

/-- The first item for which `f` has an answer.  An error counts only when no item before it has
one. -/
def firstSome (f : α → Option β) (w : Walk α) : Except Error (Option β) :=
  match w.items.findSome? f with
  | some b => .ok (some b)
  | none =>
    match w.failure with
    | none => .ok none
    | some e => .error e

/-- Asks `f` of the items in order, up to the first for which it does not hold or fails.  The error
that ended the walk counts only when `f` holds of all items. -/
def allM (f : α → Except Error Bool) (w : Walk α) : Except Error Bool :=
  go w.items
where
  go : List α → Except Error Bool
    | [] =>
      match w.failure with
      | none => .ok true
      | some e => .error e
    | a :: rest =>
      match f a with
      | .error e => .error e
      | .ok true => go rest
      | .ok false => .ok false

/-- Takes the items into a value one by one.  The first error counts: one of `f`, or in the end the
one that ended the walk. -/
def foldM (f : β → α → Except Error β) (b : β) (w : Walk α) : Except Error β :=
  match w.items.foldlM f b with
  | .error e => .error e
  | .ok b =>
    match w.failure with
    | none => .ok b
    | some e => .error e

/-- What call number `n` of an iterator over the walk gives. -/
def nth (w : Walk α) (n : Nat) : Option (Except Error α) :=
  if h : n < w.items.length then some (.ok w.items[n])
  -- The error comes once, in the place behind the last item.
  else if n = w.items.length then w.failure.map .error
  else none

/-- What the calls of an iterator over the walk give, until it had nothing twice. -/
def outcomes (w : Walk α) : List (Option (Except Error α)) :=
  w.items.map (fun a => some (.ok a))
    ++ w.failure.toList.map (fun e => some (.error e))
    ++ List.replicate 2 none

theorem length_outcomes (w : Walk α) :
    w.outcomes.length = w.items.length + w.failure.toList.length + 2 := by
  simp only [outcomes, List.length_append, List.length_map, List.length_replicate]

/-- Each of these calls gives what an iterator gives at its place. -/
theorem getElem_outcomes (w : Walk α) (n : Nat) (h : n < w.outcomes.length) :
    w.outcomes[n] = w.nth n := by
  obtain ⟨items, failure⟩ := w
  simp only [outcomes, nth, List.getElem_append, List.getElem_map, List.getElem_replicate,
    List.length_append, List.length_map]
  by_cases hn : n < items.length
  · simp [hn, Nat.lt_add_right]
  · cases failure with
    | none => simp [hn]
    | some e =>
      by_cases he : n = items.length
      · simp [he]
      · have : ¬n < items.length + 1 := by omega
        simp [hn, he, this]

@[simp] theorem items_map (f : α → β) (w : Walk α) : (w.map f).items = w.items.map f := rfl

@[simp] theorem failure_map (f : α → β) (w : Walk α) : (w.map f).failure = w.failure := rfl

@[simp] theorem items_cons (a : α) (w : Walk α) : (w.cons a).items = a :: w.items := rfl

@[simp] theorem failure_cons (a : α) (w : Walk α) : (w.cons a).failure = w.failure := rfl

theorem toExcept_map (f : α → β) (w : Walk α) :
    (w.map f).toExcept = w.toExcept.map (List.map f) := by
  unfold toExcept map
  cases w.failure <;> rfl

@[simp] theorem toExcept_empty : (empty : Walk α).toExcept = .ok [] := rfl

@[simp] theorem toExcept_failed (e : Error) : (failed e : Walk α).toExcept = .error e := rfl

@[simp] theorem firstSome_empty (f : α → Option β) : (empty : Walk α).firstSome f = .ok none := rfl

@[simp] theorem firstSome_failed (f : α → Option β) (e : Error) :
    (failed e : Walk α).firstSome f = .error e := rfl

theorem firstSome_cons (f : α → Option β) (a : α) (w : Walk α) :
    (w.cons a).firstSome f =
      match f a with
      | some b => .ok (some b)
      | none => w.firstSome f := by
  unfold firstSome
  cases h : f a <;> simp [h]

/-- The calls of an iterator that applies a function to each item. -/
theorem outcomes_map (f : α → β) (w : Walk α) :
    (w.map f).outcomes = w.outcomes.map fun call => call.map (·.map f) := by
  obtain ⟨items, failure⟩ := w
  cases failure <;> simp [outcomes, map, Except.map]

/-- Looking for an item and making something of it. -/
theorem firstSome_map {γ : Type} (f : β → γ) (g : α → Option β) (w : Walk α) :
    w.firstSome (fun a => (g a).map f) = (w.firstSome g).map (Option.map f) := by
  obtain ⟨items, failure⟩ := w
  induction items with
  | nil => cases failure <;> rfl
  | cons a rest ih =>
    have hcons (h : α → Option β) := firstSome_cons h a ⟨rest, failure⟩
    have hcons' (h : α → Option γ) := firstSome_cons h a ⟨rest, failure⟩
    simp only [cons] at hcons hcons'
    rw [hcons, hcons', ih]
    cases g a <;> rfl

/-- A walk gives its items exactly when nothing ended it early. -/
theorem toExcept_eq_ok {w : Walk α} {as : List α} :
    w.toExcept = .ok as ↔ w.items = as ∧ w.failure = none := by
  unfold toExcept
  split <;> simp_all

/-- A walk gives an error exactly when that error ended it. -/
theorem toExcept_eq_error {w : Walk α} {e : Error} :
    w.toExcept = .error e ↔ w.failure = some e := by
  unfold toExcept
  split <;> simp_all

end Walk

end ConstDb
