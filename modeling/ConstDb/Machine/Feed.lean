import ConstDb.Error
import ConstDb.Machine.Word

/-! # Feeds and loops

A feed hands out items one by one.  A call gives an item or an error, or nothing when there is
nothing more.  What a feed has left bounds the calls that give something, so a loop over a feed
ends, whatever its body does. -/

namespace ConstDb.Machine

/-- How one turn of a loop ends: the loop goes on, or it is left with a result. -/
inductive Turn (σ β : Type) where
  | more (s : σ)
  | stop (r : Except Error β)

/-- What a loop leaves behind: its state, and the result that it was left with, if it was. -/
structure Exit (σ β : Type) where
  state : σ
  result : Option (Except Error β)

/-- The result of a loop, which `f` makes of its state when it was not left. -/
def Exit.finish {σ β : Type} (f : σ → β) (x : Exit σ β) : Except Error β :=
  match x.result with
  | none => .ok (f x.state)
  | some r => r

/-- Hands out items. -/
structure Feed (S α : Type) where
  next : S → Except Trap (Option (Except Error α) × S)
  /-- Bounds the calls that still give something. -/
  left : S → Nat
  left_lt : ∀ {s t : S} {r : Except Error α}, next s = .ok (some r, t) → left t < left s

namespace Feed

variable {S α β σ : Type}

/-- What the calls of a feed give until one gives nothing, and what the call behind that gives. -/
def calls (feed : Feed S α) (s : S) : Except Trap (List (Option (Except Error α))) :=
  match _h : feed.next s with
  | .error trap => .error trap
  | .ok (none, t) =>
    match feed.next t with
    | .error trap => .error trap
    | .ok (again, _) => .ok [none, again]
  | .ok (some r, t) =>
    match feed.calls t with
    | .error trap => .error trap
    | .ok rest => .ok (some r :: rest)
termination_by feed.left s
decreasing_by exact feed.left_lt _h

/-- Goes through the items of a feed until the body of the loop leaves it or an error is met. -/
def forEach (feed : Feed S α) (body : σ → α → Except Trap (Turn σ β)) (x : σ) (s : S) :
    Except Trap (Exit σ β) :=
  match _h : feed.next s with
  | .error trap => .error trap
  | .ok (none, _) => .ok ⟨x, none⟩
  | .ok (some (.error e), _) => .ok ⟨x, some (.error e)⟩
  | .ok (some (.ok a), t) =>
    match body x a with
    | .error trap => .error trap
    | .ok (.stop r) => .ok ⟨x, some r⟩
    | .ok (.more y) => feed.forEach body y t
termination_by feed.left s
decreasing_by exact feed.left_lt _h

/-- The call of a feed that makes something else of each item. -/
def nextThrough (feed : Feed S α) (f : α → Except Trap β) (s : S) :
    Except Trap (Option (Except Error β) × S) :=
  match feed.next s with
  | .error trap => .error trap
  | .ok (none, t) => .ok (none, t)
  | .ok (some (.error e), t) => .ok (some (.error e), t)
  | .ok (some (.ok a), t) =>
    match f a with
    | .error trap => .error trap
    | .ok b => .ok (some (.ok b), t)

/-- Makes something else of each item before it is handed out. -/
def through (feed : Feed S α) (f : α → Except Trap β) : Feed S β where
  next := feed.nextThrough f
  left := feed.left
  left_lt {s t r} h := by
    unfold nextThrough at h
    split at h
    · cases h
    · simp at h
    · rename_i hnext
      simp only [Except.ok.injEq, Prod.mk.injEq] at h
      obtain ⟨-, rfl⟩ := h
      exact feed.left_lt hnext
    · rename_i hnext
      split at h
      · cases h
      · simp only [Except.ok.injEq, Prod.mk.injEq] at h
        obtain ⟨-, rfl⟩ := h
        exact feed.left_lt hnext

end Feed

end ConstDb.Machine
