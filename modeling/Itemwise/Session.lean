import Itemwise.Store.Change

namespace Itemwise

/-!
# Sessions

The named functions of a grammar that is given as data work on a **session**: a user state that is a
value, and the store of the containers that it and all other values share.

* `Session` — the user state and the store;
* `Session.ofState`, `Session.content` — the session that starts with a user state, and what the
  user state is;
* `Session.onState`, `Session.onStore` — an action on the store as one on the session.

A session lasts as long as its grammar is in use, from one input to the next.
-/

/-- A user state that is a value, with the store of all shared containers. -/
structure Session where
  state : Value := .null
  store : Store := {}

namespace Session

/-- The session at its start, with a value as its user state. -/
def ofState (state : Value) : Session :=
  let (state, store) := ({} : Store).keep state
  ⟨state, store⟩

/-- The user state with everything that it shares put in. -/
def content (session : Session) : Value := session.store.whole session.state

variable {α : Type}

/-- An action on the store that looks at the user state. -/
def onState (f : Value → Action Store α) : Action Session α := fun session =>
  match session with
  | ⟨state, store⟩ =>
    match f state store with
    | .ok a store => .ok a ⟨state, store⟩
    | .error fault store => .error fault ⟨state, store⟩

/-- An action on the store. -/
def onStore (a : Action Store α) : Action Session α := onState fun _ => a

/-- Values are looked at in the store of the session. -/
instance : Memory Session where
  whole s v := s.store.whole v
  surface s v := s.store.surface v
  whole_of_isPlain s v h := s.store.whole_of_isPlain v h
  surface_of_isPlain s v h := s.store.surface_of_isPlain v h

instance : Memory.ShowsOwn Session where
  surface_of_own session v hown := by
    cases v with
    | shared place => exact absurd rfl (hown place)
    | _ => rfl

end Session

end Itemwise
