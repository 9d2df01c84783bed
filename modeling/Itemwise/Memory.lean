import Itemwise.Value.Plain

namespace Itemwise

/-!
# Memory

Values may share containers that the user state keeps.  Wherever the engine looks at a value, it
looks at what the user state says the value is.

* `Memory` — the user states that keep containers, with two ways to look at a value: throughout, or
  at the value itself only;
* a user state that is nothing keeps no containers;
* `Memory.ShowsOwn` — the user states in which nothing is looked up but what is shared.

Values that are plain are what they are in any state.
-/

/-- The user states in which a value that shares containers can be looked at. -/
class Memory (σ : Type) where
  /-- The value with all containers that it shares put in. -/
  whole : σ → Value → Value
  /-- The value as a container whose items are as they are. -/
  surface : σ → Value → Value
  whole_of_isPlain : ∀ (s : σ) (v : Value), v.isPlain = true → whole s v = v
  surface_of_isPlain : ∀ (s : σ) (v : Value), v.isPlain = true → surface s v = v

namespace Memory

/-- A user state that is nothing keeps nothing. -/
instance : Memory Unit := ⟨fun _ v => v, fun _ v => v, fun _ _ _ => rfl, fun _ _ _ => rfl⟩

/-- A value that holds its items itself is a container as it is; only one that is shared is looked
    up. -/
class ShowsOwn (σ : Type) [Memory σ] : Prop where
  surface_of_own : ∀ (s : σ) (v : Value), (∀ place, v ≠ .shared place) → Memory.surface s v = v

instance : ShowsOwn Unit := ⟨fun _ _ _ => rfl⟩

end Memory

end Itemwise
