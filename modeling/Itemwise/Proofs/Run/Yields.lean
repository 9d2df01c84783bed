import Itemwise.Fault

namespace Itemwise

/-!
# What computations yield

* `Yields` — a computation yields results of some kind and ends in faults of some kind only, with
  its rules: `Yields.bind`, `Yields.map`, `Yields.imp`;
* `Raises` — the same where any result will do;
* `Fault.IsPositional` — the faults of a position that is not within the input, and of bounds out of
  order;
* `Fault.IsForeign` — those, and the faults of capabilities that are off: all that no parser ends in
  on its own account.
-/

/-- A position is not within the input, or bounds are out of order. -/
def Fault.IsPositional : Fault → Prop
  | .cursorOutside .. | .invalidSpan .. => True
  | _ => False

/-- A parser ends in the fault only if one of the caller's functions or steps does, or goes where it
    must not. -/
def Fault.IsForeign : Fault → Prop
  | .cursorOutside .. | .invalidSpan .. | .capabilityDisabled .. => True
  | _ => False

/-- A fault of a position is a foreign one. -/
theorem Fault.IsPositional.isForeign {f : Fault} (h : f.IsPositional) : f.IsForeign := by
  cases f with
  | cursorOutside | invalidSpan => trivial
  | _ => exact h.elim

/-- A computation yields only results for which `Q` holds, and ends only in faults for which `F`
    holds. -/
def Yields {α : Type} (F : Fault → Prop) (Q : α → Prop) : Except Fault α → Prop
  | .ok x => Q x
  | .error f => F f

/-- A computation ends only in faults for which `F` holds. -/
abbrev Raises {α : Type} (F : Fault → Prop) (a : Except Fault α) : Prop :=
  Yields F (fun _ => True) a

variable {α β : Type} {F : Fault → Prop} {Q : α → Prop} {R : β → Prop} {a : Except Fault α}

/-- A result of the right kind will do. -/
theorem yields_ok {x : α} (h : Q x) : Yields F Q (.ok x) := h

/-- So will an allowed fault. -/
theorem yields_error {f : Fault} (h : F f) : Yields F Q (.error f : Except Fault α) := h

/-- The kind of the results may be made a wider one. -/
theorem Yields.imp {Q' : α → Prop} (h : Yields F Q a) (himp : ∀ x, Q x → Q' x) : Yields F Q' a := by
  cases a with
  | ok x => exact himp x h
  | error f => exact h

/-- What goes on from a result of the first kind yields one of the second. -/
theorem Yields.bind {k : α → Except Fault β} (h : Yields F Q a) (hk : ∀ x, Q x → Yields F R (k x)) :
    Yields F R (a >>= k) := by
  cases a with
  | ok x => exact hk x h
  | error f => exact h

/-- A change that takes results of one kind to another. -/
theorem Yields.map {g : α → β} (h : Yields F Q a) (hg : ∀ x, Q x → R (g x)) :
    Yields F R (a.map g) := by
  cases a with
  | ok x => exact hg x h
  | error f => exact h

/-- A result alone ends in no fault. -/
theorem raises_ok (x : α) : Raises F (.ok x) := trivial

/-- Faults are all that a computation may end in that is not a result. -/
theorem raises_iff : Raises F a ↔ ∀ f, a = .error f → F f := by
  cases a with
  | ok x => exact ⟨fun _ _ => nofun, fun _ => trivial⟩
  | error f =>
    constructor
    · rintro h _ ⟨⟩
      exact h
    · exact fun h => h f rfl

/-- An absent result is the fault that stands for it. -/
theorem raises_attempt {f : Fault} (h : F f) (x : Option α) : Raises F (Fault.attempt f x) := by
  cases x with
  | some x => trivial
  | none => exact h

end Itemwise
