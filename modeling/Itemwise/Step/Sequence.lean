import Itemwise.Step.Basic

namespace Itemwise

/-!
# Steps in sequence

* `Step.collect` — steps one after the other, with the list of their values;
* `SequenceKind`, `Step.sequence` — the same with one value made of that list;
* `Step.times` — one step a number of times, with the stretch it consumed.

A failure is reported where the failing part gave up.
-/

/-- What a sequence makes of the values of its parts. -/
inductive SequenceKind (σ : Type)
  /-- The tuple of all of them. -/
  | all
  /-- The first of them. -/
  | first
  /-- The middle one of three. -/
  | middle
  /-- The last of them. -/
  | last
  /-- What an action makes of them. -/
  | apply (f : List Value → Action σ Value)

namespace SequenceKind

variable {σ : Type}

/-- The name of the sequences of a kind. -/
def label : SequenceKind σ → String
  | .all => "seq"
  | .first => "left"
  | .middle => "middle"
  | .last => "right"
  | .apply _ => "lift"

/-- The value made of the values of the parts. -/
def combine : SequenceKind σ → List Value → Action σ Value
  | .all, vs => return .tuple vs
  | .first, vs => Action.ofExcept (Fault.attempt .badIndex vs.head?)
  | .middle, vs => Action.ofExcept (Fault.attempt .badIndex vs[1]?)
  | .last, vs => Action.ofExcept (Fault.attempt .badIndex vs.getLast?)
  | .apply f, vs => f vs

end SequenceKind

namespace Step

variable {σ : Type}

/-- Steps one after the other, with the list of their values. -/
def collect : List (Step σ) → Context → Action σ (Outcome (List Value))
  | [], c => return .success [] c.pos
  | p :: ps, c => do
    match ← p c with
    | .failure q => return .failure q
    | .success v q =>
      match ← collect ps (c.moveTo q) with
      | .failure r => return .failure r
      | .success vs r => return .success (v :: vs) r

/-- Steps one after the other, with one value made of theirs. -/
def sequence (kind : SequenceKind σ) (ps : List (Step σ)) : Step σ := fun c => do
  match ← collect ps c with
  | .failure q => return .failure q
  | .success vs q => return .success (← kind.combine vs) q

/-- The position after running a step `n` times, or the failure of the first run that fails. -/
def again (p : Step σ) : (n : Nat) → Context → Action σ (Outcome Unit)
  | 0, c => return .success () c.pos
  | n + 1, c => do
    match ← p c with
    | .failure q => return .failure q
    | .success _ q => again p n (c.moveTo q)

/-- A step run `n` times, with the stretch it consumed. -/
def times (n : Nat) (p : Step σ) : Step σ := fun c => do
  match ← again p n c with
  | .failure q => return .failure q
  | .success _ q => return .success (← c.sliceTo q) q

end Step

end Itemwise
