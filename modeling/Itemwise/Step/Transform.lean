import Itemwise.Step.Basic
import Itemwise.Value.Sequence

namespace Itemwise

/-!
# Steps that change the value

* `Step.map` — the value replaced by what an action makes of it, which may also change the user
  state;
* `Step.mapIf`, `Step.filter`, `Step.notEmpty` — guards: a value that is refused is a failure at the
  starting position;
* `Step.bind` — the step that a function of the user state and the value gives, from where the first
  one stopped;
* `Step.inState` — a step that finds another user state.
-/

namespace Step

variable {σ : Type}

/-- The value replaced by what an action makes of it. -/
def map (f : Value → Action σ Value) (p : Step σ) : Step σ := fun c => do
  match ← p c with
  | .success v q => return .success (← f v) q
  | .failure q => return .failure q

/-- The value replaced by what an action makes of it, which refuses it by giving nothing. -/
def mapIf (f : Value → Action σ Value) (p : Step σ) : Step σ := fun c => do
  match ← p c with
  | .success v q =>
    match ← f v with
    | .null => return .failure c.pos
    | w => return .success w q
  | .failure q => return .failure q

/-- The value if a test accepts it. -/
def filter [Memory σ] (test : Value → Except Fault Bool) (p : Step σ) : Step σ := fun c => do
  match ← p c with
  | .success v q =>
    if ← Action.ofExcept (test (← Action.look v)) then return .success v q
    else return .failure c.pos
  | .failure q => return .failure q

/-- The value if it holds any items. -/
def notEmpty [Memory σ] (p : Step σ) : Step σ := fun c => do
  match ← p c with
  | .success v q =>
    if (← Action.ofExcept (← Action.lookAt v).length) = 0 then return .failure c.pos
    else return .success v q
  | .failure q => return .failure q

/-- The step that a function of the user state and the value gives, from where the first one
    stopped. -/
def bind (p : Step σ) (next : σ → Value → Step σ) : Step σ := fun c => do
  match ← p c with
  | .success v q => next (← get) v (c.moveTo q)
  | .failure q => return .failure q

/-- The step in a user state instead of the one before it. -/
def inState (s : σ) (p : Step σ) : Step σ := fun c => do
  set s
  p c

end Step

end Itemwise
