import Itemwise.Leaf.Blank

namespace Itemwise

/-!
# Steps after white space

* `Step.eat` — white space, then a step; white space alone does not count as consumed, so a failure
  right after it is one at the start.
-/

namespace Step

variable {σ : Type}

/-- Skips white space, then runs a step. -/
def eat (p : Step σ) : Step σ := fun c => do
  let start ← Action.ofExcept (Leaf.skipBlanks c.items c.pos)
  if start = c.pos then p c
  else
    match ← p (c.moveTo start) with
    | .failure q => if q.isAt start then return .failure c.pos else return .failure q
    | s => return s

end Step

end Itemwise
