import Itemwise.Step.Basic

namespace Itemwise

/-!
# Chains of operands

* `Step.foldRounds` — operators and operands after a first operand, for as long as both succeed and
  get further;
* `Step.chain` — operands joined by operators, combined from the left.

An operator that no operand follows is left unconsumed.
-/

namespace Step

variable {σ : Type}

/-- Combines further operands into `value`; `fuel` bounds the rounds. -/
def foldRounds (operand operator : Step σ) (combine : Value → Value → Value → Action σ Value) :
    (fuel : Nat) → Context → (value : Value) → (pos : Nat) → Action σ (Outcome Value)
  | 0, _, _, _ => throw .endless
  | fuel + 1, c, value, pos => do
    match ← operator (c.moveTo pos) with
    | .failure q => if q.isAt pos then return .success value pos else return .failure q
    | .success f q =>
      match ← operand (c.moveTo q) with
      | .failure r => if r.isAt q then return .success value pos else return .failure r
      | .success w r =>
        if r = pos then return .success value pos
        else
          let next ← combine f value w
          foldRounds operand operator combine fuel c next r

/-- Operands joined by operators: `combine` gives what an operator makes of two operands. -/
def chain (operand operator : Step σ) (combine : Value → Value → Value → Action σ Value) :
    Step σ := fun c => do
  match ← operand c with
  | .failure q => return .failure q
  | .success v q => foldRounds operand operator combine c.mostRounds c v q

end Step

end Itemwise
