import Itemwise.Step.Basic

namespace Itemwise

/-!
# Choice and backtracking

* `Step.choice` — the alternatives in order: the next one is tried only when the one before failed
  without consuming;
* `Step.greedyChoice` — all alternatives, of which the longest success is kept;
* `Step.choose` — the alternative that a value selects;
* `Step.attempt`, `Step.peek`, `Step.optional`, `Step.notFollowedBy` — control of what counts as
  consumed.
-/

namespace Step

variable {σ : Type}

/-- The first alternative that does not fail where it started, after some that failed, the last one
    at a given place. -/
def choiceAfter (last : Place) : List (Step σ) → Step σ
  | [], _ => return .failure last
  | p :: ps, c => do
    match ← p c with
    | .failure q => if q.isAt c.pos then choiceAfter q ps c else return .failure q
    | s => return s

/-- The first alternative that does not fail where it started. -/
def choice (ps : List (Step σ)) : Step σ := fun c => choiceAfter c.pos ps c

/-- The better of two outcomes of alternatives run from the same position: a success before a
    failure, and of two of a kind the one that reached further, the earlier one on a tie. -/
def better (best next : Outcome Value) : Outcome Value :=
  match best, next with
  | .failure p, .failure q => if p.precedes q then .failure q else .failure p
  | .failure _, s => s
  | s, .failure _ => s
  | .success v p, .success w q => if p < q then .success w q else .success v p

/-- The best outcome of the alternatives, starting from one already known. -/
def best : List (Step σ) → (known : Outcome Value) → Step σ
  | [], known, _ => return known
  | p :: ps, known, c => do best ps (better known (← p c)) c

/-- The alternative that reaches furthest. -/
def greedyChoice (ps : List (Step σ)) : Step σ := fun c => best ps (.failure c.pos) c

/-- The step of the first arm whose test accepts the value, or the one for all other values. -/
def select : List ((Value → Except Fault Bool) × Step σ) → Option (Step σ) → Value →
    Except Fault (Option (Step σ))
  | [], default, _ => .ok default
  | (test, p) :: arms, default, v =>
    match test v with
    | .error f => .error f
    | .ok true => .ok (some p)
    | .ok false => select arms default v

/-- Runs `p`, then the step that its value selects; fails at the start if it selects none. -/
def choose [Memory σ] (p : Step σ) (arms : List ((Value → Except Fault Bool) × Step σ))
    (default : Option (Step σ)) : Step σ := fun c => do
  match ← p c with
  | .failure q => return .failure q
  | .success v q =>
    match ← Action.ofExcept (select arms default (← Action.look v)) with
    | some s => s (c.moveTo q)
    | none => return .failure c.pos

/-- A failure counts as one at the start. -/
def attempt (p : Step σ) : Step σ := fun c => do
  match ← p c with
  | .failure q => if q.isAt c.pos then return .failure q else return .failure c.pos
  | s => return s

/-- A failure that consumed nothing counts as the success with nothing. -/
def optional (p : Step σ) : Step σ := fun c => do
  match ← p c with
  | .failure q => if q.isAt c.pos then return .success .null c.pos else return .failure q
  | s => return s

/-- Either outcome, but nothing is consumed. -/
def peek (p : Step σ) : Step σ := fun c => do
  match ← p c with
  | .failure _ => return .failure c.pos
  | .success v _ => return .success v c.pos

/-- Succeeds with nothing exactly where `p` fails. -/
def notFollowedBy (p : Step σ) : Step σ := fun c => do
  match ← p c with
  | .failure _ => return .success .null c.pos
  | .success .. => return .failure c.pos

end Step

end Itemwise
