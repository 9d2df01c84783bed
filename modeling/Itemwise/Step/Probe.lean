import Itemwise.Cursor.Given
import Itemwise.Step.Basic

namespace Itemwise

/-!
# Steps that move without looking

Steps for callers that put parsers of their own between those of a grammar.

* `Step.failAhead`, `Step.jump` — a failure or a success some items away, in either direction;
* `Step.report` — the context as a value.
-/

namespace Step

variable {σ : Type}

/-- A step that works on the cursor where it is run. -/
def onCursor (f : Cursor → Except Fault (Outcome Value)) : Step σ := fun c =>
  Action.ofExcept (Cursor.make c.items c.pos >>= f)

/-- The place of a position that may be a fraction. -/
def placeOf : Value → Except Fault Place
  | .float x => .ok (.fraction x.number)
  | v => (Fault.attempt .wrongKind v.toInt?).map fun n => .position n.toNat

/-- Fails `n` items away, which may be a fraction. -/
def failAhead (n : Value) : Step σ := fun c => do
  let here ← GivenCursor.make c.items (.int c.pos)
  return .failure (← placeOf (← here.advance n).pos)

/-- Succeeds `n` items away, with the items in between. -/
def jump (n : Value) : Step σ := onCursor fun c => do
  let n ← Fault.attempt .wrongKind n.toInt?
  return .success (← c.sliceAhead n) (← c.advance n).pos

/-- Succeeds with the position, the nesting, its limit, whether that is reached, and the number of
    items. -/
def report : Step σ := fun c => do
  unless c.limit.isNumber do throw c.limit.refusal
  return .success (.tuple [.int c.pos, c.limit.nesting c.depth, c.limit.written,
    .bool c.isDepthExceeded,
    .int c.items.size]) c.pos

end Step

end Itemwise
