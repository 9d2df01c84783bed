import Itemwise.Diagnostic
import Itemwise.Value.Arithmetic

namespace Itemwise

/-!
# Spans between given values

The bounds of a span are mostly offsets, but whatever can be compared like numbers can bound one.

* `GivenSpan` — a span with the bounds it was given;
* `GivenSpan.make` — the span of two values that are in order and not negative;
* `GivenSpan.length` — how many items it covers, if that is a count;
* `GivenSpan.display` — its written form.
-/

/-- A span with its bounds as they were given. -/
structure GivenSpan where
  start : Value
  stop : Value

namespace GivenSpan

/-- The span from `start` to `stop`. -/
def make (start stop : Value) : Except Fault GivenSpan := do
  if ← Value.test .lt start (.int 0) then throw (.invalidSpan start stop)
  if ← Value.test .lt stop start then throw (.invalidSpan start stop)
  return ⟨start, stop⟩

/-- How many items the span covers: a machine word, or a fault. -/
def length (s : GivenSpan) : Except Fault Nat := do
  match ← s.stop.sub s.start with
  | .int n => if n < Room.wordBound then return n.toNat else throw .tooLarge
  | _ => throw .wrongKind

/-- The written form of the span. -/
def display (s : GivenSpan) : List Char :=
  Value.displayRecord "Span" [("start", s.start.display), ("end", s.stop.display)]

end GivenSpan

end Itemwise
