import Itemwise.Step.Basic

namespace Itemwise

/-!
# What was consumed

* `Measure` — the ways to report what a step consumed;
* `Step.measure` — the step with that report in or beside its value.
-/

/-- A report of what a step consumed. -/
inductive Measure
  /-- The number of items, before the value. -/
  | count
  /-- The stretch of items, before the value. -/
  | stretchAndValue
  /-- The stretch of items alone. -/
  | stretch
  /-- The span of offsets, after the value. -/
  | span
deriving DecidableEq, Repr

namespace Measure

/-- The name of the parsers with a report. -/
def label : Measure → String
  | .count => "count_consumed"
  | .stretchAndValue => "and_parsed"
  | .stretch => "get_parsed"
  | .span => "spanned"

/-- The report of a name. -/
def ofLabel? (s : String) : Option Measure :=
  [count, stretchAndValue, stretch, span].find? fun m => m.label == s

/-- The value with the report of having consumed everything up to `stop`. -/
def report (m : Measure) (c : Context) (v : Value) (stop : Nat) : Except Fault Value :=
  match m with
  | .count => .ok (.tuple [.int ((stop : Int) - c.pos), v])
  | .stretchAndValue => (c.sliceTo stop).map fun stretch => .tuple [stretch, v]
  | .stretch => c.sliceTo stop
  | .span =>
    (Fault.attempt (.invalidSpan (.int c.pos) (.int stop)) (Span.ofBounds? c.pos stop)).map fun s =>
      .tuple [v, .span s]

end Measure

namespace Step

variable {σ : Type}

/-- A step with a report of what it consumed. -/
def measure (m : Measure) (p : Step σ) : Step σ := fun c => do
  match ← p c with
  | .failure q => return .failure q
  | .success v q => return .success (← Action.ofExcept (m.report c v q)) q

end Step

end Itemwise
