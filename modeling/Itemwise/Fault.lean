import Itemwise.Value.Basic

namespace Itemwise

/-!
# Faults

A parser that does not match is no fault: it fails, and that is an ordinary outcome.  A **fault** is
a mistake of the caller or a limit reached; it ends the building or the run in which it arises.

* `Fault` — the causes;
* `Fault.attempt` — a partial result, or the fault that stands for its absence.
-/

/-- Why building or running a parser was given up. -/
inductive Fault
  /-- A builder of alternatives was given nothing to choose from. -/
  | emptyPatternSet (builder : String)
  /-- The low end of an item range is above its high end. -/
  | invalidRange (low high : Value)
  /-- A scanning target is not a single byte. -/
  | invalidByteTarget (target : Value)
  /-- A byte scan was given no target. -/
  | emptyFinderSet
  /-- A count of repetitions or a capacity is out of range. -/
  | invalidRepetition (parameter : String) (value : Value)
  /-- A forward declaration ran before it was defined. -/
  | forwardUndefined (name : String)
  /-- A forward declaration was defined a second time. -/
  | forwardRedefined (name : String)
  /-- Recursive parsers nest beyond the limit. -/
  | depthExceeded (limit : Value)
  /-- Something was built whose capability is switched off. -/
  | capabilityDisabled (capability : String)
  /-- A capability name is not known. -/
  | unknownCapability (name : String)
  /-- A setting is out of its range. -/
  | invalidSetting (name : String) (value : Value)
  /-- A position is not within the input. -/
  | cursorOutside (position : Value) (size : Nat)
  /-- The item at the end of the input was asked for. -/
  | unexpectedEnd (position : Value)
  /-- Two offsets bound no range. -/
  | invalidSpan (start stop : Value)
  /-- A fixed array has no item of that index. -/
  | arrayIndex
  /-- A builder that keeps one value of several was given fewer than two parsers. -/
  | tooFewParsers (builder : String)
  /-- A benchmark gave another result than expected. -/
  | benchmarkMismatch (message : String)
  /-- An operation does not apply to values of this kind. -/
  | wrongKind
  /-- An operation applies to values of this kind, but not to this one. -/
  | badValue
  /-- An index is out of range. -/
  | badIndex
  /-- A key or a name is missing. -/
  | missingKey
  /-- A value has no such part. -/
  | missingPart
  /-- A value of this kind has no place in an answer. -/
  | notAnswered
  /-- A character does not fit into one byte. -/
  | notOneByte
  /-- A number is too large for the operation. -/
  | tooLarge
  /-- A value would take more room than there is. -/
  | outOfMemory
  /-- The bytes of a view do not lie in a row. -/
  | notInARow
  /-- A division by zero. -/
  | divisionByZero
  /-- A repetition or a nesting went on without end, or a container holds itself. -/
  | endless
deriving Inhabited

namespace Fault

/-- A partial result, or the fault that stands for its absence. -/
def attempt {α : Type} (f : Fault) : Option α → Except Fault α
  | some a => .ok a
  | none => .error f

@[simp] theorem attempt_some {α : Type} (f : Fault) (a : α) : attempt f (some a) = .ok a := rfl

@[simp] theorem attempt_none {α : Type} (f : Fault) : attempt f (none : Option α) = .error f := rfl

end Fault

end Itemwise
