import Itemwise.Cursor.Given
import Itemwise.Parser.Stack

namespace Itemwise

/-!
# Parsing an input

* `Parser.parse` — a parser run from the start of an input, under a limit of nesting;
* `Parser.runFrom` — a parser run in any context, on what the stack has room for;
* `Parser.runAt` — a parser run so at a position of any kind;
* `Parser.parseValue` — a parser run so from the start of a value, which has to be an input.

A parse of a value that is not given up is `Parser.parse`: `Parser.parseValue_eq`.  The limit keeps
a parse within the stack as long as a level takes no more than `Depth.framesPerLevel` frames.
-/

namespace Parser

variable {σ : Type} [Memory σ]

/-- The context at the start of an input. -/
def start (items : Input) (limit : Limit) : Context := ⟨items, 0, 0, limit⟩

/-- Runs a parser from the start of an input; what it leaves is the caller's to look at. -/
def parse (setting : Setting σ) (p : Parser σ) (items : Input)
    (limit : Except Fault Limit := Depth.limit) : Action σ (Outcome Value) := do
  let limit ← Action.ofExcept limit
  p.run setting (start items limit)

/-- Runs a parser in a context of the caller's, on what the stack has room for. -/
def runFrom (setting : Setting σ) (p : Parser σ) : Step σ :=
  p.runOnStack setting Depth.runFrames

/-- Runs a parser at a position of any kind.  At a fraction the items are only counted, as none of
    them is there, and what the parser comes to has no rest, unless it fails at the end of the
    input. -/
def runAt (setting : Setting σ) (p : Parser σ) (c : GivenCursor) (depth : Int) (limit : Limit) :
    Action σ (Outcome Value) := do
  match c.pos with
  | .float x =>
    let below := ((Binary64.ofFloat x.number).floor?.getD 0).toNat
    match ← p.runFrom setting ⟨.members c.items.toValue, below, depth, limit⟩ with
    | .failure (.position n) =>
      if below < n ∧ n = c.items.size then return .failure n else throw .wrongKind
    | _ => throw .wrongKind
  | pos =>
    let pos ← Action.ofExcept (Fault.attempt .wrongKind pos.toInt?)
    p.runFrom setting ⟨c.items, pos.toNat, depth, limit⟩

/-- Runs a parser from the start of a value, which is looked at after the limit, on what the stack
    has room for. -/
def parseValue (setting : Setting σ) (p : Parser σ) (v : Value)
    (limit : Except Fault Limit := Depth.limit) : Action σ (Outcome Value) := do
  let limit ← Action.ofExcept limit
  let items ← Action.ofExcept (Input.ofValue v)
  p.runFrom setting (start items limit)

end Parser

end Itemwise
