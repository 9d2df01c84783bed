import Itemwise.Parser.Build

namespace Itemwise

/-!
# Named functions that give parsers

A grammar that is given as data names the function by which a parser goes on from the value of
another.

* `Continuation` — those functions;
* `Continuation.parser` — the parser that one gives for a value.
-/

/-- A named function from values to parsers. -/
inductive Continuation (σ : Type)
  /-- The value itself. -/
  | const
  /-- The value as an exact run of items. -/
  | literal
  /-- The value as an item or a run of items. -/
  | take
  /-- The same, dropped. -/
  | skip
  /-- As many items as the value says. -/
  | items
  /-- The parser that an action makes for the value. -/
  | made (make : Value → Action σ (Parser σ))

namespace Continuation

variable {σ : Type}

/-- The functions that are named by a word alone, with their names. -/
def words : List (String × Continuation σ) :=
  [("pure", .const), ("literal", .literal), ("take", .take), ("skip", .skip), ("times_any", .items)]

/-- The function of a name. -/
def ofLabel? (s : String) : Option (Continuation σ) := (words.find? fun e => e.1 == s).map Prod.snd

/-- The parser that a function gives for a value in a user state.  A parser that is shown with its
    value needs one that has a written form. -/
def parser [Memory σ] (k : Continuation σ) (s : σ) (v : Value) : Parser σ :=
  let w := Memory.whole s v
  match k with
  | .const => Parser.bound (w.checkWritten.map fun _ => .const v)
  | .literal => Parser.bound (Parser.literal? w)
  | .take => Parser.bound (w.checkWritten.map fun _ => Parser.take w)
  | .skip => Parser.bound (w.checkWritten.map fun _ => Parser.skip w)
  | .items => Parser.bound (Parser.times? w .anyItem)
  | .made make => Parser.made (make w) s

end Continuation

end Itemwise
