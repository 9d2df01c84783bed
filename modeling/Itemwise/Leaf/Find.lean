import Itemwise.Step.Basic
import Itemwise.Scan.Search

namespace Itemwise

/-!
# Parsers that scan for a byte

* `ScanMode` — what is consumed and what is yielded when the byte is found;
* `Leaf.scan` — the parser of a mode.
-/

/-- What a scanning parser does with the item it finds. -/
inductive ScanMode
  /-- Consumes it; yields how far away it was. -/
  | through
  /-- Stops before it; yields how far away it is. -/
  | before
  /-- Stops before it; yields the items passed over. -/
  | stretch
deriving DecidableEq, Repr

namespace ScanMode

/-- The name of the parsers of a mode. -/
def label : ScanMode → String
  | .through => "find_byte"
  | .before => "find_byte_keep"
  | .stretch => "until_byte"

/-- The mode of a name. -/
def ofLabel? (s : String) : Option ScanMode :=
  [through, before, stretch].find? fun m => m.label == s

end ScanMode

namespace Leaf

/-- Goes to the first item that one of the finders accepts; `look` gives an item as it is in the
    user state. -/
def scan (mode : ScanMode) (finders : List Finder) (look : Value → Value) : Leaf := fun c => do
  match ← Search.find? c.items c.pos finders look with
  | none => reject c
  | some i =>
    match mode with
    | .through => accept c (.int ((i : Int) - c.pos)) (i + 1)
    | .before => accept c (.int ((i : Int) - c.pos)) i
    | .stretch => accept c (← c.sliceTo i) i

end Leaf

end Itemwise
