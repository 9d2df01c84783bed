import Itemwise.Leaf.Stretch

namespace Itemwise

/-!
# ASCII white space

* `Leaf.blanks` — the items that count as white space: space, tab, newline, carriage return and form
  feed, as characters, as codes and as single bytes;
* `Leaf.skipBlanks` — the first position from a start on whose item is none of them;
* `Leaf.whitespace` — consumes them; always succeeds.
-/

namespace Leaf

/-- The five characters of ASCII white space. -/
def blankChars : List Char := [' ', '\t', '\n', '\r', '\x0c']

/-- The items that count as white space. -/
def blanks : List Value :=
  blankChars.map Value.ofChar ++ blankChars.map (fun c => .int c.toNat)
    ++ blankChars.map fun c => .octets .fixed [c.toNat.toUInt8]

/-- Whether an item is one of the blanks; only what can be a member of a set is looked up. -/
def isBlank (v : Value) : Except Fault Bool :=
  if v.isKey then .ok (v.isMember blanks) else .error .wrongKind

/-- The first position from `pos` on whose item is not white space. -/
def skipBlanks (items : Input) (pos : Nat) : Except Fault Nat :=
  scanWhile items isBlank (items.size - pos) pos

/-- Consumes white space; always succeeds. -/
def whitespace : Leaf := fun c => do
  let stop ← skipBlanks c.items c.pos
  accept c .null stop

end Leaf

end Itemwise
