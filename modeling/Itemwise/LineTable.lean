import Itemwise.Fault
import Itemwise.Input
import Itemwise.Value.Equality

namespace Itemwise

/-!
# Lines and columns

A **line table** holds the offsets at which the lines of a source start, so that the line and the
column of a position are found by bisection.

* `LineTable` — the offsets and the length of the source;
* `LineTable.ofItems` — the table of a source, in which a newline ends a line;
* `LineTable.position` — the line and the column of an offset, both counted from one;
* `LineTable.positionOf` — the same for an offset that is any value.
-/

/-- The offsets at which the lines of a source start. -/
structure LineTable where
  starts : Array Nat
  sourceSize : Nat

namespace LineTable

/-- The item that ends a line: the newline character, or its code in a byte sequence. -/
def newline : Items → Value
  | .octets .. => .int 10
  | _ => .ofChar '\n'

/-- The offsets just after the newlines of a list of items, the first of which is at offset `i`. -/
def startsAfter (newline : Value) : (i : Nat) → List Value → List Nat
  | _, [] => []
  | i, x :: xs =>
    if x.eqv newline then (i + 1) :: startsAfter newline (i + 1) xs
    else startsAfter newline (i + 1) xs

/-- The table of a source with the given items and newline. -/
def make (newline : Value) (items : List Value) (size : Nat) : LineTable where
  starts := (0 :: startsAfter newline 0 items).toArray
  sourceSize := size

/-- The line table of a source. -/
def ofItems (source : Items) : LineTable := make (newline source) source.toList source.size

/-- The line table of any input: what is no sequence is read member by member, or key by key. -/
def ofInput : Input → LineTable
  | .sequence source => ofItems source
  | source => make (.ofChar '\n') (source.toValue.elements?.getD []) source.size

/-- The greatest index from `left` to `right` whose offset is at most `pos`, given that the one at
    `left` is. -/
def bisect (starts : Array Nat) (pos left right : Nat) : Nat :=
  if left < right then
    let mid := (left + right + 1) / 2
    if (starts[mid]?).getD 0 ≤ pos then bisect starts pos mid right
    else bisect starts pos left (mid - 1)
  else
    left
termination_by right - left

/-- The line and the column of an offset, which is first moved into the source. -/
def position (t : LineTable) (offset : Int) : Nat × Nat :=
  let pos := min offset.toNat t.sourceSize
  let line := bisect t.starts pos 0 (t.starts.size - 1)
  (line + 1, pos - (t.starts[line]?).getD 0 + 1)

/-- The line and the column of an offset that is a value; those of a fraction are counted from where
    it is. -/
def positionOf (t : LineTable) (offset : Value) : Except Fault (Nat × Value) :=
  let whole (n : Int) : Nat × Value := ((t.position n).1, .int (t.position n).2)
  match offset with
  | .float x =>
    if x.number ≤ 0 then .ok (whole 0)
    else if x.number > t.sourceSize.toFloat then .ok (whole t.sourceSize)
    else
      let line := (t.position (((Binary64.ofFloat x.number).floor?).getD 0)).1
      let start := ((t.starts[line - 1]?).getD 0).toFloat
      .ok (line, .float { number := x.number - start + 1 })
  | v => (Fault.attempt .wrongKind v.toInt?).map whole

end LineTable

end Itemwise
