import Itemwise.Cursor
import Itemwise.LineTable
import Itemwise.Value.Arithmetic

namespace Itemwise

/-!
# Cursors at given positions

The position of a cursor is mostly an offset, but whatever lies between nothing and the size of the
input can be one.  Such a cursor can be moved and asked whether it is at the end; items and
stretches are only found at whole numbers.

* `GivenCursor` — an input with a position as it was given;
* `GivenCursor.make` — the cursor at a position, if that is within the input;
* `GivenCursor.moveTo`, `GivenCursor.advance` — the cursor elsewhere;
* `GivenCursor.current`, `GivenCursor.peek` — the item there, or some items away;
* `GivenCursor.sliceTo`, `GivenCursor.sliceAhead`, `GivenCursor.rest` — stretches of the input from
  there;
* `GivenContext` — such a cursor with the nesting of recursive parsers and its limit.

At whole numbers they are cursors: `GivenCursor.make_int`.
-/

/-- An input with a position as it was given. -/
structure GivenCursor where
  items : Input
  pos : Value

namespace GivenCursor

/-- The size of the input, as a position. -/
def size (items : Input) : Value := .int items.size

/-- The cursor at a position, or the fault that the position is not within the input. -/
def make (items : Input) (pos : Value) : Except Fault GivenCursor := do
  if (← Value.test .le (.int 0) pos) && (← Value.test .le pos (size items)) then return ⟨items, pos⟩
  else throw (.cursorOutside pos items.size)

/-- The cursor over the same input at another position. -/
def moveTo (c : GivenCursor) (pos : Value) : Except Fault GivenCursor := make c.items pos

/-- The cursor `count` items further, or at the end if there are fewer. -/
def advance (c : GivenCursor) (count : Value) : Except Fault GivenCursor := do
  let target ← c.pos.add count
  make c.items (if ← Value.test .lt (size c.items) target then size c.items else target)

/-- Whether a position is at the end or after it. -/
def isAfter (c : GivenCursor) (pos : Value) : Except Fault Bool := Value.test .ge pos (size c.items)

/-- Whether no item is left. -/
def isAtEnd (c : GivenCursor) : Except Fault Bool := c.isAfter c.pos

/-- How many items are left. -/
def remaining (c : GivenCursor) : Except Fault Value := (size c.items).sub c.pos

/-- The item here. -/
def current (c : GivenCursor) : Except Fault Value := do
  if ← c.isAtEnd then throw (.unexpectedEnd c.pos) else c.items.itemAt c.pos

/-- The item `offset` positions away, and nothing beyond the end. -/
def peek (c : GivenCursor) (offset : Value) : Except Fault (Option Value) := do
  let target ← c.pos.add offset
  if ← c.isAfter target then return none else (c.items.itemAt target).map some

/-- The items from here to before `stop`, for which nothing stands for the end. -/
def sliceTo (c : GivenCursor) (stop : Value) : Except Fault Value := c.items.sliceAt c.pos stop

/-- The next `n` items, or fewer at the end. -/
def sliceAhead (c : GivenCursor) (n : Value) : Except Fault Value := do
  c.items.sliceAt c.pos (← c.pos.add n)

/-- All items from here on. -/
def rest (c : GivenCursor) : Except Fault Value := c.items.sliceAt c.pos .null

/-- The line and the column of the position. -/
def lineAndColumn (c : GivenCursor) : Except Fault (Nat × Value) :=
  (LineTable.ofInput c.items).positionOf c.pos

/-- At a whole number the cursor is the cursor of that position. -/
theorem make_int (items : Input) (p : Int) :
    make items (.int p) = (Cursor.make items p).map fun c => ⟨items, .int c.pos⟩ := by
  by_cases h : 0 ≤ p ∧ p ≤ items.size
  · simp [make, size, Cursor.make, Value.test_int, Comparison.admits_le, h, bind, Except.bind, pure,
      Except.pure, Except.map, Int.toNat_of_nonneg h.1]
  · have beyond : 0 ≤ p → ¬ p ≤ items.size := fun hp hq => h ⟨hp, hq⟩
    by_cases hp : 0 ≤ p <;>
      simp [make, size, Cursor.make, Value.test_int, Comparison.admits_le, hp, beyond,
        bind, Except.bind, Except.map] <;> rfl

end GivenCursor

/-- A cursor at a given position, with the nesting of recursive parsers and its limit. -/
structure GivenContext where
  cursor : GivenCursor
  depth : Nat
  limit : Value

namespace GivenContext

/-- Whether no further recursive parser may be entered. -/
def isDepthExceeded (c : GivenContext) : Except Fault Bool := Value.test .ge (.int c.depth) c.limit

/-- The context inside a recursive parser. -/
def enter (c : GivenContext) : GivenContext := { c with depth := c.depth + 1 }

end GivenContext

end Itemwise
