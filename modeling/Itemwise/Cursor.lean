import Itemwise.Input

namespace Itemwise

/-!
# Cursors

A **cursor** is a position in an input.  It never changes; moving it gives another one.

* `Cursor` — an input with a position that is within it or at its end;
* `Cursor.moveTo` — the cursor over the same input at another position, if that is within the input;
* `Cursor.advance` — the cursor some items further, at most at the end;
* `Cursor.current`, `Cursor.peek` — the item here, or some items away;
* `Cursor.sliceTo`, `Cursor.sliceAhead`, `Cursor.rest` — stretches of the input from here.
-/

/-- A position in an input. -/
structure Cursor where
  items : Input
  pos : Nat
  pos_le : pos ≤ items.size

namespace Cursor

/-- The cursor at a position, or the fault that the position is not within the input. -/
def make (items : Input) (pos : Int) : Except Fault Cursor :=
  if h : 0 ≤ pos ∧ pos ≤ items.size then
    .ok ⟨items, pos.toNat, by omega⟩
  else
    .error (.cursorOutside (.int pos) items.size)

/-- The cursor over the same input at another position. -/
def moveTo (c : Cursor) (pos : Int) : Except Fault Cursor := make c.items pos

/-- The cursor `count` items further, or at the end if there are fewer. -/
def advance (c : Cursor) (count : Int) : Except Fault Cursor :=
  make c.items (min (c.pos + count) c.items.size)

/-- Whether no item is left. -/
def isAtEnd (c : Cursor) : Bool := c.pos ≥ c.items.size

/-- How many items are left. -/
def remaining (c : Cursor) : Nat := c.items.size - c.pos

/-- The item here. -/
def current (c : Cursor) : Except Fault Value := do
  Fault.attempt (.unexpectedEnd (.int c.pos)) (← c.items.item? c.pos)

/-- The item `offset` positions away: nothing beyond the end, and counted from the end of the input
    where that would be before its beginning. -/
def peek (c : Cursor) (offset : Int) : Except Fault (Option Value) :=
  if c.items.size ≤ c.pos + offset then .ok none
  else (c.items.item (c.pos + offset)).map some

/-- The items between the offsets that two slice bounds mean. -/
def between (c : Cursor) (start stop : Int) : Except Fault Value :=
  c.items.slice (Slice.bound c.items.size start) (Slice.bound c.items.size stop)

/-- The items from here to before `stop`. -/
def sliceTo (c : Cursor) (stop : Int) : Except Fault Value := c.between c.pos stop

/-- The next `n` items, or fewer at the end. -/
def sliceAhead (c : Cursor) (n : Int) : Except Fault Value := c.between c.pos (c.pos + n)

/-- All items from here on. -/
def rest (c : Cursor) : Except Fault Value := c.items.slice c.pos c.items.size

/-- A position up to the end of the input makes a cursor. -/
theorem make_natCast {items : Input} {p : Nat} (h : p ≤ items.size) :
    make items p = .ok ⟨items, p, h⟩ := by
  simp [make, h]

/-- A cursor that is made is over the given input, at the given position. -/
theorem make_eq_ok {items : Input} {p : Int} {c : Cursor} (h : make items p = .ok c) :
    c.items = items ∧ (c.pos : Int) = p := by
  unfold make at h
  split at h
  · next hp => cases h; exact ⟨rfl, by simp; omega⟩
  · cases h

end Cursor

end Itemwise
