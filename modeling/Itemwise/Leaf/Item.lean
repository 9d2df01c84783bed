import Itemwise.Step.Basic
import Itemwise.Value.Forms
import Itemwise.Pattern

namespace Itemwise

/-!
# Parsers of single items

* `Leaf.anyItem` — whatever item comes next;
* `Leaf.item` — an item equal to an expected one, in any of its forms;
* `Leaf.satisfy` — an item that a test accepts;
* `Leaf.oneOf` — an item that one of some patterns fits;
* `Leaf.eof`, `Leaf.position`, `Leaf.const`, `Leaf.failure` — parsers that consume nothing.

Where an item is examined, `look` gives the item as it is in the user state.
-/

namespace Leaf

/-- Consumes the next item. -/
def anyItem : Leaf := fun c => do
  match ← c.item? with
  | some v => accept c v (c.pos + 1)
  | none => reject c

/-- Consumes the next item if a test accepts it. -/
def satisfy (test : Value → Except Fault Bool) (look : Value → Value) : Leaf := fun c => do
  match ← c.item? with
  | some v => if ← test (look v) then accept c v (c.pos + 1) else reject c
  | none => reject c

/-- Consumes the next item if it is a form of the expected one. -/
def item (expected : Value) (look : Value → Value) : Leaf :=
  satisfy (fun v => .ok (v.isMember expected.equivalents)) look

/-- Consumes the next item if one of the patterns fits it. -/
def oneOf (patterns : Compiled) (look : Value → Value) : Leaf := satisfy patterns.accepts look

/-- Succeeds at the end of the input only. -/
def eof : Leaf := fun c => if c.items.size ≤ c.pos then .ok (.success .null c.pos) else reject c

/-- Yields the position. -/
def position : Leaf := fun c => .ok (.success (.int c.pos) c.pos)

/-- Yields a value without looking at the input. -/
def const (v : Value) : Leaf := fun c => .ok (.success v c.pos)

/-- Fails without looking at the input. -/
def failure : Leaf := reject

/-- An item that is left is consumed. -/
theorem anyItem_of_get? {c : Context} {items : Items} {v : Value}
    (hitems : c.items = .sequence items) (hv : items.get? c.pos = some v) :
    anyItem c = .ok (.success v (c.pos + 1)) := by
  have hitem : c.item? = .ok (some v) := by rw [Context.item?, hitems, Input.item?_sequence, hv]
  have hsize : c.pos + 1 ≤ c.items.size := by
    rw [hitems]
    exact Items.lt_of_get? hv
  unfold anyItem
  rw [hitem]
  exact accept_of_le v hsize

/-- At the end of the input there is no item to take. -/
theorem anyItem_of_size_le {c : Context} (h : c.items.size ≤ c.pos) :
    anyItem c = .ok (.failure c.pos) := by
  unfold anyItem
  rw [Context.item?, Input.item?_of_size_le _ _ h]
  rfl

/-- An item that is left is consumed if the test accepts it. -/
theorem satisfy_of_get? {c : Context} {items : Items} {v : Value} {test : Value → Except Fault Bool}
    {look : Value → Value} (hitems : c.items = .sequence items) (hv : items.get? c.pos = some v) :
    satisfy test look c = (test (look v)).map fun b => if b then .success v (c.pos + 1)
    else .failure c.pos := by
  have hsize : c.pos + 1 ≤ c.items.size := by
    rw [hitems]
    exact Items.lt_of_get? hv
  unfold satisfy
  rw [Context.item?, hitems, Input.item?_sequence, hv]
  show (test (look v) >>= fun b => if b then accept c v (c.pos + 1) else reject c) = _
  rw [accept_of_le v hsize]
  cases test (look v) with
  | error f => rfl
  | ok b => cases b <;> rfl

/-- At the end of the input there is no item to test. -/
theorem satisfy_of_size_le {c : Context} {test : Value → Except Fault Bool} {look : Value → Value}
    (h : c.items.size ≤ c.pos) : satisfy test look c = .ok (.failure c.pos) := by
  unfold satisfy
  rw [Context.item?, Input.item?_of_size_le _ _ h]
  rfl

end Leaf

end Itemwise
