import Itemwise.Value.Arithmetic
import Itemwise.Value.Sequence

namespace Itemwise

/-!
# Fixed arrays

A **fixed array** has room for a number of items that is set when it is made.

* `FixedArray` — slots for the items, and how many of them are filled;
* `FixedArray.empty`, `FixedArray.ofCapacity` — an array with nothing in it;
* `FixedArray.append` — the array with a further item, and whether there is room for more;
* `FixedArray.toList` — the items: the view through which the others are described;
* `FixedArray.get`, `FixedArray.slice`, `FixedArray.indexOf`, `FixedArray.count` — access;
* `FixedArray.getAt`, `FixedArray.sliceAt` — access at indices that are any values.
-/

/-- Slots that are made at once and filled from the front. -/
structure FixedArray where
  capacity : Nat
  slots : Vector Value capacity
  length : Nat
  length_le : length ≤ capacity

namespace FixedArray

/-- An array of the given capacity with nothing in it. -/
def empty (capacity : Nat) : FixedArray := ⟨capacity, .replicate capacity .null, 0, Nat.zero_le _⟩

/-- An empty array whose capacity is a number: none for a negative one, and refused if there can be
    no room for so many items. -/
def ofCapacity (capacity : Int) : Except Fault FixedArray := do
  let n ← Room.count capacity
  Room.check .outOfMemory n
  return empty n

/-- Whether there is no room left. -/
def isFull (a : FixedArray) : Bool := a.length == a.capacity

/-- The items, in the order in which they were stored: those of the filled slots. -/
def toList (a : FixedArray) : List Value := a.slots.toList.take a.length

/-- The array with a further item in the first slot that is not filled, and whether room is left
    after it; a full array takes none. -/
def append (a : FixedArray) (v : Value) : Except Fault (FixedArray × Bool) :=
  if h : a.length < a.capacity then
    .ok (⟨a.capacity, a.slots.set a.length v h, a.length + 1, h⟩, a.length + 1 < a.capacity)
  else
    .error .badIndex

/-- The item at a possibly negative index, which counts from the end of the filled slots. -/
def get (a : FixedArray) (i : Int) : Except Fault Value :=
  Fault.attempt .arrayIndex ((Slice.index? a.length i).bind (a.slots[·]?))

/-- The items that a slice picks. -/
def slice (a : FixedArray) (start stop step : Option Int) : Except Fault (List Value) :=
  let step := step.getD 1
  if step = 0 then .error .badValue
  else .ok (Slice.pick a.toList (Slice.positions a.length start stop step))

/-- The item at an index that is a value: a fraction is no index, but may be out of range first. -/
def getAt (a : FixedArray) (i : Value) : Except Fault Value :=
  match i with
  | .float x =>
    let x := if x.number < 0 then x.number + a.length.toFloat else x.number
    .error (if 0 ≤ x ∧ x < a.length.toFloat then .wrongKind else .arrayIndex)
  | i => Fault.attempt .wrongKind i.toInt? >>= a.get

/-- The items that a slice picks whose bounds and step are values, of which the step is looked at
    first; nothing stands for a missing one. -/
def sliceAt (a : FixedArray) (start stop step : Value) : Except Fault (List Value) := do
  let step ← bound step
  if step = some 0 then throw .badValue
  a.slice (← bound start) (← bound stop) step
where
  /-- A bound or a step, if it is there. -/
  bound : Value → Except Fault (Option Int)
    | .null => .ok none
    | v => (Fault.attempt .wrongKind v.toInt?).map some

/-- A bound of a search, counted from the end if it is negative. -/
def fromEnd (a : FixedArray) (bound : Value) : Except Fault Value := do
  if ← Value.test .lt bound (.int 0) then bound.add (.int a.length) else return bound

/-- The first index from `i` on whose item is equal to `v`, below `stop` if there is one; `left`
    bounds the indices tried. -/
def search (a : FixedArray) (v stop : Value) : (left : Nat) → (i : Value) → Except Fault Value
  | 0, _ => .error .badValue
  | left + 1, i => do
    if !(stop.eqv .null) then
      if !(← Value.test .lt i stop) then throw .badValue
    match a.getAt i with
    | .error .arrayIndex => throw .badValue
    | .error fault => throw fault
    | .ok x => if x.same v then return i else search a v stop left (← i.add (.int 1))

/-- The first index from `start` to before `stop` of an item equal to `v`; nothing as a stop stands
    for the end. -/
def indexOf (a : FixedArray) (v : Value) (start : Value := .int 0) (stop : Value := .null) :
    Except Fault Value := do
  let start ← if start.eqv .null then pure start else a.fromEnd start
  let start := if (Value.holds? .gt (.int 0) start).getD false then .int 0 else start
  let stop ← if stop.eqv .null then pure stop else a.fromEnd stop
  search a v stop (a.length + 1) start

/-- How many items are equal to `v`. -/
def count (a : FixedArray) (v : Value) : Nat := a.toList.countP fun x => x.same v

/-- The array as a value. -/
def toValue (a : FixedArray) : Value := .array a.capacity a.toList

/-- The array has as many items as it says. -/
@[simp] theorem length_toList (a : FixedArray) : a.toList.length = a.length := by
  simp [toList, Nat.min_eq_left a.length_le]

/-- A new array has no items, whatever it has room for. -/
@[simp] theorem toList_empty (capacity : Nat) : (empty capacity).toList = [] := by
  simp [toList, empty]

/-- What is appended stands at the end. -/
theorem toList_append {a b : FixedArray} {v : Value} {room : Bool}
    (h : a.append v = .ok (b, room)) : b.toList = a.toList ++ [v] := by
  unfold append at h
  split at h
  case isTrue hlt =>
    cases h
    show (a.slots.set a.length v hlt).toList.take (a.length + 1) =
        a.slots.toList.take a.length ++ [v]
    have hslot : a.length < (a.slots.toList.set a.length v).length := by simpa using hlt
    rw [Vector.toList_set, List.take_succ_eq_append_getElem hslot,
      List.take_set_of_le (Nat.le_refl _), List.getElem_set_self]
  case isFalse => cases h

end FixedArray

end Itemwise
