import Itemwise.Items

namespace Itemwise

/-!
# Inputs

A parser asks its input for the item at a position and for stretches of items.  A sequence gives
both.  Two kinds of container are counted like sequences and are none: a dictionary has an item
wherever the position is one of its keys, and a set has none anywhere; neither has stretches.

* `Input` — what a parser reads;
* `Input.size` — how many positions there are;
* `Input.item`, `Input.item?` — the item at a position, asked for as such or only before the end;
* `Input.slice` — a stretch;
* `Input.itemAt`, `Input.sliceAt` — the same at positions that are any values;
* `Input.toValue`, `Input.ofValue` — inputs as values.

Of a sequence nothing is refused: `item?_sequence`, `slice_sequence`.
-/

/-- What a parser reads. -/
inductive Input
  | sequence (items : Items)
  /-- A dictionary; its entries are counted, and its items are found by key. -/
  | table (entries : List (Value × Value))
  /-- A set, or whatever else has items that are only counted. -/
  | members (whole : Value)

/-- Every sequence is an input. -/
instance : Coe Items Input := ⟨.sequence⟩

namespace Input

/-- The number of positions. -/
def size : Input → Nat
  | .sequence items => items.size
  | .table es => es.length
  | .members v => v.length?.getD 0

/-- The item at a position; one before the beginning is counted from the end of a sequence, and a
    dictionary is asked for it as a key. -/
def item : Input → Int → Except Fault Value
  | .sequence items, i => Fault.attempt .badIndex ((Slice.index? items.size i).bind items.get?)
  | .table es, i => Value.lookup es (.int i)
  | .members _, _ => .error .wrongKind

/-- The item at a position that is any value: a sequence takes whole numbers only, and a dictionary
    every key. -/
def itemAt : Input → Value → Except Fault Value
  | .table es, i => Value.lookup es i
  | input, i => Fault.attempt .wrongKind i.toInt? >>= input.item

/-- The item at a position, if that is before the end. -/
def item? : Input → Nat → Except Fault (Option Value)
  | .sequence items, i => .ok (items.get? i)
  | input, i => if i < input.size then (input.item i).map some else .ok none

/-- The items from `start` to before `stop`, as a value of the input's kind. -/
def slice : Input → (start stop : Nat) → Except Fault Value
  | .sequence items, start, stop => .ok (items.slice start stop)
  | _, _, _ => .error .wrongKind

/-- The items between two bounds that are any values, of which nothing stands for an end of the
    input. -/
def sliceAt (input : Input) (start stop : Value) : Except Fault Value := do
  input.slice (← bound start 0) (← bound stop input.size)
where
  /-- The offset that a bound means. -/
  bound : Value → Nat → Except Fault Nat
    | .null, default => .ok default
    | v, _ => (Fault.attempt .wrongKind v.toInt?).map (Slice.bound input.size)

/-- The whole input as a value. -/
def toValue : Input → Value
  | .sequence items => items.toValue
  | .table es => .dict es
  | .members v => v

/-- The input that a value is; one that cannot be counted is refused. -/
def ofValue (v : Value) : Except Fault Input :=
  match v with
  | .dict es => .ok (.table es)
  | .set .. => .ok (.members v)
  | v => Fault.attempt .wrongKind ((Items.ofValue? v).map .sequence)

/-- A sequence is as long as its items are many. -/
@[simp] theorem size_sequence (items : Items) : size (.sequence items) = items.size := rfl

/-- Whether there is an item in a sequence can always be told. -/
@[simp] theorem item?_sequence (items : Items) (i : Nat) :
    item? (.sequence items) i = .ok (items.get? i) := rfl

/-- A sequence has every slice. -/
@[simp] theorem slice_sequence (items : Items) (start stop : Nat) :
    slice (.sequence items) start stop = .ok (items.slice start stop) := rfl

/-- At and after the end there is no item, whatever the input is. -/
theorem item?_of_size_le (input : Input) (i : Nat) (h : input.size ≤ i) :
    input.item? i = .ok none := by
  cases input with
  | sequence items => simp [(Items.get?_eq_none_iff items i).2 h]
  | table es => simp [item?, Nat.not_lt.2 h]
  | members v => simp [item?, Nat.not_lt.2 h]

end Input

end Itemwise
