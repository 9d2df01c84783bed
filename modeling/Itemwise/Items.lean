import Itemwise.Value.Sequence

namespace Itemwise

/-!
# Inputs

A parser reads a text, a byte sequence, or a list or tuple of arbitrary values, one item at a time.

* `Items` — an input;
* `Items.size`, `Items.get?` — how many items it holds, and the item at a position;
* `Items.slice` — a stretch of it, a value of the input's own kind;
* `Items.toList` — all its items: the view through which the others are described.

The item of a text is a text of one character, and the item of a byte sequence is a number.
-/

/-- An input sequence. -/
inductive Items
  | text (cs : Array Char)
  | octets (kind : OctetKind) (bytes : Array UInt8)
  | list (xs : Array Value)
  | tuple (xs : Array Value)

namespace Items

/-- The number of items. -/
def size : Items → Nat
  | .text cs => cs.size
  | .octets _ bs => bs.size
  | .list xs | .tuple xs => xs.size

/-- The item at a position. -/
def get? : Items → Nat → Option Value
  | .text cs, i => cs[i]?.map Value.ofChar
  | .octets _ bs, i => bs[i]?.map Value.ofByte
  | .list xs, i | .tuple xs, i => xs[i]?

/-- All items in order. -/
def toList : Items → List Value
  | .text cs => cs.toList.map Value.ofChar
  | .octets _ bs => bs.toList.map Value.ofByte
  | .list xs | .tuple xs => xs.toList

/-- The items from `start` to before `stop`, as a value of the input's kind. -/
def slice (items : Items) (start stop : Nat) : Value :=
  match items with
  | .text cs => .text (cs.extract start stop).toList
  | .octets k bs => .octets k (bs.extract start stop).toList
  | .list xs => .list (xs.extract start stop).toList
  | .tuple xs => .tuple (xs.extract start stop).toList

/-- The whole input as a value. -/
def toValue (items : Items) : Value := items.slice 0 items.size

/-- The items of a value that can be an input. -/
def ofValue? : Value → Option Items
  | .text cs => some (.text cs.toArray)
  | .octets k bs => some (.octets k bs.toArray)
  | .list xs => some (.list xs.toArray)
  | .tuple xs => some (.tuple xs.toArray)
  | _ => none

/-- The input from a position on, as an input of its own. -/
def drop (items : Items) (start : Nat) : Items :=
  match items with
  | .text cs => .text (cs.extract start cs.size)
  | .octets k bs => .octets k (bs.extract start bs.size)
  | .list xs => .list (xs.extract start xs.size)
  | .tuple xs => .tuple (xs.extract start xs.size)

/-- The list of the items has as many members as there are items. -/
@[simp] theorem length_toList (items : Items) : items.toList.length = items.size := by
  cases items <;> simp [toList, size]

/-- An item is read where it stands in the list of the items. -/
theorem get?_eq_toList (items : Items) (i : Nat) : items.get? i = items.toList[i]? := by
  cases items <;> simp [get?, toList]

/-- There is no item behind the last one, and only there. -/
theorem get?_eq_none_iff (items : Items) (i : Nat) : items.get? i = none ↔ items.size ≤ i := by
  simp [get?_eq_toList, ← length_toList]

/-- An item that is read stands before the end. -/
theorem lt_of_get? {items : Items} {i : Nat} {v : Value} (h : items.get? i = some v) :
    i < items.size := by
  rw [← Nat.not_le, ← get?_eq_none_iff, h]
  nofun

/-- Before the end there is an item. -/
theorem exists_get? {items : Items} {i : Nat} (h : i < items.size) :
    ∃ v, items.get? i = some v := by
  rw [← Option.ne_none_iff_exists', Ne, get?_eq_none_iff]
  omega

/-- A slice has the items of the list from its start to its stop. -/
theorem elements?_slice (items : Items) (start stop : Nat) :
    (items.slice start stop).elements? = some ((items.toList.take stop).drop start) := by
  cases items <;>
    simp [slice, toList, Value.elements?, List.map_drop, List.map_take, Array.toList_extract,
      List.extract_eq_drop_take']

/-- A slice ends with the input at the latest. -/
theorem length?_slice (items : Items) (start stop : Nat) :
    (items.slice start stop).length? = some (min stop items.size - start) := by
  cases items <;> simp [slice, size, Value.length?] <;> omega

end Items

end Itemwise
