import Itemwise.Fault
import Itemwise.Slice
import Itemwise.Value.Equality
import Itemwise.Value.Hashing
import Itemwise.Value.Slots

namespace Itemwise

/-!
# Values as sequences

* `Value.length?` — how many items a value holds, for the kinds that hold items;
* `Value.elements?` — those items in order;
* `Value.item` — the item at an index;
* `Value.backwards` — the items in reverse order;
* `Value.setOf` — the set of some values;
* `Value.lookup` — the value of a key of a dictionary.
-/

namespace Value

/-- How many items a value holds. -/
def length? : Value → Option Nat
  | .text cs => some cs.length
  | .octets _ bs => some bs.length
  | .list xs | .tuple xs | .set xs _ | .array _ xs => some xs.length
  | .dict es => some es.length
  | .span s => some s.length
  | _ => none

/-- The items of a value; those of a dictionary are its keys. -/
def elements? : Value → Option (List Value)
  | .text cs => some (cs.map ofChar)
  | .octets _ bs => some (bs.map ofByte)
  | .list xs | .tuple xs | .set xs _ | .array _ xs => some xs
  | .dict es => some (es.map Prod.fst)
  | _ => none

/-- How many items a value holds, or the fault that it holds none. -/
def length (v : Value) : Except Fault Nat := Fault.attempt .wrongKind v.length?

/-- The items of a value, or the fault that it has none. -/
def elements (v : Value) : Except Fault (List Value) := Fault.attempt .wrongKind v.elements?

/-- The set of some values, which have to be fit as members. -/
def setOf (xs : List Value) : Except Fault Value :=
  if areKeys xs then .ok (Slots.ofList (distinct xs)) else .error .wrongKind

/-- The value of a key of a dictionary. -/
def lookup (es : List (Value × Value)) (k : Value) : Except Fault Value :=
  if k.isKey then
    match es.find? fun e => same e.1 k with
    | some e => .ok e.2
    | none => .error .missingKey
  else
    .error .wrongKind

/-- The item at a possibly negative index; a dictionary is asked for the index as a key. -/
def item (v : Value) (i : Int) : Except Fault Value :=
  match v with
  | .dict es => lookup es (.int i)
  | .set .. | .span _ => .error .wrongKind
  | .array _ xs => Fault.attempt .arrayIndex ((Slice.index? xs.length i).bind (xs[·]?))
  | v => do
    let xs ← v.elements
    Fault.attempt .badIndex ((Slice.index? xs.length i).bind (xs[·]?))

/-- The kind of a byte sequence in reverse: a view is then run through the other way, unless it is a
    single byte. -/
def reversedKind (kind : OctetKind) (size : Nat) : OctetKind :=
  match kind with
  | .view => if size = 1 then .view else .backwardView
  | .backwardView => .view
  | k => k

/-- The items in reverse order, as a value of the same kind; those of a fixed array become a
    list. -/
def backwards : Value → Except Fault Value
  | .text cs => .ok (.text cs.reverse)
  | .octets k bs => .ok (.octets (reversedKind k bs.length) bs.reverse)
  | .list xs | .array _ xs => .ok (.list xs.reverse)
  | .tuple xs => .ok (.tuple xs.reverse)
  | _ => .error .wrongKind

end Value

end Itemwise
