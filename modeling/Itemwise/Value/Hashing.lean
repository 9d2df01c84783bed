import Itemwise.Value.Basic

namespace Itemwise

/-!
# Values that can be keys

Only values that cannot change are members of sets and keys of dictionaries.

* `Value.isFrozen` — whether a value is of a kind that cannot change;
* `Value.isKey` — whether it is so throughout.
-/

namespace Value

/-- Whether the value is of a kind that cannot change, whatever it holds. -/
def isFrozen : Value → Bool
  | .list _ | .dict _ | .array _ _ | .octets .growable _ | .shared _ => false
  | _ => true

mutual

/-- Whether the value and everything in it cannot change. -/
def isKey : Value → Bool
  | .tuple xs => areKeys xs
  | .set xs _ => areKeys xs
  | .list _ | .dict _ | .array _ _ | .octets .growable _ | .shared _ => false
  | _ => true

/-- Whether all values of a list can be keys. -/
def areKeys : List Value → Bool
  | [] => true
  | x :: xs => isKey x && areKeys xs

end

end Value

end Itemwise
