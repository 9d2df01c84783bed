import Itemwise.Value.Basic

namespace Itemwise

/-!
# Truth of values

Nothing, zero and everything empty are false; all other values are true.
-/

namespace Value

/-- Whether a value counts as true. -/
def isTrue : Value → Bool
  | .null => false
  | .bool b => b
  | .int n => n != 0
  | .float x => x.number != 0
  | .text cs => !cs.isEmpty
  | .octets _ bs => !bs.isEmpty
  | .list xs | .tuple xs | .set xs _ | .array _ xs => !xs.isEmpty
  | .dict es => !es.isEmpty
  | .span s => s.length != 0
  | .version _ | .line _ | .operator .. | .shared _ => true

end Value

end Itemwise
