import Itemwise.Decimal.Reading
import Itemwise.Fault

namespace Itemwise.Json

/-!
# JSON numbers

A number with neither fraction nor exponent denotes an integer, any other one a float.

* `integerValue` — the integer of its text, within the limit of digits;
* `numberValue` — the value of the text of a number.
-/

/-- The integer that a text of digits with an optional minus denotes. -/
def integerValue (cs : List Char) : Except Fault Value :=
  let (negative, ds) := match cs with
    | '-' :: ds => (true, ds)
    | ds => (false, ds)
  if Decimal.digitLimit < ds.length then .error .badValue
  else .ok (.int (if negative then -(Decimal.toNat ds : Int) else Decimal.toNat ds))

/-- The value of the text of a number, given whether it has a fraction or an exponent. -/
def numberValue (cs : List Char) (fractional : Bool) : Except Fault Value :=
  if fractional then .ok (.float (Reading.float cs)) else integerValue cs

end Itemwise.Json
