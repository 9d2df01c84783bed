import Itemwise.Decimal.Digits
import Itemwise.Decimal.Binary64

namespace Itemwise

/-!
# Decimals with a fixed number of places

* `Fixed.roundHalfEven` — a quotient of natural numbers rounded to the nearest integer, a half to
  the even neighbour;
* `Fixed.ofFloat` — a float with a given number of places after the point.
-/

namespace Fixed

/-- `num / den` rounded to the nearest integer; a half goes to the even neighbour. -/
def roundHalfEven (num den : Nat) : Nat :=
  let q := num / den
  let r := num % den
  if 2 * r < den then q
  else if den < 2 * r then q + 1
  else if q % 2 = 0 then q else q + 1

/-- The decimal text of `n / 10 ^ places`. -/
def place (places n : Nat) : List Char :=
  let ds := Decimal.ofNat n
  let padded := List.replicate (places + 1 - ds.length) '0' ++ ds
  let whole := padded.length - places
  if places = 0 then padded else padded.take whole ++ '.' :: padded.drop whole

/-- A float with `places` digits after the point. -/
def ofFloat (places : Nat) (x : Float) : List Char :=
  match Binary64.ofFloat x with
  | .finite negative m q =>
    let n := roundHalfEven (m * Nat.pow 2 q.toNat * Nat.pow 10 places) (Nat.pow 2 (-q).toNat)
    (if negative then ['-'] else []) ++ place places n
  | .infinite negative => (if negative then "-inf" else "inf").toList
  | .notNumber => "nan".toList

end Fixed

end Itemwise
