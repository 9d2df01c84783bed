import Itemwise.Decimal.Digits

namespace Itemwise

/-!
# Reading decimal numbers as floats

* `Reading.ofScientific` — the float nearest to `± digits · 10 ^ exponent`;
* `Reading.ofDigits` — the same for a text of digits, of which there may be many;
* `Reading.float` — the float that a decimal text denotes: an optional minus, digits, an optional
  fraction and an optional exponent.

A decimal beyond the range of floats reads as an infinity, one too close to zero as a zero of its
sign.
-/

namespace Reading

/-- The float nearest to `± digits · 10 ^ exponent`.  Beyond `10 ^ 400` every number is infinite and
    below `10 ^ (-400)` every number is zero, so huge exponents need no arithmetic. -/
def ofScientific (negative : Bool) (digits : Nat) (exponent : Int) : Float :=
  let top := (Decimal.ofNat digits).length + exponent
  let magnitude : Float :=
    if digits = 0 ∨ top < -400 then Float.ofBits 0
    else if 400 < top then Float.ofBits 0x7ff0000000000000
    else Float.ofScientific digits (exponent < 0) exponent.natAbs
  if negative then -magnitude else magnitude

/-- How many digits of a decimal matter for the float nearest to it.  Half way between two floats
    lies a decimal of less than 770 digits, so of the digits after these it only matters whether one
    is not zero. -/
def decisiveDigits : Nat := 800

/-- The float nearest to the number that some digits denote, times a power of ten. -/
def ofDigits (negative : Bool) (digits : List Char) (exponent : Int) : Float :=
  let digits := digits.dropWhile (· == '0')
  let first := digits.take decisiveDigits
  let rest := digits.drop decisiveDigits
  if rest.any (· != '0') then
    ofScientific negative (Decimal.toNat (first ++ ['1'])) (exponent + rest.length - 1)
  else
    ofScientific negative (Decimal.toNat first) (exponent + rest.length)

/-- The signed exponent after an exponent mark. -/
def exponent : List Char → Int
  | '-' :: ds => -(Decimal.toNat ds : Int)
  | '+' :: ds => Decimal.toNat ds
  | ds => Decimal.toNat ds

/-- The float of an unsigned decimal text `digits[.digits][e[+-]digits]`. -/
def unsigned (negative : Bool) (cs : List Char) : Float :=
  let whole := cs.takeWhile Decimal.isDigit
  let rest := cs.dropWhile Decimal.isDigit
  let (fraction, rest) := match rest with
    | '.' :: r => (r.takeWhile Decimal.isDigit, r.dropWhile Decimal.isDigit)
    | r => ([], r)
  let scale : Int := match rest with
    | _ :: r => exponent r
    | [] => 0
  ofDigits negative (whole ++ fraction) (scale - fraction.length)

/-- The float a decimal text denotes. -/
def float : List Char → Float
  | '-' :: cs => unsigned true cs
  | cs => unsigned false cs

end Reading

end Itemwise
