namespace Itemwise

/-!
# Decimal integers

Integers as decimal text, both ways.

* `Decimal.ofNat`, `Decimal.ofInt` — the decimal text of a number;
* `Decimal.toNat` — the number that a run of digits denotes;
* `Decimal.digitLimit` — the most digits that a conversion between text and integer handles;
* `Decimal.isWithinLimit`, `Decimal.render?` — the integers within that limit, and their text.
-/

namespace Decimal

/-- Text and integers are converted into each other up to this many digits. -/
def digitLimit : Nat := 4300

/-- The value of an ASCII digit. -/
def digit? (c : Char) : Option Nat :=
  if '0' ≤ c ∧ c ≤ '9' then some (c.toNat - '0'.toNat) else none

/-- Whether a character is an ASCII digit. -/
def isDigit (c : Char) : Bool := '0' ≤ c && c ≤ '9'

/-- The decimal digits of a number, without leading zeros. -/
def ofNat (n : Nat) : List Char := Nat.toDigits 10 n

/-- The decimal text of an integer. -/
def ofInt : Int → List Char
  | .ofNat n => ofNat n
  | .negSucc n => '-' :: ofNat (n + 1)

/-- The number a run of digits denotes, continuing from `acc`. -/
def toNatFrom (acc : Nat) (ds : List Char) : Nat :=
  ds.foldl (fun n c => n * 10 + (c.toNat - '0'.toNat)) acc

/-- The number a run of digits denotes. -/
def toNat (ds : List Char) : Nat := toNatFrom 0 ds

/-- The least number with more digits than the limit. -/
def limit : Nat := Nat.pow 10 digitLimit

/-- Whether an integer has no more digits than the limit. -/
def isWithinLimit (n : Int) : Bool := n.natAbs < limit

/-- The decimal text of an integer, unless it has more digits than the limit. -/
def render? (n : Int) : Option (List Char) := if isWithinLimit n then some (ofInt n) else none

/-- A digit is a character that has a value as one. -/
theorem isDigit_iff_digit?_isSome (c : Char) : isDigit c = (digit? c).isSome := by
  simp only [isDigit, digit?]
  split <;> simp_all

end Decimal

end Itemwise
