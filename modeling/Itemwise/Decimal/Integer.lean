import Itemwise.Decimal.Digits
import Itemwise.Text.Blank
import Itemwise.Text.DecimalDigit

namespace Itemwise

/-!
# Reading integers

* `Decimal.spacedDigits?` — digits, between any two of which an underscore may stand;
* `Decimal.integer?` — an integer with blanks around it and a sign in front;
* `Decimal.ofText?` — the integer of a text, whose digits may be of any script;
* `Decimal.ofAscii?` — the integer of a text whose digits and blanks have to be ASCII.
-/

namespace Decimal

/-- The values of digits, between any two of which an underscore may stand. -/
def spacedDigits? (digit? : Char → Option Nat) : List Char → Option (List Nat)
  | [] => none
  | [c] => (digit? c).map ([·])
  | c :: d :: rest => do
    let value ← digit? c
    let values ← if d = '_' then spacedDigits? digit? rest else spacedDigits? digit? (d :: rest)
    return value :: values
termination_by cs => cs.length

/-- The text without the blanks at its two ends. -/
def strip (blank : Char → Bool) (cs : List Char) : List Char :=
  ((cs.dropWhile blank).reverse.dropWhile blank).reverse

/-- The integer that a text denotes: blanks around it, a sign in front, and no more digits than the
    limit. -/
def integer? (blank : Char → Bool) (digit? : Char → Option Nat) (cs : List Char) : Option Int := do
  let (negative, body) := match strip blank cs with
    | '-' :: r => (true, r)
    | '+' :: r => (false, r)
    | r => (false, r)
  let ds ← spacedDigits? digit? body
  if digitLimit < ds.length then none
  else
    let n : Nat := ds.foldl (fun n d => n * 10 + d) 0
    return if negative then -(n : Int) else n

/-- Whether a character is one of the six ASCII blanks. -/
def isAsciiBlank (c : Char) : Bool := (9 ≤ c.toNat && c.toNat ≤ 13) || c == ' '

/-- The integer that a text denotes. -/
def ofText? (cs : List Char) : Option Int :=
  integer? (fun c => isAsciiBlank c || (0x80 ≤ c.toNat && Blank.holds c)) DecimalDigit.value? cs

/-- The integer that an ASCII text denotes. -/
def ofAscii? (cs : List Char) : Option Int := integer? isAsciiBlank digit? cs

end Decimal

end Itemwise
