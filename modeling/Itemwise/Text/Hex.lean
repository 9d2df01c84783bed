namespace Itemwise

/-!
# Hexadecimal text

* `Hex.digits` — a number in a given number of digits;
* `Hex.toNat` — the number that some digits denote, in letters of either case;
* `Hex.ofBytes`, `Hex.toBytes?` — bytes as two digits each, both ways.
-/

namespace Hex

/-- The last `width` lower-case hexadecimal digits of a number. -/
def digits : (width n : Nat) → List Char
  | 0, _ => []
  | w + 1, n => digits w (n / 16) ++ [Nat.digitChar (n % 16)]

/-- The value of a hexadecimal digit. -/
def value (c : Char) : Nat := if c.isDigit then c.toNat - 48 else (c.toNat ||| 32) - 87

/-- The number that some digits denote. -/
def toNat (cs : List Char) : Nat := cs.foldl (fun n c => n * 16 + value c) 0

/-- The digits of some bytes. -/
def ofBytes (bs : List UInt8) : List Char := bs.flatMap fun b => digits 2 b.toNat

/-- Whether a character is a hexadecimal digit of either case. -/
def isDigit (c : Char) : Bool := c.isDigit || ('a' ≤ c && c ≤ 'f') || ('A' ≤ c && c ≤ 'F')

/-- The blanks that may stand between the digits of two bytes. -/
def blanks : List Char := [' ', '\t', '\n', '\x0b', '\x0c', '\r']

/-- The bytes that pairs of digits denote; anything else but blanks between the pairs is refused. -/
def toBytes? (cs : List Char) : Option (List UInt8) := go cs []
where
  /-- The bytes behind those already read, which are in reverse order. -/
  go : List Char → List UInt8 → Option (List UInt8)
    | [], done => some done.reverse
    | [c], done => if blanks.contains c then some done.reverse else none
    | a :: b :: r, done =>
      if blanks.contains a then go (b :: r) done
      else if isDigit a && isDigit b then go r ((value a * 16 + value b).toUInt8 :: done)
      else none

end Hex

end Itemwise
