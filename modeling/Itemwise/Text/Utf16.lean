namespace Itemwise

/-!
# UTF-16 code units

A text as a sequence of 16-bit units, in which a character beyond the basic plane takes two: a
**high** surrogate followed by a **low** one.

* `Utf16.ofCode`, `Utf16.ofChar` — the units of a code point, which may be a surrogate, and of a
  character;
* `Utf16.decode` — the text of a sequence of units, in which a surrogate that is not part of a pair
  reads as the replacement character.
-/

namespace Utf16

/-- Whether a unit is the first half of a pair. -/
def isHigh (u : Nat) : Bool := 0xd800 ≤ u && u ≤ 0xdbff

/-- Whether a unit is the second half of a pair. -/
def isLow (u : Nat) : Bool := 0xdc00 ≤ u && u ≤ 0xdfff

/-- Whether a unit is either half of a pair. -/
def isSurrogate (u : Nat) : Bool := isHigh u || isLow u

/-- The character that a high and a low unit make. -/
def join (high low : Nat) : Char :=
  Char.ofNat (0x10000 + (high - 0xd800) * 0x400 + (low - 0xdc00))

/-- What a surrogate outside a pair reads as. -/
def replacement : Char := Char.ofNat 0xfffd

/-- The units of a code point. -/
def ofCode (n : Nat) : List Nat :=
  if n < 0x10000 then [n] else [0xd800 + (n - 0x10000) / 0x400, 0xdc00 + (n - 0x10000) % 0x400]

/-- The units of a character. -/
def ofChar (c : Char) : List Nat := ofCode c.toNat

/-- The text that a sequence of units denotes. -/
def decode : List Nat → List Char
  | [] => []
  | [u] => [if isHigh u || isLow u then replacement else Char.ofNat u]
  | u :: v :: us =>
    if isHigh u && isLow v then join u v :: decode us
    else if isHigh u || isLow u then replacement :: decode (v :: us)
    else Char.ofNat u :: decode (v :: us)

end Utf16

end Itemwise
