namespace Itemwise

/-!
# Blank characters

The characters that stand for white space in a text of any script.

* `Blank.holds` — whether a character is blank;
* `Blank.trim` — a text without the blanks at its two ends.
-/

namespace Blank

/-- Whether a character is white space: the ASCII blanks and separators, the next-line character,
    and the space separators. -/
def holds (c : Char) : Bool :=
  let n := c.toNat
  (9 ≤ n && n ≤ 13) || (0x1c ≤ n && n ≤ 0x20) || n == 0x85 || n == 0xa0 || n == 0x1680 ||
    (0x2000 ≤ n && n ≤ 0x200a) || n == 0x2028 || n == 0x2029 || n == 0x202f || n == 0x205f ||
    n == 0x3000

/-- A text without the blanks at its two ends. -/
def trim (cs : List Char) : List Char :=
  ((cs.dropWhile holds).reverse.dropWhile holds).reverse

end Blank

end Itemwise
