import Itemwise.Text.Utf16

namespace Itemwise.Json

/-!
# JSON strings

Between the quotes of a JSON string stand plain characters and escapes.  Every escape is replaced by
the code point that it stands for.  That may be a surrogate, and if there is one, the whole is read
again as UTF-16 code units, so that two escapes can make one character.

* `isPlain`, `isHex`, `escapeUnit?` — the characters that stand for themselves, the hexadecimal
  digits, and the one-letter escapes;
* `codes` — the code points of the body of a string;
* `unescape` — the text it denotes.
-/

/-- Whether a character stands for itself. -/
def isPlain (c : Char) : Bool := c != '"' && c != '\\' && ' ' ≤ c

/-- Whether a character is a hexadecimal digit of either case. -/
def isHex (c : Char) : Bool :=
  ('0' ≤ c && c ≤ '9') || ('a' ≤ c && c ≤ 'f') || ('A' ≤ c && c ≤ 'F')

/-- The value of a hexadecimal digit. -/
def hexValue (c : Char) : Nat :=
  if '0' ≤ c && c ≤ '9' then c.toNat - '0'.toNat
  else if 'a' ≤ c && c ≤ 'f' then c.toNat - 'a'.toNat + 10
  else c.toNat - 'A'.toNat + 10

/-- The letters of the short escapes. -/
def escapeLetters : List Char := ['"', '\\', '/', 'b', 'f', 'n', 'r', 't']

/-- The code unit of a short escape. -/
def escapeUnit? : Char → Option Nat
  | '"' => some 0x22
  | '\\' => some 0x5c
  | '/' => some 0x2f
  | 'b' => some 8
  | 'f' => some 12
  | 'n' => some 10
  | 'r' => some 13
  | 't' => some 9
  | _ => none

/-- The code unit of four hexadecimal digits. -/
def hexUnit (a b c d : Char) : Nat :=
  ((hexValue a * 16 + hexValue b) * 16 + hexValue c) * 16 + hexValue d

/-- The code points of the body of a string, with every escape replaced; a backslash that begins no
    escape stays. -/
def codes : List Char → List Nat
  | '\\' :: 'u' :: a :: b :: c :: d :: rest =>
    if isHex a && isHex b && isHex c && isHex d then hexUnit a b c d :: codes rest
    else 0x5c :: codes ('u' :: a :: b :: c :: d :: rest)
  | '\\' :: e :: rest =>
    match escapeUnit? e with
    | some u => u :: codes rest
    | none => 0x5c :: codes (e :: rest)
  | c :: rest => c.toNat :: codes rest
  | [] => []

/-- The text that the body of a string denotes. -/
def unescape (body : List Char) : List Char :=
  if body.contains '\\' then
    let points := codes body
    if points.any Utf16.isSurrogate then Utf16.decode (points.flatMap Utf16.ofCode)
    else points.map Char.ofNat
  else
    body

end Itemwise.Json
