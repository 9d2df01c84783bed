import Itemwise.Text.Hex
import Itemwise.Text.Printable

namespace Itemwise

/-!
# Quoted text

How a text or a byte sequence is shown inside a message: between quotes, with everything that would
not show up escaped.

* `Quoted.text` — a text in quotes;
* `Quoted.octets`, `Quoted.growableOctets` — bytes in quotes, after a `b`.

The quotes are single ones, unless the content has a single quote and no double one.
-/

namespace Quoted

/-- The quote to write around content that has these quotes. -/
def quote (single double : Bool) : Char := if single && !double then '"' else '\''

/-- A character that is written as a backslash and a letter, or as itself behind a backslash. -/
def short? (q c : Char) : Option (List Char) :=
  if c = q ∨ c = '\\' then some ['\\', c]
  else if c = '\n' then some ['\\', 'n']
  else if c = '\r' then some ['\\', 'r']
  else if c = '\t' then some ['\\', 't']
  else none

/-- The written form of one character of a text. -/
def char (q c : Char) : List Char :=
  match short? q c with
  | some s => s
  | none =>
    if Printable.holds c then [c]
    else if c.toNat < 0x100 then '\\' :: 'x' :: Hex.digits 2 c.toNat
    else if c.toNat < 0x10000 then '\\' :: 'u' :: Hex.digits 4 c.toNat
    else '\\' :: 'U' :: Hex.digits 8 c.toNat

/-- A text in quotes. -/
def text (cs : List Char) : List Char :=
  let q := quote (cs.contains '\'') (cs.contains '"')
  q :: cs.flatMap (char q) ++ [q]

/-- The written form of one byte. -/
def octet (q : Char) (b : UInt8) : List Char :=
  let c := Char.ofNat b.toNat
  match short? q c with
  | some s => s
  | none => if 0x20 ≤ b && b < 0x7f then [c] else '\\' :: 'x' :: Hex.digits 2 b.toNat

/-- The quote around bytes. -/
def octetQuote (bs : List UInt8) : Char := quote (bs.contains 0x27) (bs.contains 0x22)

/-- Bytes in quotes. -/
def octets (bs : List UInt8) : List Char :=
  let q := octetQuote bs
  'b' :: q :: bs.flatMap (octet q) ++ [q]

/-- Bytes that can change, in quotes; a single quote among them is escaped whatever the quotes
    are. -/
def growableOctets (bs : List UInt8) : List Char :=
  let q := octetQuote bs
  'b' :: q :: bs.flatMap (octet '\'') ++ [q]

end Quoted

end Itemwise
