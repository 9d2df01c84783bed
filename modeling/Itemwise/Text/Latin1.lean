namespace Itemwise

/-!
# One-byte text

The first 256 code points as single bytes, and back.

* `Latin1.encode?` — the bytes of a text whose characters are all below U+0100;
* `Latin1.decode` — the text of any bytes.
-/

namespace Latin1

/-- The character of a byte. -/
def ofByte (b : UInt8) : Char := Char.ofNat b.toNat

/-- The byte of a character below U+0100. -/
def toByte? (c : Char) : Option UInt8 := if c.toNat < 0x100 then some c.toNat.toUInt8 else none

/-- The text of a byte sequence. -/
def decode (bs : List UInt8) : List Char := bs.map ofByte

/-- The bytes of a text, if every character is a single byte. -/
def encode? (cs : List Char) : Option (List UInt8) := cs.mapM toByte?

end Latin1

end Itemwise
