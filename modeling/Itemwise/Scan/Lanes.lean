namespace Itemwise

/-!
# Byte lanes of a word

Eight bytes at a time are examined as one 64-bit word, each byte in a **lane** of its own.  A test
yields a **mask**: the high bit of every lane whose byte passes, and no other bit.

* `Lanes.nonzero`, `Lanes.below` — the masks of the lanes that are not zero, or below a bound;
* `Lanes.first` — the lowest lane flagged in a mask;
* `Lanes.byte` — the byte in a lane: the view through which the others are described;
* `Lanes.ofBytes` — the word of eight bytes, the first in the lowest lane.

No addition here carries from one lane into the next: the high bit of each lane is cleared first,
and what is then added is at most `0x80`.
-/

namespace Lanes

/-- The lanes of a word. -/
def count : Nat := 8

/-- The bits of a word. -/
def bits : Nat := 8 * count

/-- A one in every lane. -/
def ones : UInt64 := 0x0101010101010101

/-- The low seven bits of every lane. -/
def lowBits : UInt64 := 0x7f7f7f7f7f7f7f7f

/-- The high bit of every lane. -/
def highBits : UInt64 := 0x8080808080808080

/-- A byte in every lane. -/
def fill (b : UInt8) : UInt64 := b.toUInt64 * ones

/-- The byte in a lane. -/
def byte (word : UInt64) (lane : Nat) : UInt8 := (word >>> (8 * lane).toUInt64).toUInt8

/-- The lanes that are not zero. -/
def nonzero (word : UInt64) : UInt64 :=
  (((word &&& lowBits) + lowBits) ||| word) &&& highBits

/-- The lanes whose byte is below a bound of at most 256. -/
def below (word : UInt64) (bound : Nat) : UInt64 :=
  if bound = 0 then
    0
  else if bound ≤ 0x80 then
    let t := (word &&& lowBits) + (0x80 - bound).toUInt64 * ones
    ~~~(word ||| t) &&& highBits
  else
    let t := (word &&& lowBits) + (0x100 - bound).toUInt64 * ones
    ~~~(word &&& t) &&& highBits

/-- The lowest flagged lane of a mask that is not zero: its lowest set bit, found by the negation in
    two's complement. -/
def first (mask : UInt64) : Nat := (mask &&& (0 - mask)).toNat.log2 / 8

/-- The word of at most eight bytes. -/
def ofBytes : List UInt8 → UInt64
  | [] => 0
  | b :: bs => b.toUInt64 ||| (ofBytes bs <<< 8)

end Lanes

end Itemwise
