import Itemwise.Fault
import Itemwise.Scan.Lanes
import Itemwise.Value.Arithmetic
import Itemwise.Value.Display

namespace Itemwise

/-!
# Byte finders

A **finder** is a test on a single byte value, which can be asked of an item or of eight items at a
time.

* `Finder` — the byte compared with, and how;
* `Finder.accepts`, `Finder.acceptsValue` — whether an item of that code, or any value, passes;
* `Finder.wordMask` — the lanes of a word that pass;
* `Target`, `Finder.compile` — what a caller may look for, and the finders of it.
-/

/-- How an item is compared with a byte. -/
inductive ByteTest
  | eq
  | ne
  | lt
  | gt
deriving DecidableEq, Repr

/-- All comparisons, with their names. -/
def ByteTest.all : List (String × ByteTest) := [("eq", .eq), ("ne", .ne), ("lt", .lt), ("gt", .gt)]

/-- The comparison of a name. -/
def ByteTest.ofLabel? (s : String) : Option ByteTest := (all.find? fun e => e.1 == s).map Prod.snd

/-- A comparison with a byte. -/
structure Finder where
  test : ByteTest
  byte : UInt8
deriving DecidableEq, Repr

/-- What a search looks for: a finder, or a value that stands for a byte to be equal to. -/
inductive Target
  | finder (f : Finder)
  | value (v : Value)

namespace Finder

/-- Whether an item with this code passes. -/
def accepts (f : Finder) (code : Int) : Bool :=
  match f.test with
  | .eq => code == f.byte.toNat
  | .ne => code != f.byte.toNat
  | .lt => code < f.byte.toNat
  | .gt => code > f.byte.toNat

/-- Whether a value passes; the order of what is no number is refused. -/
def acceptsValue (f : Finder) (v : Value) : Except Fault Bool :=
  let byte := Value.int f.byte.toNat
  match f.test with
  | .eq => .ok (v.eqv byte)
  | .ne => .ok !(v.eqv byte)
  | .lt => Value.test .lt v byte
  | .gt => Value.test .gt v byte

/-- The high bits of the lanes whose byte passes. -/
def wordMask (f : Finder) (word : UInt64) : UInt64 :=
  match f.test with
  | .eq => ~~~(Lanes.nonzero (word ^^^ Lanes.fill f.byte)) &&& Lanes.highBits
  | .ne => Lanes.nonzero (word ^^^ Lanes.fill f.byte)
  | .lt => Lanes.below word f.byte.toNat
  | .gt => ~~~(Lanes.below word (f.byte.toNat + 1)) &&& Lanes.highBits

/-- The written form of a finder. -/
def display (f : Finder) : List Char :=
  let kind := match f.test with
    | .eq => "EqByte"
    | .ne => "NeByte"
    | .lt => "LtByte"
    | .gt => "GtByte"
  kind.toList ++ "(byte=".toList ++ Decimal.ofNat f.byte.toNat ++ [')']

/-- The byte that a value stands for: a number below 256, a character below U+0100, or one byte. -/
def byteOf (v : Value) : Except Fault UInt8 :=
  match v with
  | .int n => if 0 ≤ n ∧ n ≤ 0xff then .ok n.toNat.toUInt8 else .error (.invalidByteTarget v)
  | .text [c] => if c.toNat ≤ 0xff then .ok c.toNat.toUInt8 else .error (.invalidByteTarget v)
  | .octets k [b] => if k.isView then .error (.invalidByteTarget v) else .ok b
  | v => .error (.invalidByteTarget v)

/-- The finder of a comparison with what a value stands for. -/
def make (test : ByteTest) (v : Value) : Except Fault Finder :=
  (byteOf v).map fun b => ⟨test, b⟩

/-- The finder of a target. -/
def ofTarget : Target → Except Fault Finder
  | .finder f => .ok f
  | .value v => make .eq v

/-- The finders of some targets, of which there has to be one. -/
def compile (targets : List Target) : Except Fault (List Finder) :=
  if targets.isEmpty then .error .emptyFinderSet else targets.mapM ofTarget

/-- Whether one of the finders accepts an item with this code. -/
def anyAccepts (fs : List Finder) (code : Int) : Bool := fs.any (·.accepts code)

/-- The lanes of a word that one of the finders accepts. -/
def anyMask (fs : List Finder) (word : UInt64) : UInt64 :=
  fs.foldl (fun mask f => mask ||| f.wordMask word) 0

end Finder

end Itemwise
