import Itemwise.Decimal.Binary64
import Itemwise.Span
import Itemwise.SemVer
import Itemwise.LineItem

namespace Itemwise

/-!
# Values

Parsers work on inputs of many kinds and yield results of many kinds; a **value** is any of them.

* `Value` — numbers, texts, byte sequences, lists, tuples, dictionaries, sets, and the results of
  the grammars;
* `OctetKind` — the kinds of byte sequence, equal whenever their bytes are;
* `Spots` — the slots of a set, which decide in what order further sets list its members;
* `BinaryOp` — the named functions of two arguments, which are values too, so that an operator
  parser can yield one.

A container that several values have in common is no part of them: they hold the **place** at which
a store keeps it.
-/

/-- The kinds of byte sequence: one that never changes, one that can grow, a view of another, and a
    view that runs through another backwards, so that its bytes do not lie in a row.

    A view is one of memory that is not written to and has single bytes for items.  A view through
    which memory can be written has no hash, so it is no member of a set; a view in another format
    has items that are no bytes, of any size.  Neither is represented. -/
inductive OctetKind
  | fixed
  | growable
  | view
  | backwardView
deriving DecidableEq, Repr

/-- Whether a byte sequence is a view of another. -/
def OctetKind.isView : OctetKind → Bool
  | .view | .backwardView => true
  | .fixed | .growable => false

/-- The named functions of two arguments. -/
inductive BinaryOp
  | add
  | sub
  | mul
  | first
  | second
  | pair
  | max
  | count
  | append
  | cons
  | digits
deriving DecidableEq, Repr

/-- Where a set keeps its members: the number of its slots, the slots of its members one by one, and
    the slots that members taken out have left unusable. -/
structure Spots where
  size : Nat := 8
  taken : List Nat := []
  spoilt : List Nat := []
deriving DecidableEq, Repr

/-- A dynamic value. -/
inductive Value
  | null
  | bool (b : Bool)
  | int (n : Int)
  | float (x : Floating)
  | text (cs : List Char)
  | octets (kind : OctetKind) (bytes : List UInt8)
  | list (xs : List Value)
  | tuple (xs : List Value)
  | dict (entries : List (Value × Value))
  | set (members : List Value) (spots : Spots)
  | array (capacity : Nat) (xs : List Value)
  | span (s : Span)
  | version (v : SemVer)
  | line (l : LineItem)
  /-- A function; two functions that were made apart differ. -/
  | operator (f : BinaryOp) (made : Nat)
  /-- The container that a store keeps at a place. -/
  | shared (place : Nat)
deriving Inhabited

namespace Value

/-- The text of a string. -/
def ofString (s : String) : Value := .text s.toList

/-- A text of one character. -/
def ofChar (c : Char) : Value := .text [c]

/-- A byte as an item of a byte sequence. -/
def ofByte (b : UInt8) : Value := .int b.toNat

end Value

end Itemwise
