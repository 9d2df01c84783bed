import Itemwise.Input
import Itemwise.Scan.Finder

namespace Itemwise

/-!
# Searching an input for bytes

Bytes are searched a word at a time, a text a word at a time wherever eight characters in a row are
ASCII, and a list of arbitrary items one by one.

* `Search.code?` — the code of an item, if it has one;
* `Search.bytes`, `Search.text`, `Search.list` — the three searches;
* `Search.index?` — the first position of an input at or after a start whose item one of the finders
  accepts;
* `Search.naive?` — the same by looking at every item in turn;
* `Search.find?` — the search of any input.
-/

namespace Search

/-- The code of an item: a number, or a single character or byte.  A truth value has none. -/
def code? : Value → Option Int
  | .int n => some n
  | .text [c] => some c.toNat
  | .octets .fixed [b] => some b.toNat
  | .octets .growable [b] => some b.toNat
  | _ => none

/-- The first position from `i` on whose item in the list satisfies `p`. -/
def firstFrom {α : Type} (p : α → Bool) : (i : Nat) → List α → Option Nat
  | _, [] => none
  | i, x :: xs => if p x then some i else firstFrom p (i + 1) xs

/-- The first accepted position of an input at or after `start`, found by looking at every item. -/
def naive? (items : Items) (start : Nat) (fs : List Finder) : Option Nat :=
  firstFrom (fun x => (code? x).any (Finder.anyAccepts fs)) start (items.toList.drop start)

/-- Eight items of an array from a position on, as numbers. -/
def block {α : Type} (code : α → UInt8) (xs : Array α) (pos : Nat) : List UInt8 :=
  (xs.extract pos (pos + 8)).toList.map code

/-- The search of a byte sequence: whole words first, then the bytes that are left. -/
def bytes (fs : List Finder) (bs : Array UInt8) (pos : Nat) : Option Nat :=
  if pos + 8 ≤ bs.size then
    let mask := Finder.anyMask fs (Lanes.ofBytes (block id bs pos))
    if mask = 0 then bytes fs bs (pos + 8) else some (pos + Lanes.first mask)
  else
    firstFrom (fun b => Finder.anyAccepts fs b.toNat) pos (bs.extract pos bs.size).toList
termination_by bs.size - pos

/-- The search of a text: blocks of eight ASCII characters as words, other blocks character by
    character. -/
def text (fs : List Finder) (cs : Array Char) (pos : Nat) : Option Nat :=
  if pos < cs.size then
    let chunk := (cs.extract pos (pos + 8)).toList
    if chunk.length = 8 ∧ chunk.all (·.toNat < 0x80) then
      let mask := Finder.anyMask fs (Lanes.ofBytes (chunk.map fun c => c.toNat.toUInt8))
      if mask = 0 then text fs cs (pos + 8) else some (pos + Lanes.first mask)
    else
      match firstFrom (fun c => Finder.anyAccepts fs c.toNat) pos chunk with
      | some i => some i
      | none => text fs cs (pos + 8)
  else
    none
termination_by cs.size - pos

/-- The search of arbitrary items; those without a code are passed over. -/
def list (fs : List Finder) (look : Value → Value) (xs : Array Value) (pos : Nat) : Option Nat :=
  if h : pos < xs.size then
    if (code? (look xs[pos])).any (Finder.anyAccepts fs) then some pos
    else list fs look xs (pos + 1)
  else
    none
termination_by xs.size - pos

/-- The first position at or after `start` whose item one of the finders accepts; `look` gives an
    item as it is in the user state. -/
def index? (items : Items) (start : Nat) (fs : List Finder) (look : Value → Value := id) :
    Option Nat :=
  match items with
  | .text cs => text fs cs start
  | .octets _ bs => bytes fs bs start
  | .list xs | .tuple xs => list fs look xs start

/-- The search of an input that need not be a sequence, looking at `left` items at most. -/
def each (fs : List Finder) (look : Value → Value) (items : Input) :
    (left : Nat) → (pos : Int) → Except Fault (Option Int)
  | 0, _ => .ok none
  | left + 1, pos => do
    if (code? (look (← items.item pos))).any (Finder.anyAccepts fs) then return some pos
    each fs look items left (pos + 1)

/-- The first position of an input at or after `start` whose item one of the finders accepts. -/
def find? (items : Input) (start : Nat) (fs : List Finder) (look : Value → Value := id) :
    Except Fault (Option Nat) :=
  match items with
  | .sequence xs => .ok (index? xs start fs look)
  | items => (each fs look items (items.size - start) start).map fun i => i.map Int.toNat

/-- In a sequence, a search is one for an index, and never ends in a fault. -/
@[simp] theorem find?_sequence (items : Items) (start : Nat) (fs : List Finder)
    (look : Value → Value) :
    find? (.sequence items) start fs look = .ok (index? items start fs look) := rfl

end Search

end Itemwise
