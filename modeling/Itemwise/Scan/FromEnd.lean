import Itemwise.Fault
import Itemwise.Scan.Search
import Itemwise.Slice

namespace Itemwise

/-!
# Searches that start before the beginning

A search may start at a negative position.  A single item there is counted from the end of the
input; a block of eight there is the slice between its two ends, which is shorter or empty where
they do not bound eight items.

* `Search.blockAt` — the block at a position, negative or not;
* `Search.bytesFrom`, `Search.textFrom`, `Search.listFrom` — the searches of `Search` from such a
  start;
* `Search.indexFrom?` — the search of an input;
* `Search.indexFrom?_natCast` — from a start that is not negative it is `Search.index?`;
* `Search.findFrom` — the search of any input from a start that is any value.
-/

namespace Search

/-- The items of the block of eight at a position. -/
def blockAt {α : Type} (xs : Array α) (pos : Int) : List α :=
  (xs.extract (Slice.bound xs.size pos) (Slice.bound xs.size (pos + 8))).toList

/-- The search of a byte sequence.  A block that is short of bytes is searched as if zeros
    followed. -/
def bytesFrom (fs : List Finder) (bs : Array UInt8) (pos : Int) : Except Fault (Option Int) :=
  if 0 ≤ pos then
    .ok ((bytes fs bs pos.toNat).map Int.ofNat)
  else if pos + 8 ≤ bs.size then
    let block := blockAt bs pos
    let padded := block ++ List.replicate (8 - block.length) 0
    match firstFrom (fun b => Finder.anyAccepts fs b.toNat) 0 padded with
    | some i => .ok (some (pos + i))
    | none => bytesFrom fs bs (pos + 8)
  else
    match (Slice.index? bs.size pos).bind (bs[·]?) with
    | none => .error .badIndex
    | some b => if Finder.anyAccepts fs b.toNat then .ok (some pos) else bytesFrom fs bs (pos + 1)
termination_by (-pos).toNat

/-- The search of a text. -/
def textFrom (fs : List Finder) (cs : Array Char) (pos : Int) : Option Int :=
  if 0 ≤ pos then
    (text fs cs pos.toNat).map Int.ofNat
  else
    match firstFrom (fun c => Finder.anyAccepts fs c.toNat) 0 (blockAt cs pos) with
    | some i => some (pos + i)
    | none => textFrom fs cs (pos + 8)
termination_by (-pos).toNat

/-- The search of arbitrary items. -/
def listFrom (fs : List Finder) (look : Value → Value) (xs : Array Value) (pos : Int) :
    Except Fault (Option Int) :=
  if 0 ≤ pos then
    .ok ((list fs look xs pos.toNat).map Int.ofNat)
  else
    match (Slice.index? xs.size pos).bind (xs[·]?) with
    | none => .error .badIndex
    | some x =>
      if (code? (look x)).any (Finder.anyAccepts fs) then .ok (some pos)
      else listFrom fs look xs (pos + 1)
termination_by (-pos).toNat

/-- The first position of an input at or after `start` whose item one of the finders accepts. -/
def indexFrom? (items : Items) (start : Int) (fs : List Finder) (look : Value → Value := id) :
    Except Fault (Option Int) :=
  match items with
  | .text cs => .ok (textFrom fs cs start)
  | .octets _ bs => bytesFrom fs bs start
  | .list xs | .tuple xs => listFrom fs look xs start

/-- The search of an input from a start that is a value.  A fraction is no start, except at or after
    the end of a text, where nothing is looked for. -/
def findFrom (items : Input) (start : Value) (fs : List Finder) : Except Fault (Option Int) :=
  match start, start.toInt?, items with
  | _, some n, .sequence xs => indexFrom? xs n fs
  | _, some n, items => each fs id items (items.size - n).toNat n
  | .float x, none, .sequence (.text cs) =>
    if x.number < cs.size.toFloat then .error .wrongKind else .ok none
  | _, none, _ => .error .wrongKind

/-- From a start that is not negative the two searches agree. -/
theorem indexFrom?_natCast (items : Items) (start : Nat) (fs : List Finder) (look : Value → Value) :
    indexFrom? items start fs look = .ok ((index? items start fs look).map Int.ofNat) := by
  cases items <;> simp [indexFrom?, index?, textFrom, bytesFrom, listFrom]

end Search

end Itemwise
