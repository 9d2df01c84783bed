import Itemwise.Value.Equality

namespace Itemwise

/-!
# The order of a set

A set keeps its members in a table of **slots** and lists them slot by slot.  A member goes to the
slot that its code names, or to the next free one of the places tried after it.

* `Slots.code?` — the code of a value; equal values have equal codes;
* `Slots.place` — a table with a further member;
* `Slots.ofList` — the set of some different values;
* `Slots.without` — a set without some of its members.

The table is replaced by a larger one before it gets crowded.  Numbers have codes, and so have
tuples and sets of values that have one; where another value is a member, the members stay in the
order in which they came.
-/

namespace Slots

/-! ### Codes -/

/-- The codes of numbers are taken modulo this prime. -/
def modulus : Nat := Nat.pow 2 61 - 1

/-- A machine word from an integer, which is taken modulo the number of words. -/
def word (n : Int) : UInt64 := (n % ((Nat.pow 2 64 : Nat) : Int)).toNat.toUInt64

/-- The code of an exact number: the number itself up to the modulus, where dividing by two is
    rotating the bits of the code.  No number has the code `-1`. -/
def codeOf : Binary64 → Option UInt64
  | .finite negative m q =>
    let code := Binary64.signed negative (m * Nat.pow 2 (q % 61).toNat % modulus)
    some (word (if code = -1 then -2 else code))
  | .infinite negative => some (word (Binary64.signed negative 314159))
  | .notNumber => none

/-- The code of a tuple from those of its items, which are stirred in one after the other. -/
def ofItems (codes : List UInt64) : UInt64 :=
  let start : UInt64 := 2870177450012600261
  let stirred := codes.foldl (fun (code c : UInt64) =>
    let code := code + c * 14029467366897019727
    (code <<< 31 ||| code >>> 33) * 11400714785074694791) start
  let code := stirred + (codes.length.toUInt64 ^^^ start ^^^ 3527539)
  if code = word (-1) then 1546275796 else code

/-- The code of a set from those of its members, whose order does not matter. -/
def ofMembers (codes : List UInt64) : UInt64 :=
  let mixed := codes.foldl (fun (code c : UInt64) =>
    let spread : UInt64 := c ^^^ 89869747
    code ^^^ (spread ^^^ c <<< 16) * 3644798167) 0
  let code := mixed ^^^ (codes.length.toUInt64 + 1) * 1927868237
  let code := (code ^^^ code >>> 11 ^^^ code >>> 25) * 69069 + 907133923
  if code = word (-1) then 590923713 else code

mutual

/-- The code of a value, for the values that have one. -/
def code? : Value → Option UInt64
  | .text [] | .octets _ [] => some 0
  | .tuple xs => (codes? xs).map ofItems
  | .set xs _ => (codes? xs).map ofMembers
  | v => v.number?.bind codeOf

/-- The codes of values of which each has one. -/
def codes? : List Value → Option (List UInt64)
  | [] => some []
  | x :: xs => (code? x).bind fun c => (codes? xs).map (c :: ·)

end

/-! ### Tables -/

/-- A member with its code. -/
structure Member where
  value : Value
  code : UInt64

/-- A value with its code, if it has one. -/
def member? (v : Value) : Option Member := (code? v).map (Member.mk v)

/-- The slots, each free or with a member in it. -/
abbrev Table := Array (Option Member)

/-- A table of free slots. -/
def free (size : Nat) : Table := Array.replicate size none

/-- The first free slot from `i` on, of at most `more` after it. -/
def freeFrom (t : Table) (i : Nat) : (more : Nat) → Option Nat
  | 0 => if (t[i]?.join).isNone then some i else none
  | more + 1 => if (t[i]?.join).isNone then some i else freeFrom t (i + 1) more

/-- The slot for a member: near the slot `i`, or near one that `i` and the bits of the code not yet
    used lead to.  `fuel` bounds the places tried. -/
def slotFrom (t : Table) : (fuel i bits : Nat) → Nat
  | 0, i, _ => i
  | fuel + 1, i, bits =>
    match freeFrom t i (if i + 9 < t.size then 9 else 0) with
    | some j => j
    | none =>
      let bits := bits / 32
      slotFrom t fuel ((i * 5 + 1 + bits) % t.size) bits

/-- The table with a further member, for a table that has a free slot. -/
def place (t : Table) (m : Member) : Table :=
  let code := m.code.toNat
  t.setIfInBounds (slotFrom t (t.size + 13) (code % t.size) code) (some m)

/-- Members placed one after the other into free slots. -/
def placeAll (size : Nat) (ms : List Member) : Table := ms.foldl place (free size)

/-- The members of a table, slot by slot. -/
def members (t : Table) : List Member := t.toList.filterMap id

/-- The least size of a table that is above a number: a power of two, and eight at least. -/
def sizeAbove (n : Nat) : Nat := max 8 (Nat.pow 2 (Nat.log2 n + 1))

/-- Members placed one after the other into a table that holds `n`.  A crowded table gives way to
    one of four times as many slots as members, or twice as many as many members. -/
def fill (t : Table) : (n : Nat) → List Member → Table
  | _, [] => t
  | n, m :: ms =>
    let t := place t m
    let n := n + 1
    if n * 5 < (t.size - 1) * 3 then fill t n ms
    else fill (placeAll (sizeAbove (if n ≤ 50000 then 4 * n else 2 * n)) (members t)) n ms

/-! ### Sets -/

/-- The set of the members of a table other than those that are taken out. -/
def toSet (t : Table) (isOut : Value → Bool) : Value :=
  let slots := t.toList.zipIdx.filterMap fun (slot, i) => slot.map fun m => (m.value, i)
  let kept := slots.filter fun slot => !isOut slot.1
  .set (kept.map Prod.fst)
    ⟨t.size, kept.map Prod.snd, (slots.filter fun slot => isOut slot.1).map Prod.snd⟩

/-- The set of some different values. -/
def ofList (xs : List Value) : Value :=
  match xs.mapM member? with
  | some ms => toSet (fill (free 8) 0 ms) fun _ => false
  | none => .set xs {}

/-- The table of a copy of a set.  It has twice as many slots as members if they are more than fit
    into the least table; one of the same size that lost no members is copied slot by slot. -/
def copy (ms : List Member) (spots : Spots) : Table :=
  let size := if ms.length < 5 then 8 else sizeAbove (2 * ms.length)
  if size = spots.size ∧ spots.spoilt.isEmpty then
    (ms.zip spots.taken).foldl (fun t m => t.setIfInBounds m.2 (some m.1)) (free size)
  else
    placeAll size ms

/-- A set without the members that are among others: a copy from which a few are taken out, or else
    a new set of those left. -/
def without (xs : List Value) (spots : Spots) (others : List Value) : Value :=
  let isOut (x : Value) : Bool := x.isMember others
  match xs.mapM member? with
  | some ms =>
    if others.length < ms.length / 4 then toSet (copy ms spots) isOut
    else ofList (xs.filter fun x => !isOut x)
  | none => .set (xs.filter fun x => !isOut x) {}

end Slots

end Itemwise
