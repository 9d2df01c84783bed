import Itemwise.Step.Basic
import Itemwise.Decimal.Reading

namespace Itemwise

/-!
# Parsers of decimal numbers

Digits are ASCII digits in any form: characters, codes, or single bytes.

* `IntKind` — the fixed-width integer types, with their bounds;
* `Leaf.digit?` — the value of a digit item;
* `Leaf.digitRun` — the digits from a position on;
* `Leaf.integer` — an integer, with or without a sign, that may have to fit a type;
* `Leaf.decimal` — a decimal number as a float, whose integer part may have to fit a type.

A sign or a point is looked for in the items as they are in the user state.
-/

/-- A fixed-width integer type. -/
structure IntKind where
  signed : Bool
  bits : Nat
deriving DecidableEq, Repr

namespace IntKind

/-- The integer types, unsigned and signed, of eight to 128 bits. -/
def all : List IntKind :=
  [8, 16, 32, 64, 128].map (IntKind.mk false) ++ [8, 16, 32, 64, 128].map (IntKind.mk true)

/-- The name of a type. -/
def label (k : IntKind) : String :=
  (if k.signed then "i" else "u") ++ String.ofList (Decimal.ofNat k.bits)

/-- The type of a name. -/
def ofLabel? (s : String) : Option IntKind := all.find? fun k => k.label == s

/-- The least value of a type. -/
def least (k : IntKind) : Int := if k.signed then -(Nat.pow 2 (k.bits - 1) : Nat) else 0

/-- The greatest value of a type. -/
def greatest (k : IntKind) : Int :=
  (Nat.pow 2 (if k.signed then k.bits - 1 else k.bits) : Nat) - 1

/-- Whether a type has a value. -/
def fits (k : IntKind) (n : Int) : Bool := k.least ≤ n && n ≤ k.greatest

end IntKind

namespace Leaf

/-- The value of the ASCII digit with this code. -/
def digitOfCode? (n : Int) : Option Nat :=
  if 0x30 ≤ n ∧ n ≤ 0x39 then some (n - 0x30).toNat else none

/-- The value of a digit item. -/
def digit? : Value → Option Nat
  | .int n => digitOfCode? n
  | .text [c] => digitOfCode? c.toNat
  | .octets .fixed [b] => digitOfCode? b.toNat
  | _ => none

/-- The values of the digits from `pos` on, looking at `left` items at most. -/
def digitRun (items : Input) : (left pos : Nat) → Except Fault (List Nat)
  | 0, _ => .ok []
  | left + 1, pos => do
    match (← items.item? pos).bind digit? with
    | some d => return d :: (← digitRun items left (pos + 1))
    | none => return []

/-- The number that some digit values denote. -/
def numberOf (ds : List Nat) : Nat := ds.foldl (fun n d => n * 10 + d) 0

/-- The items that count as a minus sign. -/
def minusForms : List Value := [.ofChar '-', .int 0x2d, .octets .fixed [0x2d]]

/-- The items that count as a decimal point. -/
def pointForms : List Value := [.ofChar '.', .int 0x2e, .octets .fixed [0x2e]]

/-- The digits of an integer, and whether a minus sign precedes them. -/
structure Numeral where
  negative : Bool
  digits : List Nat

namespace Numeral

/-- The integer a numeral denotes. -/
def value (n : Numeral) : Int :=
  if n.negative then -(numberOf n.digits : Int) else numberOf n.digits

/-- How many items a numeral takes. -/
def width (n : Numeral) : Nat := (if n.negative then 1 else 0) + n.digits.length

end Numeral

/-- The numeral at a position, if there is one and its value fits the type asked for. -/
def numeral? (items : Input) (pos : Nat) (signed : Bool) (kind : Option IntKind)
    (look : Value → Value) : Except Fault (Option Numeral) := do
  let negative := signed && (← items.item? pos).any fun v => (look v).isMember minusForms
  let start := if negative then pos + 1 else pos
  let n : Numeral := ⟨negative, ← digitRun items (items.size - start) start⟩
  return if n.digits.isEmpty then none
    else if kind.all (·.fits n.value) then some n
    else none

/-- An integer. -/
def integer (signed : Bool) (kind : Option IntKind) (look : Value → Value) : Leaf := fun c => do
  match ← numeral? c.items c.pos signed kind look with
  | some n => accept c (.int n.value) (c.pos + n.width)
  | none => reject c

/-- The digits of the fraction whose point is at `pos`; none unless a digit follows the point. -/
def fraction (items : Input) (pos : Nat) (look : Value → Value) : Except Fault (List Nat) := do
  if (← items.item? pos).any fun v => (look v).isMember pointForms then
    digitRun items (items.size - (pos + 1)) (pos + 1)
  else
    return []

/-- The text of some digit values. -/
def digitText (ds : List Nat) : List Char := ds.map fun d => Char.ofNat (0x30 + d)

/-- A decimal number, as the float that its text denotes. -/
def decimal (kind : Option IntKind) (look : Value → Value) : Leaf := fun c => do
  match ← numeral? c.items c.pos true kind look with
  | some n =>
    let stop := c.pos + n.width
    let whole := (if n.negative then ['-'] else []) ++ digitText n.digits
    match ← fraction c.items stop look with
    | [] => accept c (.float (Reading.float whole)) stop
    | ds => accept c (.float (Reading.float (whole ++ '.' :: digitText ds))) (stop + 1 + ds.length)
  | none => reject c

end Leaf

end Itemwise
