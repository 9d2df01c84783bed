import Itemwise.Value.Equality

namespace Itemwise

/-!
# Order of values

Numbers compare with numbers, texts with texts by code point, byte sequences byte by byte, lists
with lists and tuples with tuples at their first difference, and sets by inclusion.  All other pairs
are incomparable.

* `Comparison` — the four order tests;
* `Value.holds?` — the answer to a test, `none` for incomparable values.
-/

/-- An order test. -/
inductive Comparison
  | lt
  | le
  | gt
  | ge
deriving DecidableEq, Repr

namespace Comparison

/-- Whether the test accepts two things in this order. -/
def admits : Comparison → Ordering → Bool
  | .lt, o => o == .lt
  | .le, o => o != .gt
  | .gt, o => o == .gt
  | .ge, o => o != .lt

/-- Whether the test, asked of two sets, accepts inclusion in either direction. -/
def admitsInclusion : Comparison → (within contains : Bool) → Bool
  | .lt, within, contains => within && !contains
  | .le, within, _ => within
  | .gt, within, contains => contains && !within
  | .ge, _, contains => contains

/-- The comparison of integers is their order. -/
theorem admits_le (m n : Int) : le.admits (Ord.compare m n) = decide (m ≤ n) := by
  rcases Int.lt_trichotomy m n with h | h | h
  · simp [admits, Int.compare_eq_lt.2 h, Int.le_of_lt h]
  · simp [admits, h]
  · simp [admits, Int.compare_eq_gt.2 h, Int.not_le.2 h]

end Comparison

/-- The order of two sequences at their first difference, by a numeric key; a proper beginning comes
    first. -/
def compareBy {α : Type} (key : α → Nat) : List α → List α → Ordering
  | [], [] => .eq
  | [], _ :: _ => .lt
  | _ :: _, [] => .gt
  | x :: xs, y :: ys => if key x = key y then compareBy key xs ys else compare (key x) (key y)

/-- The kinds of byte sequence whose order is defined: views compare with growable sequences only,
    and only if their bytes lie in a row. -/
def OctetKind.comparable : OctetKind → OctetKind → Bool
  | .backwardView, _ | _, .backwardView => false
  | .growable, _ | _, .growable => true
  | .fixed, .fixed => true
  | _, _ => false

namespace Value

mutual

/-- The answer of an order test on two values. -/
def holds? (op : Comparison) : Value → Value → Option Bool
  | .text a, .text b => some (op.admits (compareBy Char.toNat a b))
  | .octets k a, .octets l b =>
    if k.comparable l then some (op.admits (compareBy UInt8.toNat a b)) else none
  | .list xs, .list ys => holdsFirst? op xs ys
  | .tuple xs, .tuple ys => holdsFirst? op xs ys
  | .set xs _, .set ys _ => some (op.admitsInclusion (membersWithin xs ys) (membersWithin ys xs))
  | a, b =>
    match a.number?, b.number? with
    | some x, some y =>
      some (match Binary64.compare x y with
        | some o => op.admits o
        | none => false)
    | _, _ => none

/-- The answer of an order test on two lists: the answer at their first difference. -/
def holdsFirst? (op : Comparison) : List Value → List Value → Option Bool
  | [], [] => some (op.admits .eq)
  | [], _ :: _ => some (op.admits .lt)
  | _ :: _, [] => some (op.admits .gt)
  | x :: xs, y :: ys => if same x y then holdsFirst? op xs ys else holds? op x y

end

end Value

end Itemwise
