namespace Itemwise

/-!
# Slices of sequences

A slice picks positions of a sequence by a start, a stop and a step.  A negative bound counts from
the end, and bounds beyond the sequence stand for its ends.

* `Slice.index?` — the position that a possibly negative index means;
* `Slice.bound` — the offset that a bound of a plain slice means;
* `Slice.positions` — the positions of a slice with a step;
* `Slice.pick` — the items at some positions.
-/

namespace Slice

/-- The position that `i` means in a sequence of `size` items. -/
def index? (size : Nat) (i : Int) : Option Nat :=
  let j := if i < 0 then i + size else i
  if 0 ≤ j ∧ j < size then some j.toNat else none

/-- The offset that the bound `i` means: from the end if negative, and never outside the
    sequence. -/
def bound (size : Nat) (i : Int) : Nat :=
  min (if i < 0 then i + size else i).toNat size

/-- The position between `low` and `high` that a given or missing bound of a slice means. -/
def clamp (size : Nat) (low high default : Int) : Option Int → Int
  | none => default
  | some i => max low (min high (if i < 0 then i + size else i))

/-- The positions that a slice picks; a step of zero picks none. -/
def positions (size : Nat) (start stop : Option Int) (step : Int) : List Nat :=
  if 0 < step then
    let a := clamp size 0 size 0 start
    let b := clamp size 0 size size stop
    (List.range ((b - a + step - 1) / step).toNat).map fun (k : Nat) => (a + k * step).toNat
  else if step < 0 then
    let a := clamp size (-1) (size - 1) (size - 1) start
    let b := clamp size (-1) (size - 1) (-1) stop
    (List.range ((a - b - step - 1) / (-step)).toNat).map fun (k : Nat) => (a + k * step).toNat
  else
    []

/-- The items at the given positions. -/
def pick {α : Type} (xs : List α) (positions : List Nat) : List α :=
  let a := xs.toArray
  positions.filterMap (a[·]?)

/-- A bound is cut off at the size. -/
theorem bound_le (size : Nat) (i : Int) : bound size i ≤ size := Nat.min_le_right _ _

/-- A bound that is no negative number counts from the front. -/
theorem bound_natCast (size k : Nat) : bound size k = min k size := by
  have h : ¬ ((k : Int) < 0) := by omega
  simp [bound, h]

end Slice

end Itemwise
