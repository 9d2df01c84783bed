import Itemwise.Room
import Itemwise.Value.Equality
import Itemwise.Value.Order
import Itemwise.Value.Slots

namespace Itemwise

/-!
# Arithmetic of values

* `Value.add`, `Value.sub`, `Value.mul`, `Value.neg` — the operations on numbers; a truth value
  counts as 0 or 1, and a float with an integer gives a float;
* `add` also joins two sequences of one kind, and `mul` repeats a sequence within the room there is;
* `Value.quotient` — the quotient of two numbers, rounded down;
* `Value.test` — an order test, with the fault for incomparable values.
-/

namespace Value

/-- An integer as a float; one beyond the range of floats is too large. -/
def floatOfInt (n : Int) : Except Fault Float :=
  let x := Float.ofInt n
  if x.isInf then .error .tooLarge else .ok x

/-- Two numbers of which at least one is a float. -/
def floats? : Value → Value → Option (Except Fault (Float × Float))
  | .float x, .float y => some (.ok (x.number, y.number))
  | .float x, b => b.toInt?.map fun n => (floatOfInt n).map fun y => (x.number, y)
  | a, .float y => a.toInt?.map fun n => (floatOfInt n).map fun x => (x, y.number)
  | _, _ => none

/-- A number operation, given on integers and on floats. -/
def numeric (onInt : Int → Int → Int) (onFloat : Float → Float → Float) (a b : Value) :
    Except Fault Value :=
  match a.toInt?, b.toInt? with
  | some m, some n => .ok (.int (onInt m n))
  | _, _ =>
    match floats? a b with
    | some r => r.map fun p => .float (onFloat p.1 p.2)
    | none => .error .wrongKind

/-- Sum of two numbers, or two sequences of one kind joined. -/
def add : Value → Value → Except Fault Value
  | .text a, .text b => .ok (.text (a ++ b))
  | .octets k a, .octets l b =>
    if k.isView || l == .backwardView then .error .wrongKind else .ok (.octets k (a ++ b))
  | .list xs, .list ys => .ok (.list (xs ++ ys))
  | .tuple xs, .tuple ys => .ok (.tuple (xs ++ ys))
  | a, b => numeric (· + ·) (· + ·) a b

/-- Difference of two numbers, or the members of a set that are not in another. -/
def sub : Value → Value → Except Fault Value
  | .set xs spots, .set ys _ => .ok (Slots.without xs spots ys)
  | a, b => numeric (· - ·) (· - ·) a b

/-- A list repeated: nothing for a number that is not positive, and refused if the number is no
    count or the items would be too many. -/
def repeatedItems {α : Type} (tooMany : Fault) (xs : List α) (n : Int) : Except Fault (List α) := do
  let n ← Room.count n
  if n = 0 ∨ xs.isEmpty then return []
  Room.check tooMany (xs.length * n)
  return (List.replicate n xs).flatten

/-- A sequence repeated, for the kinds that can be. -/
def repeated (v : Value) (n : Int) : Option (Except Fault Value) :=
  match v with
  | .text cs => some ((repeatedItems .tooLarge cs n).map .text)
  | .octets .fixed bs => some ((repeatedItems .tooLarge bs n).map (.octets .fixed))
  | .octets .growable bs => some ((repeatedItems .outOfMemory bs n).map (.octets .growable))
  | .list xs => some ((repeatedItems .outOfMemory xs n).map .list)
  | .tuple xs => some ((repeatedItems .outOfMemory xs n).map .tuple)
  | _ => none

/-- Product of two numbers, or a sequence repeated. -/
def mul (a b : Value) : Except Fault Value :=
  match (b.toInt?.bind a.repeated).or (a.toInt?.bind b.repeated) with
  | some r => r
  | none => numeric (· * ·) (· * ·) a b

/-- A number with its sign changed. -/
def neg : Value → Except Fault Value
  | .float x => .ok (.float { number := -x.number })
  | v => (Fault.attempt .wrongKind v.toInt?).map fun n => .int (-n)

/-- What is left of a float after another is taken from it as often as it fits; it has the sign of
    the first. -/
def floatRest (x y : Float) : Float :=
  match Binary64.ofFloat x, Binary64.ofFloat y with
  | .finite negative m p, .finite _ n q =>
    let least := min p q
    let rest := Binary64.toFloat
      (m * Nat.pow 2 (p - least).toNat % (n * Nat.pow 2 (q - least).toNat)) least
    if negative then -rest else rest
  | .finite .., .infinite _ => x
  | _, _ => 0 / 0

/-- A float without the part behind its point, downwards; one that is half a unit and more above is
    too close to the next to be anything else. -/
def floatSnapped (x : Float) : Float :=
  match (Binary64.ofFloat x).floor? with
  | some n => if x - Float.ofInt n > 0.5 then Float.ofInt n + 1 else Float.ofInt n
  | none => x

/-- The quotient of two floats, rounded down: what is left is taken off, and the quotient of the
    rest is a whole number but for the rounding of floats. -/
def floatQuotient (x y : Float) : Except Fault Float :=
  if y == 0 then .error .divisionByZero
  else
    let rest := floatRest x y
    let quotient := (x - rest) / y
    let quotient := if rest != 0 && (y < 0) != (rest < 0) then quotient - 1 else quotient
    .ok (floatSnapped quotient)

/-- The quotient of two numbers, rounded down. -/
def quotient (a b : Value) : Except Fault Value :=
  match a.toInt?, b.toInt? with
  | some m, some n => if n = 0 then .error .divisionByZero else .ok (.int (Int.fdiv m n))
  | _, _ => do
    let (x, y) ← (floats? a b).getD (.error .wrongKind)
    return .float (← floatQuotient x y)

/-- The answer of an order test, or the fault that the values are incomparable. -/
def test (op : Comparison) (a b : Value) : Except Fault Bool :=
  Fault.attempt .wrongKind (holds? op a b)

/-- Two integers are compared as integers. -/
theorem test_int (op : Comparison) (m n : Int) :
    test op (.int m) (.int n) = .ok (op.admits (Ord.compare m n)) := by
  simp [test, holds?, number?, Binary64.compare_ofInt]

end Value

end Itemwise
