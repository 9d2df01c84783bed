import Itemwise.Sorting.Insertion

namespace Itemwise

/-!
# Searching from a place nearby

* `Sorting.gallop` — the place from which on something holds, found by steps of growing width from a
  place where it is expected and then by halving.
-/

namespace Sorting

/-- Goes on by steps of growing width, `ofs` being the next, for as long as something holds and
    there are less than `most`: the last width at which it held, and the first at which it did not
    or `most`. -/
def widen (holds : Nat → Except Fault Bool) (most last ofs : Nat) : Except Fault (Nat × Nat) :=
  if ofs < most then do
    if ← holds ofs then widen holds most ofs (2 * ofs + 1) else return (last, ofs)
  else
    return (last, most)
termination_by most - ofs

/-- The first of `n` places at which something holds that holds from there on, looked for around one
    of them. -/
def gallop (holds : Nat → Except Fault Bool) (n hint : Nat) : Except Fault Nat := do
  if ← holds hint then
    let (last, ofs) ← widen (fun k => holds (hint - k)) (hint + 1) 0 1
    search holds (hint + 1 - ofs) (hint - last)
  else
    let (last, ofs) ← widen (fun k => do return !(← holds (hint + k))) (n - hint) 0 1
    search holds (hint + last + 1) (hint + ofs)

/-- The end of a sequence at which something is counted. -/
inductive Side
  | front
  | back
deriving DecidableEq

/-- How many items at the beginning of a list a test accepts, which accepts a first part of it.  The
    list is searched in the order that it has, or in the opposite one. -/
def leading {α : Type} (side : Side) (test : α → Except Fault Bool) (items : List α) :
    Except Fault Nat :=
  do
  let xs := items.toArray
  let accepted (i : Nat) : Except Fault Bool := (xs[i]?).elim (.ok false) test
  match side with
  | .front => gallop (fun i => do return !(← accepted i)) xs.size 0
  | .back => return xs.size - (← gallop (fun i => accepted (xs.size - 1 - i)) xs.size (xs.size - 1))

end Sorting

end Itemwise
