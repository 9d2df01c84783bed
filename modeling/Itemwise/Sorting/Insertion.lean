import Itemwise.Fault

namespace Itemwise

/-!
# Sorting by insertion

Items are sorted with a test that tells whether one comes before another.  The test may end in a
fault, and it need not be an order: then it matters which items are tested against each other.

* `Sorting.search` — the place from which on something holds, by halving;
* `Sorting.runEnd` — the end of a run of items in ascending or in descending order;
* `Sorting.insertAll` — items put into their places among sorted ones;
* `Sorting.byInsertion` — the items in ascending order.
-/

namespace Sorting

/-- Whether an item comes before another. -/
abbrev Before (α : Type) := α → α → Except Fault Bool

/-- The first place between two at which something holds that holds from there on. -/
def search (holds : Nat → Except Fault Bool) (low high : Nat) : Except Fault Nat :=
  if low < high then do
    let middle := (low + high) / 2
    if ← holds middle then search holds low middle else search holds (middle + 1) high
  else
    return low
termination_by high - low

variable {α : Type} (before : Before α)

/-- The first place from `i` on that ends a run: where an item, for a descending run, does not come
    before the previous one, or, for an ascending run, does. -/
def runEnd (items : Array α) (descending : Bool) (i : Nat) : Except Fault Nat :=
  if h : i < items.size then do
    if (← before items[i] items[i - 1]) == descending then
      runEnd items descending (i + 1) else return i
  else
    return i
termination_by items.size - i

/-- The run at the beginning of some items, turned round if it descends. -/
def firstRun (items : Array α) : Except Fault (Array α) :=
  match items[0]?, items[1]? with
  | some first, some second => do
    let descending ← before second first
    let run := items.extract 0 (← runEnd before items descending 2)
    return if descending then run.reverse else run
  | _, _ => return items

/-- Sorted items with a further one, behind all those that it does not come before. -/
def insert (sorted : Array α) (x : α) : Except Fault (Array α) := do
  let place ← search (fun i => (sorted[i]?).elim (.ok true) (before x)) 0 sorted.size
  return sorted.insertIdxIfInBounds place x

/-- Sorted items with further ones, put into their places one by one. -/
def insertAll (sorted items : Array α) : Except Fault (Array α) :=
  items.foldlM (insert before) sorted

/-- The items in ascending order: the run at the beginning, with the others inserted. -/
def byInsertion (items : Array α) : Except Fault (Array α) := do
  let run ← firstRun before items
  insertAll before run (items.extract run.size items.size)

/-- Whether every item comes before the next. -/
def isAscending : List α → Except Fault Bool
  | x :: y :: xs => do if ← before x y then isAscending (y :: xs) else return false
  | _ => return true

end Sorting

end Itemwise
