import Itemwise.Sorting.Gallop

namespace Itemwise

/-!
# Merging two sorted runs

Two runs are merged from the side of the longer one's outer end: item by item, or, while one run
keeps winning, by whole stretches that are looked for by galloping.  How long a run has to win for
that is the **patience**, which is handed on from merge to merge.

* `Sorting.Merging` — what is left of the two runs, and what has been taken;
* `Sorting.Merging.step`, `Sorting.Merging.strides` — a single item taken, or two stretches;
* `Sorting.mergeFrom` — the merge of two runs from one side;
* `Sorting.merge` — the merge of two neighbouring runs.
-/

namespace Sorting

variable {α : Type}

/-- A merge under way: the rest of the run that comes to an end with it, the rest of the other one,
and the items taken. -/
inductive Merging (α : Type)
  | underway (xs ys : List α) (taken : Array α)
  | finished (all : Array α)

namespace Merging

/-- All items, those that are left behind those taken. -/
def all : Merging α → Array α
  | .underway xs ys taken => taken ++ xs.toArray ++ ys.toArray
  | .finished all => all

/-- The merge after items were taken from the first run: its last item comes last of all. -/
def afterFirst (xs ys : List α) (taken : Array α) : Merging α :=
  match xs with
  | [] => .finished (taken ++ ys.toArray)
  | [x] => .finished ((taken ++ ys.toArray).push x)
  | xs => .underway xs ys taken

/-- The merge after items were taken from the second run. -/
def afterSecond (xs ys : List α) (taken : Array α) : Merging α :=
  match ys with
  | [] => .finished (taken ++ xs.toArray)
  | ys => .underway xs ys taken

/-- The merge of two runs at the beginning, where an item of the second comes first. -/
def start (xs ys : List α) : Merging α :=
  match afterSecond xs ys.tail (ys.take 1).toArray with
  | .underway xs ys taken => afterFirst xs ys taken
  | done => done

/-- The next item taken, and whether it came from the second run; `wins` tells whether an item of
    the second run comes before one of the first. -/
def step (wins : Before α) : Merging α → Except Fault (Merging α × Bool)
  | .underway (x :: xs) (y :: ys) taken => do
    if ← wins y x then return (afterSecond (x :: xs) ys (taken.push y), true)
    else return (afterFirst xs (y :: ys) (taken.push x), false)
  | m => return (m, false)

/-- The stretch of the first run that comes before the next item of the second, and then that item.
    With the merge comes the length of the stretch. -/
def strideFirst (side : Side) (wins : Before α) : Merging α → Except Fault (Merging α × Nat)
  | .underway xs (y :: ys) taken => do
    let n ← leading side (fun x => do return !(← wins y x)) xs
    match afterFirst (xs.drop n) (y :: ys) (taken ++ (xs.take n).toArray) with
    | .underway xs (y :: ys) taken => return (afterSecond xs ys (taken.push y), n)
    | m => return (m, n)
  | m => return (m, 0)

/-- The stretch of the second run that comes before the next item of the first, and then that
    item. -/
def strideSecond (side : Side) (wins : Before α) : Merging α → Except Fault (Merging α × Nat)
  | .underway (x :: xs) ys taken => do
    let n ← leading side (fun y => wins y x) ys
    match afterSecond (x :: xs) (ys.drop n) (taken ++ (ys.take n).toArray) with
    | .underway (x :: xs) ys taken => return (afterFirst xs ys (taken.push x), n)
    | m => return (m, n)
  | m => return (m, 0)

/-- Two stretches, one of each run; the run that the merge starts at leads.  With the merge comes
    whether one of them was long enough to go on so. -/
def strides (side : Side) (wins : Before α) (m : Merging α) : Except Fault (Merging α × Bool) := do
  match side with
  | .front =>
    let (m, a) ← strideFirst side wins m
    let (m, b) ← strideSecond side wins m
    return (m, 7 ≤ a || 7 ≤ b)
  | .back =>
    let (m, a) ← strideSecond side wins m
    let (m, b) ← strideFirst side wins m
    return (m, 7 ≤ a || 7 ≤ b)

end Merging

/-- How a merge goes on: item by item, with the number of items that the last one's run has won in a
    row, or by stretches. -/
inductive Pace
  | steps (second : Bool) (wins : Nat)
  | strides

/-- Merges what is left of two runs.  With the items comes the patience for the next merge. -/
def mergeFrom (side : Side) (wins : Before α) :
    (fuel : Nat) → Pace → (patience : Nat) → Merging α → Except Fault (Array α × Nat)
  | 0, _, patience, m => return (m.all, patience)
  | _ + 1, _, patience, .finished all => return (all, patience)
  | fuel + 1, .steps second n, patience, m => do
    let (m, winner) ← m.step wins
    let n := if winner == second then n + 1 else 1
    mergeFrom side wins fuel (if patience ≤ n then .strides else .steps winner n) patience m
  | fuel + 1, .strides, patience, m => do
    let (m, goOn) ← m.strides side wins
    match m, goOn with
    | .finished all, _ => return (all, patience)
    | m, true => mergeFrom side wins fuel .strides (max 1 (patience - 1)) m
    | m, false => mergeFrom side wins fuel (.steps false 0) (patience + 1) m

/-- Two neighbouring runs merged, under some patience.  What is in its place already, at the
    beginning of the first or at the end of the second, is left there; the rest is merged from the
    outer end of the longer run. -/
def merge (before : Before α) (patience : Nat) (a b : Array α) : Except Fault (Array α × Nat) :=
  match b[0]?, a.back? with
  | some first, some last => do
    let k ← gallop (fun i => (a[i]?).elim (.ok true) (before first)) a.size 0
    let a' := a.extract k a.size
    if a'.isEmpty then return (a ++ b, patience)
    let n ← gallop (fun i => (b[i]?).elim (.ok true) fun y => do return !(← before y last))
        b.size (b.size - 1)
    let b' := b.extract 0 n
    if b'.isEmpty then return (a ++ b, patience)
    let fuel := a.size + b.size
    let (middle, patience) ←
      if a'.size ≤ b'.size then
        mergeFrom .front before fuel (.steps false 0) patience (.start a'.toList b'.toList)
      else do
        let (all, patience) ← mergeFrom .back (fun y x => before x y) fuel (.steps false 0) patience
          (.start b'.toList.reverse a'.toList.reverse)
        pure (all.reverse, patience)
    return (a.extract 0 k ++ middle ++ b.extract n b.size, patience)
  | _, _ => return (a ++ b, patience)

end Sorting

end Itemwise
