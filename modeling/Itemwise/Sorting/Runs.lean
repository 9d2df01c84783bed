import Itemwise.Sorting.Merge

namespace Itemwise

/-!
# Sorting by merging runs

Items are cut into runs, short runs are filled up by insertion, and the runs are merged as they
come: which ones, depends on where they lie in the whole.

* `Sorting.leastRun` — how long a run has to be;
* `Sorting.depth` — how deep the border between two runs lies when the whole is halved again and
  again;
* `Sorting.Pending` — the runs so far, each with the depth of the border behind it;
* `Sorting.byMerging` — the items in ascending order.
-/

namespace Sorting

variable {α : Type}

/-- How long a run has to be: the length of the whole if it is short, or else what its first six
    bits stand for, one more if any of the others is set. -/
def leastRun (n : Nat) (more : Bool := false) : Nat :=
  if n < 64 then n + more.toNat else leastRun (n / 2) (more || n % 2 == 1)

/-- How often `n` has to be halved until the points `a / 2` and `b / 2` lie in different parts. -/
def depthFrom : (fuel n a b : Nat) → Nat
  | 0, _, _, _ => 0
  | fuel + 1, n, a, b =>
    if n ≤ a then 1 + depthFrom fuel n (2 * (a - n)) (2 * (b - n))
    else if n ≤ b then 1
    else 1 + depthFrom fuel n (2 * a) (2 * b)

/-- The depth of the border between the runs of `m` and of `k` items from `start` on, in `n`
    items. -/
def depth (n start m k : Nat) : Nat :=
  depthFrom (n.log2 + 2) n (2 * start + m) (2 * start + 2 * m + k)

/-- The runs that are not yet merged, the last first, each with the depth of the border behind it,
    and the patience of the merges. -/
structure Pending (α : Type) where
  runs : List (Array α × Nat) := []
  patience : Nat := 7

namespace Pending

variable (before : Before α)

/-- Merges the last two runs for as long as the border between them lies deeper than the next
    one. -/
def collapse (next : Nat) :
    (runs : List (Array α × Nat)) → (patience : Nat) → Except Fault (Pending α)
  | b :: a :: runs, patience =>
    if next < a.2 then do
      let (merged, patience) ← merge before patience a.1 b.1
      collapse next ((merged, a.2) :: runs) patience
    else
      return ⟨b :: a :: runs, patience⟩
  | runs, patience => return ⟨runs, patience⟩
termination_by runs => runs.length

/-- A further run, in `n` items. -/
def push (n : Nat) (p : Pending α) (run : Array α) : Except Fault (Pending α) := do
  match p.runs with
  | [] => return { p with runs := [(run, 0)] }
  | last :: runs =>
    let start := runs.foldl (fun n r => n + r.1.size) 0
    let next := depth n start last.1.size run.size
    let q ← collapse before next p.runs p.patience
    match q.runs with
    | last :: runs => return { q with runs := (run, 0) :: (last.1, next) :: runs }
    | [] => return { q with runs := [(run, 0)] }

/-- The runs merged to the end: the last two, or the two before the last if the first of them is the
    shorter one. -/
def finish : (runs : List (Array α)) → (patience : Nat) → Except Fault (Array α)
  | [], _ => return #[]
  | [a], _ => return a
  | [b, a], patience => do return (← merge before patience a b).1
  | c :: b :: a :: runs, patience =>
    if a.size < c.size then do
      let (merged, patience) ← merge before patience a b
      finish (c :: merged :: runs) patience
    else do
      let (merged, patience) ← merge before patience b c
      finish (merged :: a :: runs) patience
termination_by runs => runs.length

end Pending

/-- The items from `start` on cut into runs of some length at least, behind the runs so far. -/
def runsFrom (before : Before α) (items : Array α) (least : Nat) :
    (fuel : Nat) → (start : Nat) → Pending α → Except Fault (Pending α)
  | 0, _, p => return p
  | fuel + 1, start, p => do
    let rest := items.extract start items.size
    if rest.isEmpty then return p
    let run ← firstRun before rest
    let run ← insertAll before run (rest.extract run.size least)
    runsFrom before items least fuel (start + run.size) (← p.push before items.size run)

/-- The items in ascending order. -/
def byMerging (before : Before α) (items : Array α) : Except Fault (Array α) := do
  let p ← runsFrom before items (leastRun items.size) items.size 0 {}
  Pending.finish before (p.runs.map Prod.fst) p.patience

end Sorting

end Itemwise
