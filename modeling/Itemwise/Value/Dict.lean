import Itemwise.Fault
import Itemwise.Sorting.Runs
import Itemwise.Value.Arithmetic
import Itemwise.Value.Hashing
import Itemwise.Value.Sequence

namespace Itemwise

/-!
# Dictionaries

A dictionary is a list of entries without two keys that are the same, in the order in which the keys
first came.

* `Dict.insert` — a key with its value: the same key keeps its place and takes the new value;
* `Dict.push` — the same for a value that is a pair;
* `Dict.sorted` — the entries in ascending order.
-/

/-- The entries of a dictionary, in insertion order. -/
abbrev Dict := List (Value × Value)

namespace Dict

/-- The entries with the value of `k` set to `v`. -/
def insert (k v : Value) : Dict → Dict
  | [] => [(k, v)]
  | e :: es => if e.1.same k then (e.1, v) :: es else e :: insert k v es

/-- The two items of a value that holds exactly two. -/
def pair (x : Value) : Except Fault (Value × Value) := do
  match ← x.elements with
  | [k, v] => pure (k, v)
  | _ => throw .badValue

/-- The entries with a further pair; its first item has to be fit as a key. -/
def push (d : Dict) (x : Value) : Except Fault Dict := do
  let (k, v) ← pair x
  if k.isKey then pure (d.insert k v) else throw .wrongKind

/-- An entry as a pair. -/
def entry (e : Value × Value) : Value := .tuple [e.1, e.2]

/-- Whether an entry comes before another. -/
def precedes (e f : Value × Value) : Except Fault Bool := Value.test .lt (entry e) (entry f)

/-- The entries in ascending order of the pairs they are.  An order in which each entry precedes the
    next is the only one there is; keys that have none, as they do not all compare with each other,
    end up as a merge of runs leaves them. -/
def sorted (d : Dict) : Except Fault Dict := do
  let inserted := (Sorting.byInsertion precedes d.toArray).map Array.toList
  match inserted >>= Sorting.isAscending precedes, inserted with
  | .ok true, .ok es => return es
  | _, _ => return (← Sorting.byMerging precedes d.toArray).toList

end Dict

end Itemwise
