import Itemwise.Function.Mapping
import Itemwise.Session

namespace Itemwise

/-!
# Named functions of the user state

A grammar that is given as data keeps a list, or any other value, as its user state.

* `StateFn` — the functions of the user state and a value;
* `StateFn.apply` — what they do;
* `StateFn.run` — the same in a session.
-/

/-- A named function of the user state and a value. -/
inductive StateFn
  | append
  | appendLen
  | count
  | add
  | spend
  | pop
  | get
  | isLast
deriving DecidableEq, Repr

namespace StateFn

/-- All functions of the user state, with their names. -/
def all : List (String × StateFn) :=
  [("append", .append), ("append_len", .appendLen), ("count", .count), ("add", .add),
    ("spend", .spend), ("pop", .pop), ("get", .get), ("is_last", .isLast)]

/-- The function of a name. -/
def ofLabel? (s : String) : Option StateFn := (all.find? fun e => e.1 == s).map Prod.snd

/-- Puts what a computation makes of the first item of the user state in its place, and yields what
    is then the first item; the user state has to have places for items. -/
def replaceFirst (f : Value → Except Fault Value) (state : Value) : Action Store Value := do
  Store.checkPlaces state
  let next ← Store.anew (← f (← Store.surfaceOf (← Store.item state 0)))
  Store.setFirst state (← Store.kept next)
  Store.item state 0

/-- What is left of the first item of the user state after one was spent, unless nothing was
    left. -/
def spendFirst (state : Value) : Action Store Value := do
  let left ← Store.item state 0
  if ← Value.test .le (← Store.wholeOf left) (.int 0) then return .null
  Store.setFirst state (← Store.anew (← left.sub (.int 1)))
  return .bool true

/-- Whether the last item of the user state is equal to a value; nothing if it is not. -/
def matchLast (state v : Value) : Action Store Value := do
  if ← Store.isTrue state then
    let last ← Store.wholeOf (← Store.item state (-1))
    let v ← Store.wholeOf v
    Value.checkCompared last v
    if last.eqv v then return .bool true
  return .null

/-- What a function does to the user state and makes of a value. -/
def apply (f : StateFn) (state v : Value) : Action Store Value := do
  match f with
  | .append => do
    Store.append state (← Store.kept v)
    return .null
  | .appendLen => do
    Store.append state (← Store.kept v)
    return .int (← Store.length state)
  | .count => replaceFirst (·.add (.int 1)) state
  | .add => do
    let v ← Store.surfaceOf (← Store.kept v)
    replaceFirst (·.add v) state
  | .spend => spendFirst state
  | .pop => Store.pop state
  | .get => return .list (← (← Store.surfaceOf state).elements)
  | .isLast => matchLast state v

/-- What a function does in a session. -/
def run (f : StateFn) (v : Value) : Action Session Value :=
  Session.onState fun state => f.apply state v

end StateFn

/-- Appends a line item to a user state that is a list. -/
def storeLine (l : LineItem) : Action Session Unit :=
  Session.onState fun state => Store.append state (.line l)

end Itemwise
