import Itemwise.Decimal.Integer
import Itemwise.Function.Predicate
import Itemwise.Store.Change

namespace Itemwise

/-!
# Named functions

A grammar that is given as data names the functions it uses.

* `BinaryOp.apply` — the functions of two values, with `Value.call` applying one that is a value;
* `Mapping`, `Mapping.apply` — the functions of one value;
* `Joining`, `Joining.join` — the functions of any number of values.

A container that one value alone holds is a part of it.  A function that changes a container, or
whose result holds an argument twice, has it kept first, so that it stays one container.
-/

namespace Value

/-- The sum of some values, from zero. -/
def sum (vs : List Value) : Except Fault Value := vs.foldlM add (.int 0)

/-- A float cut off at its point. -/
def truncate (x : Float) : Except Fault Value :=
  match Binary64.ofFloat x with
  | .finite negative m q =>
    .ok (.int (Binary64.signed negative (m * Nat.pow 2 q.toNat / Nat.pow 2 (-q).toNat)))
  | .infinite _ => .error .tooLarge
  | .notNumber => .error .badValue

/-- A value as an integer. -/
def toInt : Value → Except Fault Value
  | .bool b => .ok (.int (if b then 1 else 0))
  | .int n => .ok (.int n)
  | .float x => truncate x.number
  | .text cs => (Fault.attempt .badValue (Decimal.ofText? cs)).map .int
  | .octets .backwardView _ => .error .wrongKind
  | .octets _ bs => (Fault.attempt .badValue (Decimal.ofAscii? (Latin1.decode bs))).map .int
  | _ => .error .wrongKind

end Value

namespace BinaryOp

/-- All functions of two values, with their names. -/
def all : List (String × BinaryOp) :=
  [("add", .add), ("sub", .sub), ("mul", .mul), ("first", .first), ("second", .second),
    ("pair", .pair), ("max", .max), ("count", .count), ("append", .append), ("cons", .cons),
    ("digits", .digits)]

/-- The function of a name. -/
def ofLabel? (s : String) : Option BinaryOp := (all.find? fun e => e.1 == s).map Prod.snd

/-- The name of a function. -/
def label (f : BinaryOp) : String := ((all.find? fun e => e.2 == f).map Prod.fst).getD ""

/-- What a computation makes of the containers that two values share. -/
def onSurfaces (f : Value → Value → Except Fault Value) (a b : Value) : Action Store Value := do
  Store.anew (← f (← Store.surfaceOf a) (← Store.surfaceOf b))

/-- The greater of two values, the first one unless the second exceeds it. -/
def greater (a b : Value) : Action Store Value := do
  let v ← Store.wholeOf b
  let w ← Store.wholeOf a
  Value.checkCompared v w
  return if ← Value.test .gt v w then b else a

/-- What a function makes of two values. -/
def apply (f : BinaryOp) (a b : Value) : Action Store Value := do
  match f with
  | .add => onSurfaces Value.add a b
  | .sub => onSurfaces Value.sub a b
  | .mul => onSurfaces Value.mul (← Store.kept a) (← Store.kept b)
  | .first => return a
  | .second => return b
  | .pair => return .tuple [a, b]
  | .max => greater a b
  | .count => onSurfaces Value.add a (.int 1)
  | .append => do
    let a ← Store.kept a
    Store.append a (← Store.kept b)
    return a
  | .cons => return .list (b :: (← (← Store.surfaceOf a).elements))
  | .digits =>
    onSurfaces (fun a b => do ((← (← a.mul (.int 10)).add (.int b.code))).sub (.int 48)) a b

end BinaryOp

namespace Value

/-- What a value makes of two others, if it is a function. -/
def call (f a b : Value) : Action Store Value :=
  match f with
  | .operator op _ => op.apply a b
  | _ => throw .wrongKind

end Value

/-- A named function of one value. -/
inductive Mapping
  | identity
  | len
  | neg
  | inc
  | double
  | first
  | last
  | swap
  | wrap
  | pair
  | toList
  | toTuple
  | sum
  | reverse
  | toInt
  | none
  | code
  | isNone
  /-- What an action makes each time. -/
  | const (make : Action Store Value)
  | operator (f : BinaryOp)
  | ifElse (t : TestExpr) (yes : Mapping) (no : Mapping)
  | compose (fs : List Mapping)

namespace Mapping

/-- The functions that are named by a word alone, with their names. -/
def words : List (String × Mapping) :=
  [("identity", .identity), ("len", .len), ("neg", .neg), ("inc", .inc), ("double", .double),
    ("first", .first), ("last", .last), ("swap", .swap), ("wrap", .wrap), ("pair", .pair),
    ("list", .toList), ("tuple", .toTuple), ("sum", .sum), ("reverse", .reverse),
    ("to_int", .toInt), ("none", .none), ("code", .code), ("is_none", .isNone)]

/-- The function of a name. -/
def ofLabel? (s : String) : Option Mapping := (words.find? fun e => e.1 == s).map Prod.snd

/-- What a computation makes of the container that a value shares. -/
def onSurface (f : Value → Except Fault Value) (v : Value) : Action Store Value := do
  Store.anew (← f (← Store.surfaceOf v))

mutual

/-- What a function makes of a value. -/
def apply : Mapping → Value → Action Store Value
  | .identity, v => return v
  | .len, v => return .int (← Store.length v)
  | .neg, v => onSurface Value.neg v
  | .inc, v => onSurface (·.add (.int 1)) v
  | .double, v => do onSurface (·.mul (.int 2)) (← Store.kept v)
  | .first, v => Store.item v 0
  | .last, v => Store.item v (-1)
  | .swap, v => do
    let b ← Store.item v 1
    let a ← Store.item v 0
    return .tuple [b, a]
  | .wrap, v => return .list [v]
  | .pair, v => do
    let v ← Store.kept v
    return .tuple [v, v]
  | .toList, v => onSurface (fun v => v.elements.map .list) v
  | .toTuple, v => onSurface (fun v => v.elements.map .tuple) v
  | .sum, v => onSurface (fun v => do Value.sum (← v.elements)) v
  | .reverse, v => onSurface Value.backwards v
  | .toInt, v => onSurface Value.toInt v
  | .none, _ => return .null
  | .code, v => return .int v.code
  | .isNone, v => return .bool (v.eqv .null)
  | .const make, _ => make
  | .operator f, _ => Store.made f
  | .ifElse t yes no, v => do
    if ← t.holds (← Store.wholeOf v) then apply yes v else apply no v
  | .compose fs, v => applyAll fs v

/-- What functions make of a value one after the other. -/
def applyAll : List Mapping → Value → Action Store Value
  | [], v => return v
  | f :: fs, v => do
    let w ← apply f v
    applyAll fs w

end

end Mapping

/-- A named function of any number of values. -/
inductive Joining
  | tuple
  | list
  | sum
  | count
  | arg (i : Int)
  | apply (f : BinaryOp) (i j : Int)

namespace Joining

/-- The functions of any number of values that are named by a word alone, with their names. -/
def words : List (String × Joining) :=
  [("tuple", .tuple), ("list", .list), ("sum", .sum), ("count", .count)]

/-- The function of a name. -/
def ofLabel? (s : String) : Option Joining := (words.find? fun e => e.1 == s).map Prod.snd

/-- What a function makes of some values. -/
def join (f : Joining) (vs : List Value) : Action Store Value := do
  match f with
  | .tuple => return .tuple vs
  | .list => return .list vs
  | .sum => Store.anew (← Value.sum vs)
  | .count => return .int vs.length
  | .arg i => (Value.tuple vs).item i
  | .apply f i j => do
    let a ← (Value.tuple vs).item i
    let b ← (Value.tuple vs).item j
    if Slice.index? vs.length i = Slice.index? vs.length j then
      let a ← Store.kept a
      f.apply a a
    else
      f.apply a b

end Joining

end Itemwise
