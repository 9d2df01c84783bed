import Itemwise.Store.Basic
import Itemwise.Value.Arithmetic
import Itemwise.Value.Truth

namespace Itemwise

/-!
# Changes of containers

* `Store.item`, `Store.length` — the item at an index and the number of items, for any value;
* `Store.append`, `Store.pop`, `Store.setFirst` — a container with an item more, an item less, or
  another first item;
* `Store.checkPlaces` — whether a value has places to put items in.

Each of them changes one container, and all values that share it show the change.  A change is
checked before it is made, so a change that is refused leaves the container as it was.
-/

namespace Value

/-- The byte that a number is. -/
def byte (v : Value) : Except Fault UInt8 := do
  let n ← Fault.attempt .wrongKind v.toInt?
  if 0 ≤ n ∧ n ≤ 0xff then return n.toNat.toUInt8
  throw .badValue

end Value

namespace Container

/-- The item at a possibly negative index; a dictionary is asked for the index as a key. -/
def item (c : Container) (i : Int) : Except Fault Value :=
  match c with
  | .list xs => Fault.attempt .badIndex ((Slice.index? xs.size i).bind (xs[·]?))
  | .array _ xs => Fault.attempt .arrayIndex ((Slice.index? xs.size i).bind (xs[·]?))
  | .octets bs =>
    (Fault.attempt .badIndex ((Slice.index? bs.size i).bind (bs[·]?))).map Value.ofByte
  | .dict es => Value.lookup es (.int i)

/-- Checks that a further item can be appended. -/
def checkAppend (c : Container) (v : Value) : Except Fault Unit :=
  match c with
  | .list _ => .ok ()
  | .octets _ => v.byte.map fun _ => ()
  | .array capacity xs => if xs.size < capacity then .ok () else .error .badIndex
  | .dict _ => .error .missingPart

/-- The container with a further item. -/
def push (c : Container) (v : Value) : Container :=
  match c with
  | .list xs => .list (xs.push v)
  | .array capacity xs => .array capacity (xs.push v)
  | .octets bs => .octets (bs.push (v.byte.toOption.getD 0))
  | .dict es => .dict es

/-- Checks that the last item can be taken off. -/
def checkPop (c : Container) : Except Fault Unit :=
  match c with
  | .list _ | .octets _ => .ok ()
  | .dict _ => .error .wrongKind
  | .array _ _ => .error .missingPart

/-- The container without its last item. -/
def dropLast : Container → Container
  | .list xs => .list xs.pop
  | .octets bs => .octets bs.pop
  | c => c

/-- Checks that an item can be put in the first place. -/
def checkFirst (c : Container) (v : Value) : Except Fault Unit :=
  match c with
  | .list xs => if xs.isEmpty then .error .badIndex else .ok ()
  | .octets bs => v.byte.bind fun _ => if bs.isEmpty then .error .badIndex else .ok ()
  | .dict _ => .ok ()
  | .array _ _ => .error .wrongKind

/-- The container with another item in the first place; a dictionary takes it under the key zero. -/
def setFirst (v : Value) : Container → Container
  | .list xs => .list (xs.setIfInBounds 0 v)
  | .octets bs => .octets (bs.setIfInBounds 0 (v.byte.toOption.getD 0))
  | .dict es => .dict (Dict.insert (.int 0) v es)
  | c => c

/-- Whether items can be put in the places of a container. -/
def hasPlaces : Container → Bool
  | .array _ _ => false
  | _ => true

end Container

namespace Store

/-- The container that a value shares. -/
def container? (s : Store) : Value → Option Container
  | .shared p => s.containers[p]?
  | _ => none

/-- Changes the container that a value shares, once a check of it has passed; a value that shares
    none is refused. -/
def change (v : Value) (refusal : Fault) (check : Container → Except Fault Unit)
    (f : Container → Container) : Action Store Unit := fun s =>
  match (s.container? v).elim (.error refusal) check with
  | .error fault => .error fault s
  | .ok _ =>
    match v with
    | .shared p => .ok () { s with containers := s.containers.modify p f }
    | _ => .ok () s

/-- How many items a value holds. -/
def length (v : Value) : Action Store Nat := fun s =>
  match (s.container? v).elim v.length (fun c => .ok c.size) with
  | .ok n => .ok n s
  | .error fault => .error fault s

/-- The item of a value at a possibly negative index. -/
def item (v : Value) (i : Int) : Action Store Value := fun s =>
  match (s.container? v).elim (v.item i) (·.item i) with
  | .ok x => .ok x s
  | .error fault => .error fault s

/-- Whether a value counts as true: a container does if it holds items. -/
def isTrue (v : Value) : Action Store Bool := fun s =>
  .ok ((s.container? v).elim v.isTrue fun c => c.size != 0) s

/-- Appends an item to the container that a value shares. -/
def append (a v : Value) : Action Store Unit := change a .missingPart (·.checkAppend v) (·.push v)

/-- Takes the last item off the container that a value shares, and yields it; what counts as false
    is left and yields nothing. -/
def pop (v : Value) : Action Store Value := do
  if ← isTrue v then
    change v .missingPart Container.checkPop id
    let last ← item v (-1)
    change v .missingPart Container.checkPop Container.dropLast
    return last
  else
    return .null

/-- Puts another item in the first place of the container that a value shares. -/
def setFirst (a v : Value) : Action Store Unit :=
  change a .wrongKind (·.checkFirst v) (·.setFirst v)

/-- Checks that a value has places to put items in, whether or not it lets any be put there: a view
    has places and is never changed. -/
def checkPlaces (v : Value) : Action Store Unit := do
  let refusal : Except Fault Unit := .error .missingPart
  Action.ofExcept <| match (← get).container? v, v with
    | some c, _ => if c.hasPlaces then .ok () else refusal
    | none, .octets .view _ | none, .octets .backwardView _ => .ok ()
    | none, _ => refusal

end Store

end Itemwise
