import Itemwise.Memory
import Itemwise.Step.Basic
import Itemwise.Value.Dict

namespace Itemwise

/-!
# Stores

A container that can change may be held by several values at once; each of them shows every change.
Such a container is kept in a **store**, and the values hold its place.

* `Container` — what can be kept;
* `Store` — the containers kept, by their places;
* `Store.surface` — the container that a value shares, as a value whose items are as they are;
* `Store.whole` — a value with everything that it shares put in;
* `Store.keep` — a value whose containers are all kept;
* `Store.made`, `Store.anew` — a function or a float as an object that differs from all made before;
* `Store.whole_of_isPlain`, `Store.surface_of_isPlain` — plain values are what they are.

A container that one value alone holds may be a part of it; it is kept before a second value comes
to hold it, and what a kept container holds is kept too.  A container may come to hold itself.
Where it does, `Store.whole` stops and leaves the place.
-/

/-- A container that can change. -/
inductive Container
  | list (xs : Array Value)
  | octets (bytes : Array UInt8)
  | dict (entries : Dict)
  | array (capacity : Nat) (xs : Array Value)

namespace Container

/-- The container as a value. -/
def toValue : Container → Value
  | .list xs => .list xs.toList
  | .octets bs => .octets .growable bs.toList
  | .dict es => .dict es
  | .array capacity xs => .array capacity xs.toList

/-- How many items a container holds. -/
def size : Container → Nat
  | .list xs | .array _ xs => xs.size
  | .octets bs => bs.size
  | .dict es => es.length

end Container

/-- The containers that values share, and how many other objects have been made that are told
    apart. -/
structure Store where
  containers : Array Container := #[]
  objects : Nat := 0

namespace Store

/-- The value, or the container that it shares as a value. -/
def surface (s : Store) : Value → Value
  | .shared p => (s.containers[p]?).elim (.shared p) Container.toValue
  | v => v

/-- The container at a place with everything that it shares put in; `path` holds the places of the
    containers around it, which are left as they are, and `fuel` bounds how many those may be. -/
def wholeAt (s : Store) : (fuel : Nat) → (path : List Nat) → (place : Nat) → Value
  | 0, _, p => .shared p
  | fuel + 1, path, p =>
    if path.contains p then .shared p
    else (s.containers[p]?).elim (.shared p) fun c => c.toValue.fill (wholeAt s fuel (p :: path))

/-- The value with everything that it shares put in. -/
def whole (s : Store) (v : Value) : Value := v.fill (s.wholeAt s.containers.size [])

/-- A further container, with its place. -/
def allocate (s : Store) (c : Container) : Value × Store :=
  (.shared s.containers.size, { s with containers := s.containers.push c })

mutual

/-- The value with all its containers that can change kept. -/
def keep (s : Store) : Value → Value × Store
  | .list xs =>
    let (ys, s) := keepAll s xs #[]
    s.allocate (.list ys)
  | .array capacity xs =>
    let (ys, s) := keepAll s xs #[]
    s.allocate (.array capacity ys)
  | .dict es =>
    let (fs, s) := keepEntries s es #[]
    s.allocate (.dict fs.toList)
  | .octets .growable bs => s.allocate (.octets bs.toArray)
  | .tuple xs =>
    let (ys, s) := keepAll s xs #[]
    (.tuple ys.toList, s)
  | v => (v, s)

/-- The values of a list with their containers kept, behind those already done. -/
def keepAll (s : Store) : List Value → (done : Array Value) → Array Value × Store
  | [], done => (done, s)
  | x :: xs, done =>
    let (y, s) := keep s x
    keepAll s xs (done.push y)

/-- The entries of a dictionary with the containers of their values kept, behind those already done;
    keys hold none. -/
def keepEntries (s : Store) :
    List (Value × Value) → (done : Array (Value × Value)) → Array (Value × Value) × Store
  | [], done => (done, s)
  | (k, v) :: es, done =>
    let (w, s) := keep s v
    keepEntries s es (done.push (k, w))

end

/-- A plain value holds nothing that the store could show. -/
theorem surface_of_isPlain (s : Store) (v : Value) (h : v.isPlain = true) : s.surface v = v := by
  cases v with
  | shared p => simp [Value.isPlain] at h
  | _ => rfl

/-- A plain value is already whole. -/
theorem whole_of_isPlain (s : Store) (v : Value) (h : v.isPlain = true) : s.whole v = v :=
  Value.fill_of_isPlain _ v h

/-! ### Actions on a store -/

/-- The container that a value shares, as a value. -/
def surfaceOf (v : Value) : Action Store Value := fun s => .ok (s.surface v) s

/-- The value with everything that it shares put in. -/
def wholeOf (v : Value) : Action Store Value := fun s => .ok (s.whole v) s

/-- The value with its containers kept. -/
def kept (v : Value) : Action Store Value := fun s =>
  let (w, s) := s.keep v
  .ok w s

/-- A function as a value, made now. -/
def made (f : BinaryOp) : Action Store Value := fun s =>
  .ok (.operator f s.objects) { s with objects := s.objects + 1 }

/-- A value that was computed now: a float is an object that was not there before. -/
def anew : Value → Action Store Value
  | .float x => fun s => .ok (.float ⟨x.number, s.objects⟩) { s with objects := s.objects + 1 }
  | v => return v

end Store

end Itemwise
