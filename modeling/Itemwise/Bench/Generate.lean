import Itemwise.Decimal.Fixed
import Itemwise.Fault
import Itemwise.Value.Display

namespace Itemwise.Bench

/-!
# Generated inputs

The inputs of the benchmarks are made from a **source** of numbers.

* `Source` — the numbers still to be drawn, with `Source.cyclic` repeating a list and
  `Source.scrambled` following a seed;
* `drawnFrom`, `drawnFromList` — what a computation draws from a source, or from a list;
* `pick`, `between`, `real` — a member of a list, an integer and a float, drawn from a source;
* `lines`, `buffer`, `document` — a configuration file, a byte sequence and a JSON document.
-/

/-- An unending sequence of numbers, and how many were drawn. -/
structure Source where
  number : Nat → Int
  /-- The float between two bounds that a number stands for. -/
  uniform : (low high n : Int) → Float
  drawn : Nat := 0

namespace Source

/-- The numbers of a list, over and over; zeros if it is empty.  The floats are integers with a
    half. -/
def cyclic (picks : List Int) : Source :=
  let a := picks.toArray
  { number i := (a[i % a.size]?).getD 0
    uniform low high n := Float.ofInt (low + n % (high - low)) + 0.5 }

/-- Numbers of 48 bits that a seed determines, without an evident order.  A number is the share of
    the way between the bounds. -/
def scrambled (seed : Nat) : Source where
  number i :=
    let x := (seed.toUInt64 + i.toUInt64 + 1) * 0x9e3779b97f4a7c15
    let x := (x ^^^ (x >>> 30)) * 0xbf58476d1ce4e5b9
    let x := (x ^^^ (x >>> 27)) * 0x94d049bb133111eb
    ((x ^^^ (x >>> 31)) >>> 16).toNat
  uniform low high n :=
    Float.ofInt low + Float.ofInt (high - low) * (Float.ofInt n / Float.ofNat (Nat.pow 2 48))

end Source

/-- What is drawn from a source. -/
def drawnFrom {α : Type} (source : Source) (action : StateM Source α) : α :=
  (Id.run (StateT.run action source)).1

/-- What is drawn from the numbers of a list, over and over, by a computation that makes `count`
    things; where there is something to make, there have to be numbers. -/
def drawnFromList {α : Type} (picks : List Int) (count : Nat) (action : StateM Source α) :
    Except Fault α :=
  if picks.isEmpty ∧ count ≠ 0 then .error .divisionByZero
  else .ok (drawnFrom (.cyclic picks) action)

/-- The next number of the source. -/
def draw : StateM Source Int := do
  let s ← get
  set { s with drawn := s.drawn + 1 }
  return s.number s.drawn

/-- A position in a list of `size` members. -/
def pick (size : Nat) : StateM Source Nat := do return ((← draw) % size).toNat

/-- An integer from `low` to `high`. -/
def between (low high : Int) : StateM Source Int := do return low + (← draw) % (high - low + 1)

/-- A float between `low` and `high`, as the source makes them. -/
def real (low high : Int) : StateM Source Float := do
  let n ← draw
  return (← get).uniform low high n

/-- Draws for `count` numbers from `i` on, in order, after what is already drawn, which is kept in
    reverse. -/
def forEachFrom {α : Type} (f : Nat → StateM Source α) :
    (count i : Nat) → (drawn : List α) → StateM Source (List α)
  | 0, _, drawn => return drawn.reverse
  | count + 1, i, drawn => do forEachFrom f count (i + 1) ((← f i) :: drawn)

/-- Draws for the numbers below `count`, in order. -/
def forEach {α : Type} (f : Nat → StateM Source α) (count : Nat) : StateM Source (List α) :=
  forEachFrom f count 0 []

/-! ### Configuration files -/

/-- The line with the number `i` in each of the seven shapes. -/
def lineShape (i : Nat) : Nat → List Char
  | 0 => "Com:action".toList ++ Decimal.ofNat i ++ "=run --job ".toList ++ Decimal.ofNat i
      ++ " --verbose".toList
  | 1 => "Info:info".toList ++ Decimal.ofNat i ++ "=cat /var/log/service".toList ++ Decimal.ofNat i
      ++ ".log".toList
  | 2 => "Separator".toList
  | 3 => "Space".toList
  | 4 => "# comment ".toList ++ Decimal.ofNat i
  | 5 => []
  | _ => "garbage line ".toList ++ Decimal.ofNat i

/-- The lines of a configuration file. -/
def lines (count : Nat) : StateM Source (List (List Char)) :=
  forEach (fun i => do return lineShape i (← pick 7)) count

/-! ### Byte sequences -/

/-- The printable ASCII bytes other than `needle`. -/
def alphabet (needle : Int) : Array UInt8 :=
  (((List.range 0x7f).drop 0x20).filter fun (b : Nat) => (b : Int) != needle).map
    Nat.toUInt8 |>.toArray

/-- A number of members of an array, after those already drawn, which are kept in reverse. -/
def drawBytes (a : Array UInt8) : Nat → List UInt8 → StateM Source (List UInt8)
  | 0, drawn => return drawn.reverse
  | n + 1, drawn => do drawBytes a n ((a[(← pick a.size)]?).getD 0 :: drawn)

/-- Printable bytes other than `needle`, with `needle` at the end. -/
def buffer (size : Nat) (needle : Int) : StateM Source (Except Fault (List UInt8)) := do
  let bytes ← drawBytes (alphabet needle) size []
  if 0 ≤ needle ∧ needle ≤ 0xff then return .ok (bytes ++ [needle.toNat.toUInt8])
  else return .error .badValue

/-! ### JSON documents -/

/-- What is drawn for one member of a document. -/
structure Draw where
  integer : Int
  number : Float
  numbers : List Int
  shape : Nat

/-- The value of the member with the number `i`, in the shape that was drawn. -/
def memberValue (i : Nat) (d : Draw) : List Char :=
  match d.shape with
  | 0 => Decimal.ofInt d.integer
  | 1 => Fixed.ofFloat 6 d.number
  | 2 => "\"text ".toList ++ Decimal.ofNat i ++ " with \\\"escapes\\\" \\u00e9\"".toList
  | 3 => "true".toList
  | 4 => "null".toList
  | 5 => '[' :: joinText [',', ' '] (d.numbers.map Decimal.ofInt) ++ [']']
  | _ => "\x7b\"nested\": \x7b\"id\": ".toList ++ Decimal.ofNat i
      ++ ", \"tags\": [\"a\", \"b\"]\x7d\x7d".toList

/-- The member with the number `i`: its key and its value. -/
def member (i : Nat) (d : Draw) : List Char :=
  "  \"key".toList ++ Decimal.ofNat i ++ "\": ".toList ++ memberValue i d

/-- The object of some members, one a line. -/
def object (ds : List Draw) : List Char :=
  '\x7b' :: '\n' :: joinText [',', '\n'] (ds.zipIdx.map fun d => member d.2 d.1) ++ ['\n', '\x7d']

/-- What is drawn for one member: an integer, a number, eight small numbers, and the shape. -/
def drawMember : StateM Source Draw := do
  let integer ← between (-10000) 10000
  let number ← real (-1000000) 1000000
  let numbers ← forEach (fun _ => between 0 99) 8
  let shape ← pick 7
  return ⟨integer, number, numbers, shape⟩

/-- A JSON document of the given number of members. -/
def document (entries : Nat) : StateM Source (List Char) := do
  return object (← forEach (fun _ => drawMember) entries)

end Itemwise.Bench
