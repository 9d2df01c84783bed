import Itemwise.Scan.Run
import Itemwise.Step.Basic
import Itemwise.Value.Forms

namespace Itemwise

/-!
# Parsers of stretches of items

* `Leaf.literal` — an exact run of items, in any of its forms;
* `Leaf.itemWhile` — the longest run of items that a test accepts;
* `Leaf.upTo` — everything before the first place where a needle is found, and the needle;
* `Leaf.rest`, `Leaf.empty` — everything that is left, or nothing at the end of the input.

The value of each is the stretch itself, except that the needle is left out.  Where items are
examined, `look` gives them as they are in the user state.
-/

namespace Leaf

/-- Consumes an exact run of items. -/
def literal (expected : Value) (look : Value → Value) : Leaf := fun c => do
  let size ← expected.length
  let forms ← expected.variants
  let chunk ← c.sliceTo (c.pos + size)
  if chunk.length? = some size ∧ (look chunk).isMember forms then
    accept c chunk (c.pos + size)
  else
    reject c

/-- The first position from `pos` on whose item a test does not accept, looking at `left` items at
    most. -/
def scanWhile (items : Input) (test : Value → Except Fault Bool) :
    (left pos : Nat) → Except Fault Nat
  | 0, pos => .ok pos
  | left + 1, pos => do
    match ← items.item? pos with
    | none => return pos
    | some v => if ← test v then scanWhile items test left (pos + 1) else return pos

/-- Consumes items as long as a test accepts them; always succeeds. -/
def itemWhile (test : Value → Except Fault Bool) (look : Value → Value) : Leaf := fun c => do
  let stop ← scanWhile c.items (fun v => test (look v)) c.remaining c.pos
  accept c (← c.sliceTo stop) stop

/-- Consumes everything that is left; always succeeds. -/
def rest : Leaf := fun c => do accept c (← c.sliceTo c.items.size) c.items.size

/-- Succeeds with the empty stretch at the end of the input only. -/
def empty : Leaf := fun c => do
  if c.items.size ≤ c.pos then return .success (← c.sliceTo c.items.size) c.pos else reject c

/-! ### Looking for a needle -/

/-- Where a run of keys first occurs in an array at or after `start`, and its width. -/
def findRun {α : Type} (key : α → Nat) (xs : Array α) (run : List Nat) (start : Nat) :
    Option (Nat × Nat) :=
  let run := run.toArray
  (Run.findArray? key xs run start).map fun i => (i, run.size)

/-- The character codes that a needle means in a text: those of a text, the bytes of a sequence, or
    a single code. -/
def textNeedle : Value → Except Fault (List Nat)
  | .text cs => .ok (cs.map Char.toNat)
  | .octets k bs => if k.isView then .error .wrongKind else .ok (bs.map UInt8.toNat)
  | v =>
    match v.toInt? with
    | some n =>
      if 0 ≤ n ∧ n ≤ 0x10ffff then .ok [n.toNat]
      else if -0x80000000 ≤ n ∧ n < 0x80000000 then .error .badValue
      else .error .tooLarge
    | none => .error .wrongKind

/-- The bytes that a needle means in a byte sequence: those of a sequence, the one-byte characters
    of a text, or a single byte. -/
def octetNeedle : Value → Except Fault (List Nat)
  | .text cs => (Fault.attempt .notOneByte (Latin1.encode? cs)).map fun bs => bs.map UInt8.toNat
  | .octets _ bs => .ok (bs.map UInt8.toNat)
  | v =>
    match v.toInt? with
    | some n => if 0 ≤ n ∧ n ≤ 0xff then .ok [n.toNat] else .error .badValue
    | none => .error .wrongKind

/-- The items of a needle that is a run of items in a sequence of arbitrary values: a list, a tuple,
    or a text or byte sequence that is not a single item. -/
def runNeedle? : Value → Option (List Value)
  | .list xs | .tuple xs => some xs
  | .text cs => if cs.length = 1 then none else some (cs.map Value.ofChar)
  | .octets .fixed bs => if bs.length = 1 then none else some (bs.map Value.ofByte)
  | _ => none

/-- Where a needle first occurs in a sequence of arbitrary values at or after `start`, and its
    width. -/
def findItems (items : Items) (needle : Value) (start : Nat) (look : Value → Value) :
    Option (Nat × Nat) :=
  match runNeedle? needle with
  | some run =>
    let run := run.toArray
    let fits (j i : Nat) : Bool := match run[j]?, items.get? i with
      | some v, some x => v.same (look x)
      | _, _ => false
    (Run.find? fits run.size (items.size + 1 - run.size - start) start).map fun i => (i, run.size)
  | none =>
    let forms := needle.equivalents
    let here (i : Nat) : Bool := (items.get? i).any fun v => (look v).isMember forms
    (Run.firstWhere here (items.size - start) start).map fun i => (i, 1)

/-- Where a needle first occurs in a sequence at or after `start`, and how many items it takes
    there. -/
def locateIn (items : Items) (needle : Value) (start : Nat) (look : Value → Value) :
    Except Fault (Option (Nat × Nat)) :=
  match items with
  | .text cs => (textNeedle needle).map fun run => findRun Char.toNat cs run start
  | .octets k bs =>
    if k.isView then .ok (findItems (.octets k bs) needle start look)
    else (octetNeedle needle).map fun run => findRun UInt8.toNat bs run start
  | items => .ok (findItems items needle start look)

/-- The same for an input; one that is no sequence is asked for its items one by one, and has no
    stretches to compare with a run of items. -/
def locate (items : Input) (needle : Value) (start : Nat) (look : Value → Value) :
    Except Fault (Option (Nat × Nat)) :=
  match items, runNeedle? needle with
  | .sequence xs, _ => locateIn xs needle start look
  | items, some run => if start + run.length ≤ items.size then .error .wrongKind else .ok none
  | items, none => do
    let forms := needle.equivalents
    let i ← scanWhile items (fun v => .ok !(look v).isMember forms) (items.size - start) start
    return if i < items.size then some (i, 1) else none

/-- Consumes everything up to and including the needle; yields what is before it. -/
def upTo (needle : Value) (look : Value → Value) : Leaf := fun c => do
  match ← locate c.items needle c.pos look with
  | some (i, width) => accept c (← c.sliceTo i) (i + width)
  | none => reject c

end Leaf

end Itemwise
