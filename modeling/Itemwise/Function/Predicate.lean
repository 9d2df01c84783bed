import Itemwise.Parser.Basic
import Itemwise.Scan.Run
import Itemwise.Value.Arithmetic
import Itemwise.Value.Sequence
import Itemwise.Value.Truth

namespace Itemwise

/-!
# Named tests

A grammar that is given as data names the tests it uses.

* `TestExpr` — the tests, of which `TestExpr.ofLabel?` finds those named by a word alone;
* `TestExpr.holds` — whether a value passes;
* `Value.code` — the number that classifies a value.
-/

namespace Value

/-- The number that classifies a value: a number itself, or the code of a single character or byte;
    `-1` for everything else. -/
def code : Value → Int
  | .bool b => if b then 1 else 0
  | .int n => n
  | .text [c] => c.toNat
  | .octets .fixed [b] => b.toNat
  | _ => -1

/-- Whether `part` occurs as a run in `whole`, by the keys of their items. -/
def hasRun {α : Type} (key : α → Nat) (part whole : List α) : Bool :=
  (Run.findArray? key whole.toArray (part.map key).toArray 0).isSome

/-- Whether `x` occurs in some bytes: as a run of bytes, or as one byte. -/
def occursInOctets (x : Value) (bs : List UInt8) : Except Fault Bool :=
  match x with
  | .octets .backwardView _ => .error .notInARow
  | .octets _ part => .ok (hasRun UInt8.toNat part bs)
  | x =>
    match x.toInt? with
    | some n =>
      if 0 ≤ n ∧ n ≤ 0xff then .ok (bs.any fun b => (b.toNat : Int) == n) else .error .badValue
    | none => .error .wrongKind

/-- Whether `x` occurs in `s`: as a part of a text or byte sequence, as an item, as a key, or as a
    member. -/
def occursIn (x s : Value) : Except Fault Bool :=
  match s, x with
  | .text cs, .text part => .ok (hasRun Char.toNat part cs)
  | .text _, _ => .error .wrongKind
  | .octets k bs, x => if k.isView then .ok (x.isMember (bs.map ofByte)) else occursInOctets x bs
  | .list xs, x | .tuple xs, x | .array _ xs, x => .ok (x.isMember xs)
  | .dict es, x => if x.isKey then .ok (x.isMember (es.map Prod.fst)) else .error .wrongKind
  | .set xs _, x => if x.isKey then .ok (x.isMember xs) else .error .wrongKind
  | _, _ => .error .wrongKind

end Value

/-- A named test of a value. -/
inductive TestExpr
  | any
  | never
  | truthy
  | digit
  | upper
  | lower
  | alpha
  | alnum
  | space
  | nonAscii
  | even
  | isNone
  | eq (v : Value)
  | ne (v : Value)
  | lt (v : Value)
  | gt (v : Value)
  | isIn (s : Value)
  | longerThan (n : Value)
  | not (t : TestExpr)

namespace TestExpr

/-- The tests that are named by a word alone, with their names. -/
def words : List (String × TestExpr) :=
  [("any", .any), ("never", .never), ("truthy", .truthy), ("digit", .digit), ("upper", .upper),
    ("lower", .lower), ("alpha", .alpha), ("alnum", .alnum), ("space", .space),
    ("non_ascii", .nonAscii), ("even", .even), ("is_none", .isNone)]

/-- The test of a name. -/
def ofLabel? (s : String) : Option TestExpr := (words.find? fun e => e.1 == s).map Prod.snd

/-- Whether a code is one of a digit. -/
def isDigitCode (n : Int) : Bool := 48 ≤ n && n ≤ 57

/-- Whether a code is one of a capital letter. -/
def isUpperCode (n : Int) : Bool := 65 ≤ n && n ≤ 90

/-- Whether a code is one of a small letter. -/
def isLowerCode (n : Int) : Bool := 97 ≤ n && n ≤ 122

/-- Whether a value passes. -/
def holds : TestExpr → Test
  | .any, _ => .ok true
  | .never, _ => .ok false
  | .truthy, v => .ok v.isTrue
  | .digit, v => .ok (isDigitCode v.code)
  | .upper, v => .ok (isUpperCode v.code)
  | .lower, v => .ok (isLowerCode v.code)
  | .alpha, v => .ok (isUpperCode v.code || isLowerCode v.code)
  | .alnum, v => .ok (isDigitCode v.code || isUpperCode v.code || isLowerCode v.code)
  | .space, v => .ok ([9, 10, 12, 13, 32].contains v.code)
  | .nonAscii, v => .ok (v.code > 127)
  | .even, v => .ok (v.code % 2 == 0)
  | .isNone, v => .ok (v.eqv .null)
  | .eq w, v => .ok (v.eqv w)
  | .ne w, v => .ok (!v.eqv w)
  | .lt w, v => Value.test .lt v w
  | .gt w, v => Value.test .gt v w
  | .isIn s, v => v.occursIn s
  | .longerThan n, v => do Value.test .gt (.int (← v.length)) n
  | .not t, v => (holds t v).map (!·)

end TestExpr

end Itemwise
