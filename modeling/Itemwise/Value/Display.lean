import Itemwise.Value.Basic
import Itemwise.Decimal.Digits
import Itemwise.Decimal.Shortest
import Itemwise.Text.Quoted

namespace Itemwise

/-!
# Display of values

How values are written in parser names and messages.

* `FloatStyle` — the choices in writing a float, with `Value.floatStyle` those made here;
* `Value.display` — the written form of a value;
* `Value.displayRecord` — that of a record with named fields.
-/

/-- The choices in writing the shortest decimal of a float. -/
structure FloatStyle where
  /-- The least and the greatest place of the point, counted from the first digit, at which a number
      is written without an exponent. -/
  leastPoint : Int
  greatestPoint : Int
  /-- The digits an exponent has at least. -/
  exponentDigits : Nat

namespace FloatStyle

/-- A finite float with the given shortest decimal. -/
def scientific (style : FloatStyle) (s : Shortest.Scientific) : List Char :=
  let ds := Decimal.ofNat s.digits
  let point : Int := ds.length + s.exponent
  if style.leastPoint ≤ point ∧ point ≤ style.greatestPoint then
    if point ≤ 0 then
      '0' :: '.' :: List.replicate (-point).toNat '0' ++ ds
    else if (ds.length : Int) ≤ point then
      ds ++ List.replicate (point.toNat - ds.length) '0' ++ ['.', '0']
    else
      ds.take point.toNat ++ '.' :: ds.drop point.toNat
  else
    let e := point - 1
    let es := Decimal.ofNat e.natAbs
    let mantissa := match ds with
      | [] => []
      | [d] => [d]
      | d :: r => d :: '.' :: r
    mantissa ++ 'e' :: (if e < 0 then '-' else '+')
      :: List.replicate (style.exponentDigits - es.length) '0' ++ es

/-- A float. -/
def float (style : FloatStyle) (x : Float) : List Char :=
  match Binary64.ofFloat x with
  | .finite negative m q =>
    (if negative then ['-'] else []) ++ style.scientific (Shortest.ofFinite m q)
  | .infinite negative => (if negative then "-inf" else "inf").toList
  | .notNumber => "nan".toList

end FloatStyle

/-- Texts joined with a separator between each two. -/
def joinText (separator : List Char) : List (List Char) → List Char
  | [] => []
  | [t] => t
  | t :: ts => t ++ separator ++ joinText separator ts

namespace Value

/-- Floats from `0.0001` to below `10 ^ 16` are written without an exponent, and an exponent has two
    digits at least. -/
def floatStyle : FloatStyle := ⟨-3, 16, 2⟩

/-- The written form of a record: its name, and its fields with their written forms. -/
def displayRecord (name : String) (fields : List (String × List Char)) : List Char :=
  name.toList ++ '(' :: joinText [',', ' '] (fields.map fun f => f.1.toList ++ '=' :: f.2) ++ [')']

/-- The written form of a semantic version. -/
def displayVersion (v : SemVer) : List Char :=
  displayRecord "SemVer" [("major", Decimal.ofInt v.major), ("minor", Decimal.ofInt v.minor),
    ("patch", Decimal.ofInt v.patch), ("pre_release", Quoted.text v.preRelease),
    ("build", Quoted.text v.build)]

/-- The written form of a span. -/
def displaySpan (s : Span) : List Char :=
  displayRecord "Span" [("start", Decimal.ofNat s.start), ("end", Decimal.ofNat s.stop)]

/-- The written form of the kind of a line item. -/
def displayKind (kind : LineKind) : List Char :=
  let name := match kind with
    | .action => "ACTION"
    | .info => "INFO"
    | .separator => "SEPARATOR"
    | .space => "SPACE"
    | .ignore => "IGNORE"
    | .malformed => "SYNTAX_ERROR"
  "<LineKind.".toList ++ name.toList ++ ": ".toList ++ Quoted.text kind.label.toList ++ ['>']

/-- The written form of a line item. -/
def displayLine (l : LineItem) : List Char :=
  displayRecord "LineItem"
    [("kind", displayKind l.kind), ("name", Quoted.text l.name), ("command", Quoted.text l.command)]

mutual

/-- The written form of a value. -/
def display : Value → List Char
  | .null => "None".toList
  | .bool b => (if b then "True" else "False").toList
  | .int n => Decimal.ofInt n
  | .float x => floatStyle.float x.number
  | .text cs => Quoted.text cs
  | .octets .fixed bs => Quoted.octets bs
  | .octets .growable bs => "bytearray(".toList ++ Quoted.growableOctets bs ++ [')']
  | .octets _ _ => "<memory>".toList
  | .list xs => '[' :: joinText [',', ' '] (displayAll xs) ++ [']']
  | .tuple xs =>
    '(' :: joinText [',', ' '] (displayAll xs) ++ (if xs.length = 1 then [',', ')'] else [')'])
  | .dict es => '\x7b' :: joinText [',', ' '] (displayEntries es) ++ ['\x7d']
  | .set xs _ =>
    "frozenset(".toList ++ (if xs.isEmpty then [] else
      '\x7b' :: joinText [',', ' '] (displayAll xs) ++ ['\x7d']) ++ [')']
  | .array capacity xs =>
    "FixedArray([".toList ++ joinText [',', ' '] (displayAll xs) ++ "], capacity=".toList
      ++ Decimal.ofNat capacity ++ [')']
  | .span s => displaySpan s
  | .version v => displayVersion v
  | .line l => displayLine l
  | .operator .. => "<function>".toList
  | .shared _ => "...".toList

/-- The written forms of a list of values. -/
def displayAll : List Value → List (List Char)
  | [] => []
  | x :: xs => display x :: displayAll xs

/-- The written forms of the entries of a dictionary. -/
def displayEntries : List (Value × Value) → List (List Char)
  | [] => []
  | (k, v) :: es => (display k ++ [':', ' '] ++ display v) :: displayEntries es

end

end Value

end Itemwise
