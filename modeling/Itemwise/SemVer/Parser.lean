import Itemwise.Decimal.Digits
import Itemwise.Parser.Build
import Itemwise.Parser.Parse
import Itemwise.SemVer

namespace Itemwise.SemVer

/-!
# The grammar of semantic versions

* `isIdentifierChar` — the characters of the dotted parts;
* `parser` — a whole version, `parser?` with the capability it needs;
* `parse` — a text read as a version;
* `render` — a version written as text.

A number has no leading zeros unless it is zero, and neither has an identifier of the pre-release
part that is all digits.
-/

variable {σ : Type}

/-- Whether a character may occur in a dotted part: an ASCII letter or digit, or a hyphen. -/
def isIdentifierChar (c : Char) : Bool :=
  ('0' ≤ c && c ≤ '9') || ('a' ≤ c && c ≤ 'z') || ('A' ≤ c && c ≤ 'Z') || c == '-'

/-! ### The three numbers -/

/-- The number of a component from its text and value; leading zeros are refused. -/
def componentValue : Value → Except Fault Value
  | .tuple [.text cs, .int n] =>
    .ok (if cs.head? = some '0' ∧ n ≠ 0 then .null else .int n)
  | _ => .error .wrongKind

/-- One of the three numbers. -/
def component : Parser σ :=
  .convertIf (.measure .stretchAndValue (.integer false none)) componentValue

/-- A number and the dot after it. -/
def dotted : Parser σ := .andDrop component (.char '.')

/-- The three numbers. -/
def core : Parser σ := .seq [dotted, dotted, component]

/-! ### The dotted parts -/

/-- A run of identifier characters. -/
def identifier : Parser σ := .itemWhile1 (.ofChar "is_identifier_char" isIdentifierChar)

/-- Whether a run of digits has no leading zero; a single zero is fine. -/
def plainNumber : Value → Except Fault Bool
  | .text cs => .ok (cs.length == 1 || cs.head? != some '0')
  | _ => .error .wrongKind

/-- An identifier that is all digits. -/
def numeric : Parser σ :=
  .filter (.itemWhile1 (.ofChar "is_digit" Decimal.isDigit)) plainNumber

/-- Digits, then at least one identifier character that is none. -/
def alphanumeric : Parser σ :=
  .measure .stretch
    (.andThen (.optional (.itemWhile (.ofChar "is_digit" Decimal.isDigit))) identifier)

/-- An identifier of the pre-release part. -/
def preReleaseIdentifier : Parser σ := .choice [.attempt alphanumeric, numeric]

/-- A mark and identifiers between dots, all or nothing. -/
def part (mark : Char) (identifier : Parser σ) : Parser σ :=
  .attempt (.andThen (.char mark) (.repeated identifier .discard (some ⟨.char '.', false⟩) 1))

/-! ### Versions -/

/-- The text of an optional part. -/
def partText : Value → Option (List Char)
  | .null => some []
  | .text cs => some cs
  | _ => none

/-- The version of its parts. -/
def assemble : List Value → Except Fault Value
  | [.tuple [.int major, .int minor, .int patch], pre, build] =>
    match partText pre, partText build with
    | some p, some b => .ok (.version ⟨major, minor, patch, p, b⟩)
    | _, _ => .error .wrongKind
  | _ => .error .wrongKind

/-- A version, and the end of the input. -/
def parser : Parser σ :=
  .named
    (.andDrop
      (.lift assemble
        [core, .optional (part '-' preReleaseIdentifier), .optional (part '+' identifier)])
      .empty)
    "semver"

/-- The version parser, if the example grammars are on. -/
def parser? (config : Config) : Except Fault (Parser σ) :=
  (config.require .exampleGrammars).map fun _ => parser

/-- Reads a text as a version; what is not one gives nothing. -/
def parse (config : Config) (text : List Char) : Except Fault (Option SemVer) := do
  let p : Parser Unit ← parser? config
  let grammar : Grammar Unit := ⟨fun _ _ => throw .missingKey, fun _ => none⟩
  match p.parse ⟨config, grammar⟩ (.sequence (.text text.toArray)) Depth.limit () with
  | .ok (.success (.version v) _) _ => return some v
  | .ok _ _ => return none
  | .error fault _ => throw fault

/-- A version as text: the numbers between dots, and each part that there is after its mark. -/
def render (v : SemVer) : Except Fault (List Char) := do
  let major ← Fault.attempt .badValue (Decimal.render? v.major)
  let minor ← Fault.attempt .badValue (Decimal.render? v.minor)
  let patch ← Fault.attempt .badValue (Decimal.render? v.patch)
  return major ++ '.' :: minor ++ '.' :: patch
    ++ (if v.preRelease.isEmpty then [] else '-' :: v.preRelease)
    ++ (if v.build.isEmpty then [] else '+' :: v.build)

end Itemwise.SemVer
