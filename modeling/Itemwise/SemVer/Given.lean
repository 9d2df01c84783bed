import Itemwise.Diagnostic
import Itemwise.Value.Truth

namespace Itemwise

/-!
# Semantic versions of given values

A version that is not read but put together may have any values as its parts.

* `GivenVersion` — a version with the parts it was given;
* `GivenVersion.ofList` — the version of three to five values;
* `GivenVersion.render` — the version as text;
* `GivenVersion.display` — its written form.
-/

/-- A semantic version with its parts as they were given. -/
structure GivenVersion where
  major : Value
  minor : Value
  patch : Value
  preRelease : Value := .text []
  build : Value := .text []

namespace GivenVersion

/-- The version of its parts, of which the last two may be missing; all need a written form. -/
def ofList (parts : List Value) : Except Fault GivenVersion := do
  parts.forM Value.checkWritten
  match parts with
  | [a, b, c] => return ⟨a, b, c, .text [], .text []⟩
  | [a, b, c, p] => return ⟨a, b, c, p, .text []⟩
  | [a, b, c, p, q] => return ⟨a, b, c, p, q⟩
  | _ => throw .wrongKind

/-- A part after its mark, if it counts as true. -/
def marked (mark : String) (part : Value) : String :=
  if part.isTrue then mark ++ Fault.written part else ""

/-- The version as text: the numbers between dots, and each part that there is after its mark. -/
def render (v : GivenVersion) : String :=
  Fault.written v.major ++ "." ++ Fault.written v.minor ++ "." ++ Fault.written v.patch
    ++ marked "-" v.preRelease ++ marked "+" v.build

/-- The written form of the version. -/
def display (v : GivenVersion) : List Char :=
  Value.displayRecord "SemVer"
    [("major", v.major.display), ("minor", v.minor.display), ("patch", v.patch.display),
      ("pre_release", v.preRelease.display), ("build", v.build.display)]

end GivenVersion

end Itemwise
