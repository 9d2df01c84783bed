import Itemwise.Diagnostic
import Itemwise.Parser.Basic

namespace Itemwise

/-!
# Forward declarations

A parser that contains itself is **declared** first, used by its name, and then defined, once.

* `Forward` — a declaration with its definition, once it has one;
* `Forward.define` — the declaration with a definition;
* `Forward.parser` — the parser that stands for it in others;
* `Forward.display` — how a declaration is shown.
-/

/-- A forward declaration.  `σ` is the type of the user state. -/
structure Forward (σ : Type) where
  name : String
  target : Option (Parser σ) := none

namespace Forward

variable {σ : Type}

/-- Whether the declaration has its definition. -/
def isDefined (f : Forward σ) : Bool := f.target.isSome

/-- The declaration with a definition; it can be given only once. -/
def define (f : Forward σ) (p : Parser σ) : Except Fault (Forward σ) :=
  if f.isDefined then .error (.forwardRedefined f.name) else .ok { f with target := some p }

/-- The parser that stands for the declaration. -/
def parser (f : Forward σ) : Parser σ := .forward f.name

/-- How a declaration is shown. -/
def display (f : Forward σ) : String :=
  "<Forward " ++ f.name ++ (if f.isDefined then " (defined)>" else " (undefined)>")

/-- The definition of the declaration of a name among some. -/
def lookup? (fs : List (Forward σ)) (name : String) : Option (Parser σ) :=
  (fs.find? fun f => f.name == name).bind (·.target)

/-- A declaration is refused a second definition, and only that. -/
theorem define_eq_error_iff (f : Forward σ) (p : Parser σ) :
    f.define p = .error (.forwardRedefined f.name) ↔ f.isDefined = true := by
  unfold define
  split <;> simp_all

end Forward

end Itemwise
