import Itemwise.Parser.Basic
import Itemwise.Diagnostic

namespace Itemwise

/-!
# Names of parsers

A parser is shown by a **name** that follows its build, unless it was given another.

* `Parser.name` — the name of a parser;
* `Parser.display` — how a parser is shown where it stands alone.
-/

namespace Parser

variable {σ : Type}

/-- A builder with its arguments. -/
def call (builder : String) (arguments : List String) : String :=
  builder ++ "(" ++ ", ".intercalate arguments ++ ")"

/-- The name of a number parser, with the type that its numbers have to fit. -/
def numberName (base : String) : Option IntKind → String
  | none => base
  | some k => call (base ++ "_checked") [k.label]

mutual

/-- The name of a parser. -/
def name : Parser σ → String
  | .anyItem => "item"
  | .item expected => call "item" [Fault.shown expected]
  | .satisfy p => call "satisfy" [p.name]
  | .oneOf patterns _ =>
    call "item_matches" (patterns.map fun p => String.ofList p.display)
  | .literal expected => call "literal" [Fault.shown expected]
  | .itemWhile p => call "item_while" [p.name]
  | .upTo needle => call "until" [Fault.shown needle]
  | .scan mode finders => call mode.label (finders.map fun f => String.ofList f.display)
  | .rest => "rest"
  | .eof => "eof"
  | .empty => "empty"
  | .position => "position"
  | .const v => call "pure" [Fault.shown v]
  | .failure => "failure"
  | .integer false kind => numberName "integer" kind
  | .integer true kind => numberName "integer_signed" kind
  | .decimal kind => numberName "float" kind
  | .whitespace => "ignore_ascii_whitespace"
  | .raw _ name => name
  | .unbuilt _ => "parser"
  | .map p _ => call "map" [name p]
  | .mapIf p _ => call "map_if" [name p]
  | .filter p _ => call "filter" [name p]
  | .notEmpty p => call "not_empty" [name p]
  | .bind p _ => call "bind" [name p]
  | .liftToState _ p => call "lift_to_state" [name p]
  | .sequence kind ps => call kind.label (names ps)
  | .times n p => call "times" [String.ofList (Decimal.ofNat n), name p]
  | .choice ps => " | ".intercalate (names ps)
  | .greedyChoice ps => call "greedy_choice" (names ps)
  | .choose p _ _ => call "choose" [name p]
  | .attempt p => call "attempt" [name p]
  | .optional p => call "optional" [name p]
  | .peek p => call "peek" [name p]
  | .notFollowedBy p => call "not_followed_by" [name p]
  | .measure m p => call m.label [name p]
  | .eat p => call "eat" [name p]
  | .many p _ _ _ atLeast => call (if atLeast = 0 then "many" else "many1") [name p]
  | .chain p op _ => call "chain" [name p, name op]
  | .defer _ label => label
  | .forward name => name
  | .named _ name => name
  | .inState _ p => name p

/-- The names of several parsers. -/
def names : List (Parser σ) → List String
  | [] => []
  | p :: ps => name p :: names ps

end

/-- How a parser is shown where it stands alone. -/
def display (p : Parser σ) : String := "<Parser " ++ p.name ++ ">"

end Parser

end Itemwise
