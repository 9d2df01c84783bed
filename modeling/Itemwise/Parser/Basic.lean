import Itemwise.Leaf.Find
import Itemwise.Leaf.Number
import Itemwise.Pattern
import Itemwise.Sink
import Itemwise.Step.Measure
import Itemwise.Step.Sequence

namespace Itemwise

/-!
# Parsers

A **parser** is a description of what to accept; it is data, and running it is the business of
`Itemwise.Parser.Run`.

* `Rule` — what a deferred parser refers to;
* `Parser` — the parsers;
* `Predicate` — a test on values with the name it is shown by, also made from one on characters.

Functions given by a caller occur in parsers as they are; everything else is first-order.
-/

/-- What a deferred parser refers to: a definition of the grammar at hand, or the values of JSON. -/
inductive Rule
  | definition (name : String)
  | jsonValue
deriving DecidableEq, Repr

/-- A test on values. -/
abbrev Test := Value → Except Fault Bool

/-- A test on values, with the name it is shown by. -/
structure Predicate where
  name : String
  holds : Test

/-- A test on characters; a value that is no single character is refused. -/
def Predicate.ofChar (name : String) (p : Char → Bool) : Predicate :=
  ⟨name, fun v =>
    match v with
    | .text [c] => .ok (p c)
    | _ => .error .wrongKind⟩

/-- A parser.  `σ` is the type of the user state. -/
inductive Parser (σ : Type)
  /-- Any one item. -/
  | anyItem
  /-- An item equal to an expected one. -/
  | item (expected : Value)
  /-- An item that a test accepts. -/
  | satisfy (p : Predicate)
  /-- An item that one of some patterns fits. -/
  | oneOf (patterns : List Pattern) (compiled : Compiled)
  /-- An exact run of items. -/
  | literal (expected : Value)
  /-- Items for as long as a test accepts them. -/
  | itemWhile (p : Predicate)
  /-- Everything up to a needle. -/
  | upTo (needle : Value)
  /-- Everything up to a byte. -/
  | scan (mode : ScanMode) (finders : List Finder)
  /-- Everything that is left. -/
  | rest
  /-- The end of the input. -/
  | eof
  /-- The end of the input, as an empty stretch. -/
  | empty
  /-- The position. -/
  | position
  /-- A value. -/
  | const (v : Value)
  /-- Nothing at all. -/
  | failure
  /-- An integer. -/
  | integer (signed : Bool) (kind : Option IntKind)
  /-- A decimal number. -/
  | decimal (kind : Option IntKind)
  /-- White space. -/
  | whitespace
  /-- A step given by the caller, with its name. -/
  | raw (run : Step σ) (name : String)
  /-- What stands for a parser that could not be built. -/
  | unbuilt (fault : Fault)
  /-- The value replaced. -/
  | map (p : Parser σ) (f : Value → Action σ Value)
  /-- The value replaced, or refused. -/
  | mapIf (p : Parser σ) (f : Value → Action σ Value)
  /-- The value if a test accepts it. -/
  | filter (p : Parser σ) (test : Test)
  /-- The value if it holds any items. -/
  | notEmpty (p : Parser σ)
  /-- The parser that a function of the user state and the value gives, under the configuration of
      the run. -/
  | bind (p : Parser σ) (next : Config → σ → Value → Parser σ)
  /-- The value replaced by an action on the user state. -/
  | liftToState (f : Value → Action σ Value) (p : Parser σ)
  /-- Parsers one after the other. -/
  | sequence (kind : SequenceKind σ) (ps : List (Parser σ))
  /-- A parser a number of times. -/
  | times (n : Nat) (p : Parser σ)
  /-- The first alternative that fits. -/
  | choice (ps : List (Parser σ))
  /-- The alternative that reaches furthest. -/
  | greedyChoice (ps : List (Parser σ))
  /-- The alternative that a value selects. -/
  | choose (p : Parser σ) (arms : List (Test × Parser σ)) (default : Option (Parser σ))
  /-- A parser whose failures count as failures at the start. -/
  | attempt (p : Parser σ)
  /-- A parser that need not be there. -/
  | optional (p : Parser σ)
  /-- A parser that consumes nothing. -/
  | peek (p : Parser σ)
  /-- The absence of a parser. -/
  | notFollowedBy (p : Parser σ)
  /-- A parser with a report of what it consumed. -/
  | measure (m : Measure) (p : Parser σ)
  /-- A parser after white space. -/
  | eat (p : Parser σ)
  /-- A repetition, with an optional separator that may be allowed after the last element too. -/
  | many (p : Parser σ) (separator : Option (Parser σ)) (allowTrailing : Bool) (sink : Sink σ)
      (atLeast : Nat)
  /-- Operands joined by operators. -/
  | chain (operand operator : Parser σ) (combine : Value → Value → Value → Action σ Value)
  /-- The parser of a rule, built anew for each run, with the name it is shown by. -/
  | defer (rule : Rule) (label : String)
  /-- The parser of a forward declaration. -/
  | forward (name : String)
  /-- A parser under another name. -/
  | named (p : Parser σ) (name : String)
  /-- A parser that finds a user state of its own instead of the one before it. -/
  | inState (s : σ) (p : Parser σ)

end Itemwise
