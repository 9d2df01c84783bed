import Itemwise.Parser.Name
import Itemwise.Value.Arithmetic

namespace Itemwise

/-!
# Building parsers

The parsers of a grammar are put together with these builders.  A builder that can refuse its
arguments, or that needs a capability, gives a parser or a fault.

* `Parser.ofLabel?`, `Parser.ofValue?`, `Parser.take`, `Parser.skip`, `Parser.literal?`,
  `Parser.oneOf?`, `Parser.scan?` — from items;
* `Parser.seq`, `Parser.right`, `Parser.left`, `Parser.between`, `Parser.lift` — sequences;
* `Parser.anyOf`, `Parser.longest`, `Parser.anyOfDropped`, `Parser.choose?` — alternatives;
* `Parser.repeat?`, `Parser.times?` — repetitions;
* `Parser.bound`, `Parser.made` — what a bound function gives, whether or not it could be built.
-/

namespace Parser

variable {σ : Type}

/-! ### Items and stretches -/

/-- An exact run of items: anything that holds items in an order. -/
def literal? (expected : Value) : Except Fault (Parser σ) := do
  let _ ← expected.length
  let _ ← expected.variants
  expected.checkWritten
  return .literal expected

/-- The parsers that are named by a word alone, with their names in a grammar that is given as
    data. -/
def words : List (String × Parser σ) :=
  [("item", .anyItem), ("rest", .rest), ("eof", .eof), ("empty", .empty), ("position", .position),
    ("success", .const .null), ("failure", .failure), ("integer", .integer false none),
    ("integer_signed", .integer true none), ("float", .decimal none), ("ws", .whitespace)]

/-- The parser of a name. -/
def ofLabel? (s : String) : Option (Parser σ) := (words.find? fun e => e.1 == s).map Prod.snd

/-- A single item, or a run of items: sequences other than one-character texts and single bytes are
    runs. -/
def take (expected : Value) : Parser σ :=
  match expected with
  | .list _ | .tuple _ => .literal expected
  | .text cs => if cs.length = 1 then .item expected else .literal expected
  | .octets k bs => if k.isView || bs.length == 1 then .item expected else .literal expected
  | _ => .item expected

/-- The longest run of items that a test accepts, which must not be empty. -/
def itemWhile1 (p : Predicate) : Parser σ := .notEmpty (.itemWhile p)

/-- The value replaced by what a function makes of it. -/
def convert (p : Parser σ) (f : Value → Except Fault Value) : Parser σ :=
  .map p fun v => Action.ofExcept (f v)

/-- The value replaced by what a function makes of it, which refuses it by giving nothing. -/
def convertIf (p : Parser σ) (f : Value → Except Fault Value) : Parser σ :=
  .mapIf p fun v => Action.ofExcept (f v)

/-- The value dropped. -/
def discard (p : Parser σ) : Parser σ := .convert p fun _ => .ok .null

/-- What `take` accepts, with its value dropped. -/
def skip (expected : Value) : Parser σ :=
  .named (discard (take expected)) ("skip(" ++ String.ofList expected.display ++ ")")

/-- The parsers that are named by a word and made of a value, if the value has a written form. -/
def ofValue? (s : String) : Option (Value → Except Fault (Parser σ)) :=
  match s with
  | "item" => some (written .item)
  | "literal" => some literal?
  | "take" => some (written take)
  | "skip" => some (written skip)
  | "until" => some (written .upTo)
  | "pure" => some (written .const)
  | _ => none
where
  /-- A parser of a value that has a written form. -/
  written (build : Value → Parser σ) (v : Value) : Except Fault (Parser σ) :=
    (v.checkWritten).map fun _ => build v

/-- An item that one of some patterns fits, for patterns that are known not to be empty. -/
def matching (patterns : List Pattern) : Parser σ := .oneOf patterns (Compiled.union patterns)

/-- One of some characters. -/
def charIn (cs : List Char) : Parser σ := matching (cs.map fun c => .item (.ofChar c))

/-- A character from `low` to `high`. -/
def charBetween (low high : Char) : Parser σ :=
  matching [.within ⟨.ofChar low, .ofChar high⟩]

/-- A given character. -/
def char (c : Char) : Parser σ := .item (.ofChar c)

/-- An item that one of the patterns fits. -/
def oneOf? (patterns : List Pattern) : Except Fault (Parser σ) :=
  (Compiled.ofPatterns patterns).map (.oneOf patterns)

/-- A scan for one of the targets. -/
def scan? (mode : ScanMode) (targets : List Target) : Except Fault (Parser σ) :=
  (Finder.compile targets).map (.scan mode)

/-! ### Sequences -/

/-- Parsers one after the other, with the tuple of their values. -/
def seq (ps : List (Parser σ)) : Parser σ := .sequence .all ps

/-- Parsers one after the other, with what a function makes of their values. -/
def lift (f : List Value → Except Fault Value) (ps : List (Parser σ)) : Parser σ :=
  .sequence (.apply fun vs => Action.ofExcept (f vs)) ps

/-- A sequence that keeps one value of several. -/
def keep (kind : SequenceKind σ) (ps : List (Parser σ)) : Except Fault (Parser σ) :=
  if ps.length < 2 then .error (.tooFewParsers kind.label) else .ok (.sequence kind ps)

/-- Parsers one after the other, with the value of the last. -/
def right (ps : List (Parser σ)) : Except Fault (Parser σ) := keep .last ps

/-- Parsers one after the other, with the value of the first. -/
def left (ps : List (Parser σ)) : Except Fault (Parser σ) := keep .first ps

/-- The first parser, then the second, with the value of the second. -/
def andThen (p q : Parser σ) : Parser σ := .sequence .last [p, q]

/-- The first parser, then the second, with the value of the first. -/
def andDrop (p q : Parser σ) : Parser σ := .sequence .first [p, q]

/-- A parser between two others, with its value. -/
def between (p q r : Parser σ) : Parser σ := .sequence .middle [p, q, r]

/-- A parser a number of times, for a number that is not negative.  A truth value counts as a
    number, and a fraction is refused when the parser is run. -/
def times? (n : Value) (p : Parser σ) : Except Fault (Parser σ) := do
  let negative ← Value.test .lt n (.int 0)
  n.checkWritten
  if negative then throw (.invalidRepetition "times" n)
  match n with
  | .int k => return .times k.toNat p
  | n =>
    let run : Parser σ := (n.toInt?).elim (.unbuilt .wrongKind) fun k => .times k.toNat p
    return .named run (call "times" [Fault.shown n, p.name])

/-! ### Alternatives -/

/-- The first alternative that fits; one alternative is itself, and none is failure. -/
def anyOf : List (Parser σ) → Parser σ
  | [] => .failure
  | [p] => p
  | ps => .choice ps

/-- The alternative that reaches furthest. -/
def longest : List (Parser σ) → Parser σ
  | [] => .failure
  | ps => .greedyChoice ps

/-- The first alternative that fits, with its value dropped. -/
def anyOfDropped (ps : List (Parser σ)) (names : List String) : Parser σ :=
  .named (discard (anyOf ps)) ("choice_diff(" ++ ", ".intercalate names ++ ")")

/-- What tells whether an arm of a choice by value is the one for a value. -/
inductive Selector
  | test (holds : Test)
  | pattern (p : Pattern)

/-- The test of a selector; a pattern must not be empty. -/
def Selector.toTest : Selector → Except Fault Test
  | .test holds => .ok holds
  | .pattern p => (Compiled.ofPatterns [p]).map Compiled.accepts

/-- The alternative that a value selects; there has to be an arm or a default. -/
def choose? (p : Parser σ) (arms : List (Selector × Parser σ)) (default : Option (Parser σ)) :
    Except Fault (Parser σ) := do
  if arms.isEmpty && default.isNone then throw (.emptyPatternSet "choose")
  return .choose p (← arms.mapM fun arm => do return (← arm.1.toTest, arm.2)) default

/-! ### Repetitions -/

/-- A separator, and whether one may follow the last element. -/
structure Separator (σ : Type) where
  parser : Parser σ
  allowTrailing : Bool := false

/-- A repetition into a sink that has been checked. -/
def repeated (p : Parser σ) (sink : Sink σ) (separator : Option (Separator σ)) (atLeast : Nat) :
    Parser σ :=
  .many p (separator.map (·.parser)) (separator.all (·.allowTrailing)) sink atLeast

/-- A repetition into a sink. -/
def repeat? (config : Config) (p : Parser σ) (sink : Sink σ) (separator : Option (Separator σ))
    (atLeast : Nat) : Except Fault (Parser σ) :=
  (sink.build config).map fun sink => repeated p sink separator atLeast

/-! ### Functions that give parsers -/

/-- What a bound function gives: a parser, or what stands for one that could not be built. -/
def bound : Except Fault (Parser σ) → Parser σ
  | .ok p => p
  | .error f => .unbuilt f

/-- The parser that an action makes in a user state; it finds the state that the action leaves. -/
def made (a : Action σ (Parser σ)) (s : σ) : Parser σ :=
  match a s with
  | .ok p s => .inState s p
  | .error f s => .inState s (.unbuilt f)

end Parser

end Itemwise
