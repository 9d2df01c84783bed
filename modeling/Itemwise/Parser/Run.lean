import Itemwise.Leaf.Item
import Itemwise.Leaf.Stretch
import Itemwise.Parser.Basic
import Itemwise.Step.Chain
import Itemwise.Step.Choice
import Itemwise.Step.Eat
import Itemwise.Step.Repeat
import Itemwise.Step.Transform

namespace Itemwise

/-!
# Running parsers

* `Grammar` — what the rules and the forward declarations of a parser stand for;
* `Setting` — a grammar with the configuration that is active during the run;
* `Step.descend`, `Step.forward` — the entries into recursive parsers, each of which counts as one
  level of nesting and is refused beyond the limit;
* `Parser.eval` — the step of a parser, given the steps of the recursive parsers it enters;
* `Parser.run` — the step of a parser.

A run descends at most `maxDepth - depth` times into recursive parsers, so `Parser.run` is defined
by recursion on that number, and within each level by recursion on the parser.
-/

/-- What the names in a parser stand for. -/
structure Grammar (σ : Type) where
  /-- The parser of a rule, built under a configuration. -/
  rule : Rule → Config → Action σ (Parser σ)
  /-- The parser of a forward declaration, once it is defined. -/
  forward : String → Option (Parser σ)

/-- A grammar and the configuration under which a parser runs. -/
structure Setting (σ : Type) where
  config : Config
  grammar : Grammar σ

namespace Step

variable {σ : Type}

/-- Enters a parser one level deeper, unless the limit is reached. -/
def descend (target : Action σ (Parser σ)) (next : Parser σ → Step σ) : Step σ := fun c =>
  if c.isDepthExceeded then throw c.limit.refusal
  else do
    let p ← target
    next p c.enter

/-- Enters the parser of a forward declaration, which has to be defined. -/
def forward (name : String) (target : Option (Parser σ)) (next : Parser σ → Step σ) : Step σ :=
  match target with
  | none => fun _ => throw (.forwardUndefined name)
  | some p => descend (pure p) next

end Step

namespace Parser

variable {σ : Type} [Memory σ]

mutual

/-- The step of a parser; `next` gives the steps of the parsers one level deeper. -/
def eval (setting : Setting σ) (next : Parser σ → Step σ) : Parser σ → Step σ
  | .anyItem => Step.leaf Leaf.anyItem
  | .item expected => Step.seeing (Leaf.item expected)
  | .satisfy p => Step.seeing (Leaf.satisfy p.holds)
  | .oneOf _ compiled => Step.seeing (Leaf.oneOf compiled)
  | .literal expected => Step.seeing (Leaf.literal expected)
  | .itemWhile p => Step.seeing (Leaf.itemWhile p.holds)
  | .upTo needle => Step.seeing (Leaf.upTo needle)
  | .scan mode finders => Step.seeing (Leaf.scan mode finders)
  | .rest => Step.leaf Leaf.rest
  | .eof => Step.leaf Leaf.eof
  | .empty => Step.leaf Leaf.empty
  | .position => Step.leaf Leaf.position
  | .const v => Step.leaf (Leaf.const v)
  | .failure => Step.leaf Leaf.failure
  | .integer signed kind => Step.seeing (Leaf.integer signed kind)
  | .decimal kind => Step.seeing (Leaf.decimal kind)
  | .whitespace => Step.leaf Leaf.whitespace
  | .raw run _ => run
  | .unbuilt fault => fun _ => throw fault
  | .map p f => Step.map f (eval setting next p)
  | .mapIf p f => Step.mapIf f (eval setting next p)
  | .filter p test => Step.filter test (eval setting next p)
  | .notEmpty p => Step.notEmpty (eval setting next p)
  | .bind p f =>
    Step.bind (eval setting next p) fun s v => eval setting next (f setting.config s v)
  | .liftToState f p => Step.map f (eval setting next p)
  | .sequence kind ps => Step.sequence kind (evalAll setting next ps)
  | .times n p => Step.times n (eval setting next p)
  | .choice ps => Step.choice (evalAll setting next ps)
  | .greedyChoice ps => Step.greedyChoice (evalAll setting next ps)
  | .choose p arms default =>
    Step.choose (eval setting next p) (evalArms setting next arms) (evalOption setting next default)
  | .attempt p => Step.attempt (eval setting next p)
  | .optional p => Step.optional (eval setting next p)
  | .peek p => Step.peek (eval setting next p)
  | .notFollowedBy p => Step.notFollowedBy (eval setting next p)
  | .measure m p => Step.measure m (eval setting next p)
  | .eat p => Step.eat (eval setting next p)
  | .many p separator allowTrailing sink atLeast =>
    Step.many (eval setting next p) (evalOption setting next separator) allowTrailing sink atLeast
  | .chain p op combine => Step.chain (eval setting next p) (eval setting next op) combine
  | .defer rule _ => fun c => Step.descend (setting.grammar.rule rule setting.config) next c
  | .forward name => fun c => Step.forward name (setting.grammar.forward name) next c
  | .named p _ => eval setting next p
  | .inState s p => Step.inState s (eval setting next p)

/-- The steps of several parsers. -/
def evalAll (setting : Setting σ) (next : Parser σ → Step σ) : List (Parser σ) → List (Step σ)
  | [] => []
  | p :: ps => eval setting next p :: evalAll setting next ps

/-- The arms of a choice by value, with the steps of their parsers. -/
def evalArms (setting : Setting σ) (next : Parser σ → Step σ) :
    List (Test × Parser σ) → List (Test × Step σ)
  | [] => []
  | (test, p) :: arms => (test, eval setting next p) :: evalArms setting next arms

/-- The step of a parser that may be missing. -/
def evalOption (setting : Setting σ) (next : Parser σ → Step σ) :
    Option (Parser σ) → Option (Step σ)
  | none => none
  | some p => some (eval setting next p)

end

/-- The step of a parser that may descend `levels` times. -/
def runWithin (setting : Setting σ) : (levels : Nat) → Parser σ → Step σ
  | 0, p => eval setting (fun _ c => throw c.limit.refusal) p
  | levels + 1, p => eval setting (runWithin setting levels) p

/-- The step of a parser: it may descend for as long as its context allows. -/
def run (setting : Setting σ) (p : Parser σ) : Step σ := fun c =>
  runWithin setting (c.maxDepth - c.depth).toNat p c

end Parser

end Itemwise
