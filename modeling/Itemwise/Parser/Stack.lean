import Itemwise.Depth
import Itemwise.Parser.Run

namespace Itemwise

/-!
# Runs on a stack of bounded height

A run whose limit of nesting is the caller's own may nest as deeply as the stack allows.  Every
parser that encloses another takes a frame of the stack, a sequence two.

* `Parser.framed` — a parser whose entries into recursive parsers are told how many frames stand
  before them, and whose parts that there is no room for give up;
* `Parser.runOnStack` — the step of a parser that may take a number of frames.

A run that is not given up is the run of the parser as it is: `Parser.runOnStack_eq`.
-/

namespace Parser

variable {σ : Type} [Memory σ]

mutual

/-- A parser below some frames of those that there is room for, with the entries into recursive
    parsers done by `enter`, which is given the frames between the start of the run and the
    entry. -/
def framed (setting : Setting σ) (room : Nat) (enter : Nat → Parser σ → Step σ) (frames : Nat) :
    Parser σ → Parser σ
  | .defer rule label =>
    .raw (fun c => Step.descend (setting.grammar.rule rule setting.config) (enter frames) c) label
  | .forward name =>
    .raw (fun c => Step.forward name (setting.grammar.forward name) (enter frames) c) name
  | .map p f => .map (framed setting room enter (frames + 1) p) f
  | .mapIf p f => .mapIf (framed setting room enter (frames + 1) p) f
  | .filter p test => .filter (framed setting room enter (frames + 1) p) test
  | .notEmpty p => .notEmpty (framed setting room enter (frames + 1) p)
  | .bind p next =>
    .bind (framed setting room enter (frames + 1) p) fun c s v =>
      framed setting room enter (frames + 1) (next c s v)
  | .liftToState f p => .liftToState f (framed setting room enter (frames + 1) p)
  | .sequence kind ps => .sequence kind (framedAll setting room enter (frames + 2) ps)
  | .times n p => .times n (framed setting room enter (frames + 1) p)
  | .choice ps => .choice (framedAll setting room enter (frames + 1) ps)
  | .greedyChoice ps => .greedyChoice (framedAll setting room enter (frames + 1) ps)
  | .choose p arms default =>
    .choose (framed setting room enter (frames + 1) p)
      (framedArms setting room enter (frames + 1) arms)
      (framedOption setting room enter (frames + 1) default)
  | .attempt p => .attempt (framed setting room enter (frames + 1) p)
  | .optional p => .optional (framed setting room enter (frames + 1) p)
  | .peek p => .peek (framed setting room enter (frames + 1) p)
  | .notFollowedBy p => .notFollowedBy (framed setting room enter (frames + 1) p)
  | .measure m p => .measure m (framed setting room enter (frames + 1) p)
  | .eat p => .eat (framed setting room enter (frames + 1) p)
  | .many p separator allowTrailing sink atLeast =>
    .many (framed setting room enter (frames + 1) p)
      (framedOption setting room enter (frames + 1) separator) allowTrailing sink atLeast
  | .chain p op combine =>
    .chain (framed setting room enter (frames + 1) p)
      (framed setting room enter (frames + 1) op) combine
  | .named p name => .named (framed setting room enter frames p) name
  | .inState s p => .inState s (framed setting room enter frames p)
  | p => if frames < room then p else .unbuilt .endless

/-- Several parsers below some frames. -/
def framedAll (setting : Setting σ) (room : Nat) (enter : Nat → Parser σ → Step σ) (frames : Nat) :
    List (Parser σ) → List (Parser σ)
  | [] => []
  | p :: ps => framed setting room enter frames p :: framedAll setting room enter frames ps

/-- The arms of a choice by value below some frames. -/
def framedArms (setting : Setting σ) (room : Nat) (enter : Nat → Parser σ → Step σ) (frames : Nat) :
    List (Test × Parser σ) → List (Test × Parser σ)
  | [] => []
  | (test, p) :: arms =>
    (test, framed setting room enter frames p) :: framedArms setting room enter frames arms

/-- A parser that may be missing below some frames. -/
def framedOption (setting : Setting σ) (room : Nat) (enter : Nat → Parser σ → Step σ)
    (frames : Nat) :
    Option (Parser σ) → Option (Parser σ)
  | none => none
  | some p => some (framed setting room enter frames p)

end

/-- The step of a parser that may take some frames: a run that needs more is given up. -/
def runOnStack (setting : Setting σ) (available : Nat) (p : Parser σ) : Step σ :=
  let enter (frames : Nat) (q : Parser σ) : Step σ :=
    if _h : frames < available then runOnStack setting (available - frames - 1) q
    else fun _ => throw .endless
  eval setting (fun _ _ => throw .endless) (framed setting available enter 0 p)
termination_by available

end Parser

end Itemwise
