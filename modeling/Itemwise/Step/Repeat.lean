import Itemwise.Sink

namespace Itemwise

/-!
# Repetition

A repetition runs its element, and its separator between elements, for as long as that gets further.

* `Tally` — how far a repetition has come;
* `Step.gather` — elements and separators until the run ends;
* `Step.many` — the outcome of the repetition.

The run ends with the first element that fails where it started or consumes nothing, with the first
separator that fails where it started, or when the sink is full.  A failure further on is the
failure of the whole.
-/

/-- How far a repetition has come: the position, the number of elements, whether the last thing was
    a separator, and what the sink has collected. -/
structure Tally (α : Type) where
  pos : Nat
  count : Nat
  dangling : Bool
  acc : α

/-- The end of a run of elements: where it stopped, or where a part failed that had consumed. -/
inductive Gathered (α : Type)
  | stopped (t : Tally α)
  | broken (place : Place)

namespace Step

variable {σ : Type}

/-- Runs elements and separators from a tally on; `fuel` bounds the rounds. -/
def gather [Memory σ] (element : Step σ) (separator : Option (Step σ)) (sink : Sink σ) :
    (fuel : Nat) → Context → Tally sink.Acc → Action σ (Gathered sink.Acc)
  | 0, _, _ => throw .endless
  | fuel + 1, c, t => do
    match ← element (c.moveTo t.pos) with
    | .failure q => if q.isAt t.pos then return .stopped t else return .broken q
    | .success v q =>
      if q = t.pos then return .stopped t
      else
        let (acc, room) ← sink.push t.acc v
        let t := { pos := q, count := t.count + 1, dangling := false, acc := acc }
        if room then
          match separator with
          | none => gather element separator sink fuel c t
          | some s =>
            match ← s (c.moveTo q) with
            | .failure r => if r.isAt q then return .stopped t else return .broken r
            | .success _ r =>
              gather element separator sink fuel c { t with pos := r, dangling := true }
        else
          return .stopped t

/-- A repetition of at least `atLeast` elements. -/
def many [Memory σ] (element : Step σ) (separator : Option (Step σ)) (allowTrailing : Bool)
    (sink : Sink σ) (atLeast : Nat) : Step σ := fun c => do
  let acc ← sink.start
  match ← gather element separator sink c.mostRounds c ⟨c.pos, 0, false, acc⟩ with
  | .broken q => return .failure q
  | .stopped t =>
    if t.dangling && !allowTrailing then return .failure t.pos
    else if t.count < atLeast then return .failure t.pos
    else if sink.yieldsStretch then return .success (← c.sliceTo t.pos) t.pos
    else return .success (← sink.finish t.acc) t.pos

end Step

end Itemwise
