import Itemwise.Proofs.Run.Discipline
import Itemwise.Proofs.Run.Greedy

namespace Itemwise

/-!
# Repetitions turn by turn

In a repetition the element, the sink and the separator take turns: in each turn one of them is
applied once.  How often each of them still can be is told by how much of the input is left, and no
turn leaves more than there was without it.

* `Part`, `Turn`, `Turn.next` — the parts of a repetition, where it stands, and one turn of it;
* `Turn.run`, `Turn.applied` — a number of turns, and the parts that are applied in them;
* `Turn.resume`, `Turn.resume_eq_run` — what is left of the loop is some turns, and what is left
  after them;
* `Turn.left`, `Turn.left_next` — how often a part can be applied yet, and what a turn leaves of
  that;
* `Turn.count_applied_le` — so a part is applied no more often in any number of turns;
* `Turn.gather_eq_run` — the loop comes to what it is when it is over after some turns.
-/

/-- The parts of a repetition that are applied in it. -/
inductive Part
  | element
  | sink
  | separator
deriving DecidableEq, Repr

/-- Where a repetition stands: which part is due, or how the loop ended. -/
inductive Turn (σ α : Type)
  /-- The element is due, from where the repetition has come to. -/
  | element (t : Tally α)
  /-- The sink is due for the value of an element that ended further on. -/
  | sink (t : Tally α) (v : Value) (q : Nat)
  /-- The separator is due. -/
  | separator (next : Step σ) (t : Tally α)
  /-- The loop is over. -/
  | ended (result : Gathered α)

namespace Turn

variable {σ : Type}

/-- The part that is due. -/
def part? {α : Type} : Turn σ α → Option Part
  | .element _ => some .element
  | .sink .. => some .sink
  | .separator .. => some .separator
  | .ended _ => none

section Turns

variable [Memory σ] (element : Step σ) (separator : Option (Step σ)) (sink : Sink σ) (c : Context)

/-- One turn: the part that is due is applied, and tells which one is due next. -/
def next : Turn σ sink.Acc → Action σ (Turn σ sink.Acc)
  | .element t => do
    match ← element (c.moveTo t.pos) with
    | .failure q => return .ended (if q.isAt t.pos then .stopped t else .broken q)
    | .success v q => return if q = t.pos then .ended (.stopped t) else .sink t v q
  | .sink t v q => do
    let (acc, room) ← sink.push t.acc v
    let t := { pos := q, count := t.count + 1, dangling := false, acc := acc }
    return if room then (match separator with | none => .element t | some s => .separator s t)
    else .ended (.stopped t)
  | .separator s t => do
    match ← s (c.moveTo t.pos) with
    | .failure r => return .ended (if r.isAt t.pos then .stopped t else .broken r)
    | .success _ r => return .element { t with pos := r, dangling := true }
  | .ended g => return .ended g

/-- A number of turns. -/
def run : Nat → Turn σ sink.Acc → Action σ (Turn σ sink.Acc)
  | 0, turn => return turn
  | n + 1, turn => do run n (← next element separator sink c turn)

/-- The parts that are applied in a number of turns, in order.  A fault ends the turns. -/
def applied : Nat → Turn σ sink.Acc → σ → List Part
  | 0, _, _ => []
  | n + 1, turn, s => turn.part?.toList ++
    match next element separator sink c turn s with
    | .ok turn' t => applied n turn' t
    | .error _ _ => []

/-- The rest of the loop, which has some rounds left. -/
def resume (fuel : Nat) : Turn σ sink.Acc → Action σ (Gathered sink.Acc)
  | .element t => Step.gather element separator sink fuel c t
  | .sink t v q => do
    let (acc, room) ← sink.push t.acc v
    let t := { pos := q, count := t.count + 1, dangling := false, acc := acc }
    if room then
      match separator with
      | none => Step.gather element separator sink fuel c t
      | some s =>
        match ← s (c.moveTo q) with
        | .failure r => if r.isAt q then return .stopped t else return .broken r
        | .success _ r =>
          Step.gather element separator sink fuel c { t with pos := r, dangling := true }
    else return .stopped t
  | .separator s t => do
    match ← s (c.moveTo t.pos) with
    | .failure r => if r.isAt t.pos then return .stopped t else return .broken r
    | .success _ r =>
      Step.gather element separator sink fuel c { t with pos := r, dangling := true }
  | .ended g => return g

end Turns

variable [Memory σ] {element : Step σ} {separator : Option (Step σ)} {sink : Sink σ} {c : Context}

/-! ### The loop goes turn by turn -/

/-- What is left of the loop is the turn that is due, and what is left after it; a round begins with
    the turn of the element. -/
theorem resume_eq_next (fuel : Nat) (turn : Turn σ sink.Acc) :
    resume element separator sink c (fuel + turn.part?.toList.count .element) turn =
      next element separator sink c turn >>= resume element separator sink c fuel := by
  cases turn with
  | element t =>
    show element (c.moveTo t.pos) >>= _ = (element (c.moveTo t.pos) >>= _) >>= _
    rw [bind_assoc]
    congr 1
    funext o
    cases o with
    | failure q => by_cases h : q.isAt t.pos = true <;> simp [h, resume]
    | success v q =>
      -- an element that consumes nothing ends the loop
      by_cases h : q = t.pos
      · simp [h, resume]
      · simp only [h, if_false, pure_bind]
        cases separator <;> rfl
  | sink t v q =>
    show sink.push t.acc v >>= _ = (sink.push t.acc v >>= _) >>= _
    rw [bind_assoc]
    congr 1
    funext r
    obtain ⟨acc, room⟩ := r
    cases room with
    | false => simp [resume]
    | true => cases separator <;> simp [resume, part?]
  | separator s t =>
    show s (c.moveTo t.pos) >>= _ = (s (c.moveTo t.pos) >>= _) >>= _
    rw [bind_assoc]
    congr 1
    funext o
    cases o with
    | failure r => by_cases h : r.isAt t.pos = true <;> simp [h, resume]
    | success w r => simp [resume, part?]
  | ended g => simp [next, resume]

/-- What is left of the loop is some turns, and what is left after them. -/
theorem resume_eq_run (n fuel : Nat) (turn : Turn σ sink.Acc) (s : σ) :
    resume element separator sink c
      (fuel + (applied element separator sink c n turn s).count .element) turn s =
        (run element separator sink c n turn >>= resume element separator sink c fuel) s := by
  induction n generalizing turn s with
  | zero => simp [applied, run]
  | succ n ih =>
    rw [applied, List.count_append, Nat.add_comm (turn.part?.toList.count _), ← Nat.add_assoc,
      resume_eq_next, run, bind_assoc]
    cases hnext : next element separator sink c turn s with
    | error f t => rw [Action.bind_of_error hnext, Action.bind_of_error hnext]
    | ok turn' t =>
      rw [Action.bind_of_ok hnext, Action.bind_of_ok hnext]
      exact ih turn' t

/-! ### What a turn comes to -/

variable {turn turn' : Turn σ sink.Acc} {s u : σ} {t : Tally sink.Acc}

/-- After the element the loop is over, where it has come to or with a failure, unless an element
    counts, for which the sink is due. -/
theorem next_element_eq_ok (h : next element separator sink c (.element t) s = .ok turn' u) :
    (∃ g, turn' = .ended g ∧ (g = .stopped t ∨ ∃ x, g = .broken x)) ∨
      ∃ v q, element (c.moveTo t.pos) s = .ok (.success v q) u ∧ q ≠ t.pos ∧
        turn' = .sink t v q := by
  obtain ⟨o, u', hrun, h⟩ := Action.bind_eq_ok h
  cases o with
  | failure x =>
    cases h
    refine .inl ⟨_, rfl, ?_⟩
    by_cases hx : x.isAt t.pos = true <;> simp [hx]
  | success v q =>
    by_cases hq : q = t.pos
    · simp only [hq, if_true] at h
      cases h
      exact .inl ⟨_, rfl, .inl rfl⟩
    · simp only [hq, if_false] at h
      cases h
      exact .inr ⟨v, q, hrun, hq, rfl⟩

/-- After the sink there is one element more, and the loop is over, or the separator is due, or the
    element if there is none. -/
theorem next_sink_eq_ok {v : Value} {q : Nat}
    (h : next element separator sink c (.sink t v q) s = .ok turn' u) :
    ∃ acc room, sink.push t.acc v s = .ok (acc, room) u ∧
      (turn' = .ended (.stopped ⟨q, t.count + 1, false, acc⟩) ∨
        turn' = .element ⟨q, t.count + 1, false, acc⟩ ∨
        ∃ next, separator = some next ∧ turn' = .separator next ⟨q, t.count + 1, false, acc⟩) := by
  obtain ⟨⟨acc, room⟩, u', hpush, h⟩ := Action.bind_eq_ok h
  cases room with
  | false =>
    cases h
    exact ⟨acc, false, hpush, .inl rfl⟩
  | true =>
    cases separator with
    | none =>
      cases h
      exact ⟨acc, true, hpush, .inr (.inl rfl)⟩
    | some next =>
      cases h
      exact ⟨acc, true, hpush, .inr (.inr ⟨next, rfl, rfl⟩)⟩

/-- After the separator the loop is over, where it has come to or with a failure, or the element is
    due where the separator ended. -/
theorem next_separator_eq_ok {r : Step σ}
    (h : next element separator sink c (.separator r t) s = .ok turn' u) :
    (∃ g, turn' = .ended g ∧ (g = .stopped t ∨ ∃ x, g = .broken x)) ∨
      ∃ w q, r (c.moveTo t.pos) s = .ok (.success w q) u ∧
        turn' = .element { t with pos := q, dangling := true } := by
  obtain ⟨o, u', hrun, h⟩ := Action.bind_eq_ok h
  cases o with
  | failure x =>
    cases h
    refine .inl ⟨_, rfl, ?_⟩
    by_cases hx : x.isAt t.pos = true <;> simp [hx]
  | success w q =>
    cases h
    exact .inr ⟨w, q, hrun, rfl⟩

/-! ### What is left of a repetition -/

/-- How often a part can be applied yet. -/
def left (size : Nat) {α : Type} : Part → Turn σ α → Nat
  -- without any items left, the element may still be tried once
  | .element, .element t => size - t.pos + 1
  | _, .element t => size - t.pos
  | .sink, .separator _ t => size - t.pos
  | _, .separator _ t => size - t.pos + 1
  | _, .sink _ _ q => size - q + 1
  | _, .ended _ => 0

omit [Memory σ] in
/-- Once a repetition has ended, no part can be applied any more. -/
@[simp] theorem left_ended (size : Nat) {α : Type} (part : Part) (g : Gathered α) :
    (ended g : Turn σ α).left size part = 0 := by
  cases part <;> rfl

/-- A repetition stands where it can: within the input, and, if an element counts, past the start of
    it. -/
def Stands (separator : Option (Step σ)) (size : Nat) {α : Type} : Turn σ α → Prop
  | .element t => t.pos ≤ size
  | .sink t _ q => t.pos < q ∧ q ≤ size
  | .separator next t => separator = some next ∧ t.pos ≤ size
  | .ended _ => True

omit [Memory σ] in
/-- What is due can be applied yet. -/
theorem count_part_le_left {α : Type} (size : Nat) (part : Part) (turn : Turn σ α) :
    turn.part?.toList.count part ≤ turn.left size part := by
  cases turn <;> cases part <;> simp [part?, left]

section Left

variable (helement : element.NeverGoesBack)
  (hseparator : ∀ next, separator = some next → next.NeverGoesBack)
include helement hseparator

/-- A turn leaves a repetition where it can stand, and each part as often as it could be applied,
    less the turn. -/
theorem left_next (h : turn.Stands separator c.items.size)
    (hnext : next element separator sink c turn s = .ok turn' u) :
    turn'.Stands separator c.items.size ∧ ∀ part,
      turn.part?.toList.count part + turn'.left c.items.size part ≤
        turn.left c.items.size part := by
  -- Where the loop ends, nothing is left.
  have hended (g : Gathered sink.Acc) :
      (ended g : Turn σ sink.Acc).Stands separator c.items.size ∧ ∀ part,
      turn.part?.toList.count part + (ended g : Turn σ sink.Acc).left c.items.size part ≤
        turn.left c.items.size part :=
    ⟨trivial, fun part => by simpa using count_part_le_left c.items.size part turn⟩
  cases turn with
  | element t =>
    have hpos : t.pos ≤ c.items.size := h
    rcases next_element_eq_ok hnext with ⟨g, rfl, -⟩ | ⟨v, q, hrun, hq, rfl⟩
    · exact hended g
    · -- an element that counts takes an item away from every part
      obtain ⟨hback, hsize⟩ : t.pos ≤ q ∧ q ≤ c.items.size := helement _ _ _ _ _ hpos hrun
      refine ⟨⟨by omega, hsize⟩, fun part => ?_⟩
      cases part <;> simp [part?, left] <;> omega
  | sink t v q =>
    obtain ⟨-, hsize⟩ : t.pos < q ∧ q ≤ c.items.size := h
    obtain ⟨acc, room, -, rfl | rfl | ⟨next, hsome, rfl⟩⟩ := next_sink_eq_ok hnext
    · exact hended _
    · refine ⟨hsize, fun part => ?_⟩
      cases part <;> simp [part?, left, Nat.add_comm]
    · refine ⟨⟨hsome, hsize⟩, fun part => ?_⟩
      cases part <;> simp [part?, left, Nat.add_comm]
  | separator r t =>
    obtain ⟨hsome, hpos⟩ : separator = some r ∧ t.pos ≤ c.items.size := h
    rcases next_separator_eq_ok hnext with ⟨g, rfl, -⟩ | ⟨w, q, hrun, rfl⟩
    · exact hended g
    · -- a separator may take none away, but only an element that counts makes room for another one
      obtain ⟨hback, hsize⟩ : t.pos ≤ q ∧ q ≤ c.items.size := hseparator r hsome _ _ _ _ _ hpos hrun
      refine ⟨hsize, fun part => ?_⟩
      cases part <;> simp [part?, left] <;> omega
  | ended g =>
    cases hnext
    exact hended g

/-- **No part is applied more often than it can be**, in any number of turns. -/
theorem count_applied_le (h : turn.Stands separator c.items.size) (n : Nat) (s : σ) (part : Part) :
    (applied element separator sink c n turn s).count part ≤ turn.left c.items.size part := by
  induction n generalizing turn s with
  | zero => simp [applied]
  | succ n ih =>
    rw [applied, List.count_append]
    cases hnext : next element separator sink c turn s with
    | error f t => simpa using count_part_le_left c.items.size part turn
    | ok turn' t =>
      obtain ⟨hstands, hleft⟩ := left_next helement hseparator h hnext
      exact Nat.le_trans (Nat.add_le_add_left (ih hstands t) _) (hleft part)

/-- When no part can be applied any more, the loop is over. -/
theorem run_ended (h : turn.Stands separator c.items.size) (n : Nat) (s : σ)
    (hn : turn.left c.items.size .element + turn.left c.items.size .sink +
      turn.left c.items.size .separator ≤ n)
    (hrun : run element separator sink c n turn s = .ok turn' u) : ∃ g, turn' = .ended g := by
  induction n generalizing turn s with
  | zero =>
    cases hrun
    cases turn' with
    | ended g => exact ⟨g, rfl⟩
    | _ => simp [left] at hn
  | succ n ih =>
    obtain ⟨mid, t, hnext, hrun⟩ := Action.bind_eq_ok hrun
    obtain ⟨hstands, hleft⟩ := left_next helement hseparator h hnext
    apply ih hstands t ?_ hrun
    have helement := hleft .element
    have hsink := hleft .sink
    have hseparator := hleft .separator
    -- a turn that is not over is one of a part, which can be applied once less
    cases turn with
    | ended g =>
      cases hnext
      simp
    | _ =>
      simp [part?] at helement hsink hseparator
      omega

/-- **The loop goes turn by turn.** If it has a round more left than there are items ahead, then it
    comes to what it is when it is over after some turns, or to the fault in which they end. -/
theorem gather_eq_run {t : Tally sink.Acc} (ht : t.pos ≤ c.items.size) {fuel : Nat}
    (hfuel : c.items.size - t.pos < fuel) (s : σ) :
    ∃ n, (∃ g u, run element separator sink c n (.element t) s = .ok (.ended g) u ∧
        Step.gather element separator sink fuel c t s = .ok g u) ∨
      ∃ f u, run element separator sink c n (.element t) s = .error f u ∧
        Step.gather element separator sink fuel c t s = .error f u := by
  have hstands : (Turn.element t : Turn σ sink.Acc).Stands separator c.items.size := ht
  let left (part : Part) := (Turn.element t : Turn σ sink.Acc).left c.items.size part
  generalize hn : left .element + left .sink + left .separator = n
  -- the element is applied once in each round, so there are rounds enough
  have hcount := count_applied_le helement hseparator hstands n s .element
  obtain ⟨spare, hspare⟩ :
    ∃ spare, fuel = spare + (applied element separator sink c n (.element t) s).count .element := by
    simp only [Turn.left] at hcount
    exact ⟨fuel - (applied element separator sink c n (.element t) s).count .element, by omega⟩
  have hgather : Step.gather element separator sink fuel c t s =
      (run element separator sink c n (.element t) >>=
        resume element separator sink c spare) s := by
    rw [← resume_eq_run, ← hspare]
    rfl
  refine ⟨n, ?_⟩
  cases hrun : run element separator sink c n (.element t) s with
  | ok turn' u =>
    obtain ⟨g, rfl⟩ := run_ended helement hseparator hstands n s (Nat.le_of_eq hn) hrun
    exact .inl ⟨g, u, rfl, hgather.trans (Action.bind_of_ok hrun)⟩
  | error f u => exact .inr ⟨f, u, rfl, hgather.trans (Action.bind_of_error hrun)⟩

end Left

end Turn

end Itemwise
