import Itemwise.Proofs.Run.Alternatives

namespace Itemwise

/-!
# Alternatives that begin alike

Alternatives that begin with the same parser can have it in common: it is run once, and the
alternatives are what can follow.  If each of them is an attempt, the common form is one as well,
and it comes to the same, unless there is no alternative at all.

* `Step.Completes` — an outcome after the common beginning, and the same one with it;
* `Step.together_choice_completes` — after the beginning, the choice of what follows comes to what
  the alternatives come to;
* `Step.attempt_sequence_alike` — so the common form comes to the same as the alternatives, if there
  are some;
* `Parser.run_attempt_seq` — the same of parsers, with what is different if there are no
  alternatives.
-/

variable {σ : Type}

namespace Step

/-- What follows a beginning with some value ends as all of it does: it succeeds with a value at the
    same position as the beginning and the value together, or fails where the beginning ended as all
    of it fails at the start. -/
inductive Completes (v : Value) (mid start : Nat) : Outcome Value → Outcome Value → Prop
  | success (w : Value) (q : Nat) :
    Completes v mid start (.success w q) (.success (.tuple [v, w]) q)
  | failure {x y : Place} (hx : x.isAt mid = true) (hy : y.isAt start = true) :
      Completes v mid start (.failure x) (.failure y)

variable {p q : Step σ} {ps qs : List (Step σ)} {c : Context} {v : Value} {mid : Nat} {x : Place}
  {o o' : Outcome Value}

/-- What follows fails where the beginning ended exactly if all of it fails at the start. -/
theorem Completes.failsAt_eq {start : Nat} (h : Completes v mid start o o') :
    o.failsAt mid = o'.failsAt start := by
  cases h with
  | success w q => rfl
  | failure hx hy => simp [hx, hy]

/-- What an attempt makes of an outcome: a failure is one at the start. -/
def attempted (c : Context) : Outcome Value → Outcome Value
  | .success v q => .success v q
  | .failure x => if x.isAt c.pos then .failure x else .failure c.pos

/-- An attempt runs its parser and changes the outcome only. -/
theorem attempt_eq (p : Step σ) (c : Context) :
    attempt p c = p c >>= fun o => pure (attempted c o) := by
  show p c >>= _ = _
  congr 1
  funext o
  cases o with
  | success v q => rfl
  | failure x => exact (apply_ite pure _ _ _).symm

/-- If an attempt fails, it fails at the start. -/
theorem attempted_failure (c : Context) (x : Place) :
    ∃ y, attempted c (.failure x) = .failure y ∧ y.isAt c.pos = true := by
  by_cases h : x.isAt c.pos = true
  · exact ⟨x, if_pos h, h⟩
  · exact ⟨c.pos, if_neg h, by simp⟩

/-- A beginning and what follows it are one after the other. -/
def followed (q : Step σ) (c : Context) : Outcome Value → Action σ (Outcome Value)
  | .failure x => return .failure x
  | .success v mid => do
    match ← q (c.moveTo mid) with
    | .failure y => return .failure y
    | .success w r => return .success (.tuple [v, w]) r

/-- A pair is its beginning and what follows it. -/
theorem sequence_pair (p q : Step σ) (c : Context) :
    sequence .all [p, q] c = p c >>= followed q c := by
  show (p c >>= _) >>= _ = _
  rw [bind_assoc]
  congr 1
  funext o
  cases o with
  | failure x => rfl
  | success v mid =>
    show ((q (c.moveTo mid) >>= _) >>= _) >>= _ = q (c.moveTo mid) >>= _
    rw [bind_assoc, bind_assoc]
    congr 1
    funext o
    cases o <;> rfl

/-- An attempted pair is its beginning, what follows it, and the change of the outcome. -/
theorem attempt_sequence (p q : Step σ) (c : Context) :
    attempt (sequence .all [p, q]) c = p c >>= fun o => followed q c o >>= fun o =>
      pure (attempted c o) := by
  rw [attempt_eq, sequence_pair, bind_assoc]

/-- After the beginning, one alternative does with what follows what it does with all of it. -/
theorem together_attempt_completes {T : Tolerance} (hT : ∀ f, T.shared f)
    (hp : p c = pure (.success v mid)) (q : Step σ) :
    T.Together (Completes v mid c.pos) (attempt q (c.moveTo mid))
      (attempt (sequence .all [p, q]) c) := by
  rw [attempt_eq, attempt_sequence, hp, pure_bind, followed, bind_assoc]
  apply Tolerance.Together.bind (Tolerance.together_refl (R := Eq) (fun _ => rfl) hT _)
  rintro o _ rfl
  cases o with
  | success w r => exact Tolerance.together_pure (.success w r)
  | failure x =>
    obtain ⟨y, hy, hmid⟩ := attempted_failure (c.moveTo mid) x
    obtain ⟨z, hz, hstart⟩ := attempted_failure c x
    rw [hy, pure_bind, hz]
    exact Tolerance.together_pure (.failure hmid hstart)

/-- After the beginning, the choice of what follows comes to what the alternatives come to. -/
theorem together_choice_completes {T : Tolerance} (hT : ∀ f, T.shared f)
    (hp : p c = pure (.success v mid)) (qs : List (Step σ)) :
    T.Together (Completes v mid c.pos) (choice (qs.map attempt) (c.moveTo mid))
      (choice (qs.map fun q => attempt (sequence .all [p, q])) c) := by
  rw [choice_eq_otherwise, choice_eq_otherwise]
  apply together_otherwise fun _ _ => Completes.failsAt_eq
  · rw [List.forall₂_map_left_iff, List.forall₂_map_right_iff, List.forall₂_same]
    exact fun q _ => together_attempt_completes hT hp q
  · exact .failure (by simp) (by simp)

/-- If the beginning fails, all alternatives fail at the start. -/
theorem choice_sequence_rejecting (hp : p c = pure (.failure x)) (qs : List (Step σ)) :
    (choice (qs.map fun q => attempt (sequence .all [p, q])) c).Alike (pure (.failure c.pos)) := by
  rw [choice_eq_otherwise]
  apply otherwise_rejecting
  intro r hr
  obtain ⟨q, -, rfl⟩ := List.mem_map.mp hr
  obtain ⟨y, hy, hat⟩ := attempted_failure c x
  refine ⟨.failure y, hat, ?_⟩
  rw [attempt_sequence, hp, ← hy]
  rfl

/-- **The common beginning of alternatives.** Alternatives that begin with a step that ignores the
    user state come to the same as one attempt at the step and one of the continuations, if there
    are some or the step ends in no fault. -/
theorem attempt_sequence_alike (hp : p.Ignores c) (hqs : qs ≠ [] ∨ ∀ s f t, p c s ≠ .error f t) :
    (attempt (sequence .all [p, choice (qs.map attempt)]) c).Alike
      (choice (qs.map fun q => attempt (sequence .all [p, q])) c) := by
  obtain ⟨r, hr⟩ := hp c.pos
  have hrun : p c = Action.ofExcept r := funext hr
  rcases r with f | ⟨v, mid⟩ | x
  · rw [attempt_sequence, hrun]
    cases qs with
    | nil =>
      -- there is no state to start in
      intro s
      rcases hqs with hqs | hqs
      · exact absurd rfl hqs
      · exact absurd (hr s) (hqs s f s)
    | cons q qs =>
      -- the first alternative begins with the step, and ends in its fault
      have hfirst : attempt (sequence .all [p, q]) c = Action.ofExcept (.error f) := by
        rw [attempt_sequence, hrun]
        rfl
      rw [List.map_cons, List.map_cons, choice_cons _ _ c, hfirst]
      exact Action.Alike.refl _
  · have hcompletes := together_choice_completes (T := .none) (fun _ => trivial) hrun qs
    rw [attempt_sequence, hrun,
      ← bind_pure (choice (qs.map fun q => attempt (sequence .all [p, q])) c)]
    show ((choice (qs.map attempt) (c.moveTo mid) >>= _) >>= _ : Action σ (Outcome Value)).Alike _
    rw [bind_assoc]
    apply hcompletes.bind
    rintro o o' (⟨w, q⟩ | @⟨x, y, -, hy⟩)
    · exact Action.Alike.refl _
    · obtain ⟨z, hz, hat⟩ := attempted_failure c x
      show (pure (attempted c (.failure x)) : Action σ (Outcome Value)).Alike _
      rw [hz]
      exact Action.alike_pure (Outcome.same_of_failsAt hat hy)
  · obtain ⟨y, hy, hat⟩ := attempted_failure c x
    have hfactored : attempt (sequence .all [p, choice (qs.map attempt)]) c =
        pure (.failure y) := by
      rw [attempt_sequence, hrun, ← hy]
      rfl
    rw [hfactored]
    have hstart : (Outcome.failure y).Same (.failure c.pos) :=
      Outcome.same_of_failsAt (n := c.pos) hat (by simp)
    exact (Action.alike_pure hstart).trans (choice_sequence_rejecting hrun qs).symm

end Step

namespace Parser

variable [Memory σ] (setting : Setting σ) {p : Parser σ} {qs : List (Parser σ)} {c : Context}

/-- A run of an attempt is an attempt of the run. -/
theorem run_attempt (p : Parser σ) : (attempt p).run setting = Step.attempt (p.run setting) := by
  rw [run_eq setting (attempt p), run_eq setting p]
  rfl

/-- A run of a sequence is a sequence of runs. -/
theorem run_seq (ps : List (Parser σ)) :
    (seq ps).run setting = Step.sequence .all (ps.map (run setting)) := by
  rw [run_eq setting (seq ps), ← evalAll_run]
  rfl

/-- A run of the factored form, as steps. -/
theorem run_factored (p : Parser σ) (qs : List (Parser σ)) :
    (attempt (seq [p, anyOf (qs.map attempt)])).run setting =
      Step.attempt (Step.sequence .all
        [p.run setting, Step.choice ((qs.map (run setting)).map Step.attempt)]) := by
  rw [run_attempt, run_seq, List.map_cons, List.map_cons, List.map_nil, run_anyOf,
    List.map_map, List.map_map]
  simp only [Function.comp_def, run_attempt]

/-- A run of the form with the beginning repeated, as steps. -/
theorem run_alternatives (p : Parser σ) (qs : List (Parser σ)) :
    (anyOf (qs.map fun q => attempt (seq [p, q]))).run setting =
      Step.choice ((qs.map (run setting)).map fun q => Step.attempt
        (Step.sequence .all [p.run setting, q])) := by
  rw [run_anyOf, List.map_map, List.map_map]
  simp only [Function.comp_def, run_attempt, run_seq, List.map_cons, List.map_nil]

/-- **Left factoring.** Let a parser ignore the user state.  Then alternatives that begin with it
    come to the same as an attempt at it and one of the continuations, if there are some or it ends
    in no fault.  If there are none and it ends in a fault, so does the attempt, while the choice of
    none fails at the start. -/
theorem run_attempt_seq (hp : (p.run setting).Ignores c) :
    ((qs ≠ [] ∨ ∀ s f t, p.run setting c s ≠ .error f t) →
      ((attempt (seq [p, anyOf (qs.map attempt)])).run setting c).Alike
        ((anyOf (qs.map fun q => attempt (seq [p, q]))).run setting c)) ∧
      (qs = [] → ∀ s f t, p.run setting c s = .error f t →
        (attempt (seq [p, anyOf (qs.map attempt)])).run setting c s = .error f t ∧
          (anyOf (qs.map fun q => attempt (seq [p, q]))).run setting c s =
            .ok (.failure c.pos) s) := by
  rw [run_factored, run_alternatives]
  constructor
  · intro hqs
    apply Step.attempt_sequence_alike hp
    simpa using hqs
  · rintro rfl s f t hf
    constructor
    · rw [Step.attempt_sequence]
      exact Action.bind_of_error hf
    · rfl

/-- Two continuations of a letter, of which the second one fits. -/
theorem run_attempt_seq_letters :
    let c := start (.sequence (.text #['a', 'c'])) { levels := 50 }
    let p : Parser Unit := .char 'a'
    let qs : List (Parser Unit) := [.char 'b', .char 'c']
    ((attempt (seq [p, anyOf (qs.map attempt)])).run brackets c).Alike
        ((anyOf (qs.map fun q => attempt (seq [p, q]))).run brackets c) ∧
      (anyOf (qs.map fun q => attempt (seq [p, q]))).run brackets c () =
        .ok (.success (.tuple [.ofChar 'a', .ofChar 'c']) 2) () := by
  intro c p qs
  have hqs : qs ≠ [] := by simp [qs]
  refine ⟨(run_attempt_seq brackets (Step.ignores_unit _ c)).1 (.inl hqs), ?_⟩
  with_unfolding_all rfl

/-- If there are no alternatives, a parser that enters itself without end is not run among them. -/
theorem run_attempt_seq_leftRecursive :
    let c := start (.sequence (.text #['+'])) { levels := 3 }
    let p : Parser Unit := .forward "sum"
    let qs : List (Parser Unit) := []
    (p.run leftRecursive).Ignores c ∧
      (attempt (seq [p, anyOf (qs.map attempt)])).run leftRecursive c () =
        .error (.depthExceeded (.int 3)) () ∧
      (anyOf (qs.map fun q => attempt (seq [p, q]))).run leftRecursive c () =
        .ok (.failure (.position 0)) () ∧
      ¬ ((attempt (seq [p, anyOf (qs.map attempt)])).run leftRecursive c).Alike
        ((anyOf (qs.map fun q => attempt (seq [p, q]))).run leftRecursive c) := by
  intro c p qs
  have hfactored : (attempt (seq [p, anyOf (qs.map attempt)])).run leftRecursive c () =
      .error (.depthExceeded (.int 3)) () := by
    with_unfolding_all rfl
  have halternatives :
      (anyOf (qs.map fun q => attempt (seq [p, q]))).run leftRecursive c () =
        .ok (.failure (.position 0)) () := by
    with_unfolding_all rfl
  refine ⟨Step.ignores_unit _ c, hfactored, halternatives, fun h => ?_⟩
  have hs := h ()
  rw [hfactored, halternatives] at hs
  rcases hs with ⟨⟨⟩⟩ | ⟨⟨⟩, -⟩

end Parser

end Itemwise
