import Itemwise.Proofs.Run.Places
import Itemwise.Proofs.Run.Sinks

namespace Itemwise

/-!
# Ordered alternatives

A choice tries its alternatives in order, for as long as they fail where they started.  So it can be
cut into parts that are tried one after the other, whatever the alternatives do to the user state,
and this is what choices can be rewritten by.

* `Outcome.Same`, `Action.Alike` — what is the same though a position may be written as a fraction;
* `Step.otherwise` — what an outcome comes to if alternatives follow it;
* `Step.otherwise_append` — alternatives after each other are alternatives in one list;
* `Step.together_otherwise` — alternatives that stay together one by one do so as alternatives;
* `Step.choice_flatten`, `Step.choice_again` — groups and repetitions among the alternatives make no
  difference;
* `Parser.run_anyOf` — alternatives are run as a choice, however many there are;
* `Parser.run_anyOf_monoid` — choice is a monoid of ordered alternatives.
-/

variable {σ : Type}

/-! ### Outcomes and actions that are the same -/

namespace Outcome

/-- Whether an outcome is a failure at a position. -/
def failsAt (n : Nat) : Outcome Value → Bool
  | .success .. => false
  | .failure x => x.isAt n

/-- A success is a failure nowhere. -/
@[simp] theorem failsAt_success (n : Nat) (v : Value) (q : Nat) :
    failsAt n (.success v q) = false :=
  rfl

@[simp] theorem failsAt_failure (n : Nat) (x : Place) : failsAt n (.failure x) = x.isAt n := rfl

/-- Two outcomes are the same: successes with one value at one position, or failures at one
    place. -/
inductive Same : Outcome Value → Outcome Value → Prop
  | success (v : Value) (q : Nat) : Same (.success v q) (.success v q)
  | failure {x y : Place} (h : x.Same y) : Same (.failure x) (.failure y)

variable {o o' o'' : Outcome Value} {m n : Nat}

/-- Every outcome is the same as itself. -/
theorem Same.refl (o : Outcome Value) : o.Same o := by
  cases o with
  | success v q => exact .success v q
  | failure x => exact .failure rfl

/-- Two outcomes are the same in either order. -/
theorem Same.symm (h : o.Same o') : o'.Same o := by
  cases h with
  | success v q => exact .success v q
  | failure h => exact .failure h.symm

/-- Outcomes that are both the same as a third are the same. -/
theorem Same.trans (h : o.Same o') (h' : o'.Same o'') : o.Same o'' := by
  cases h with
  | success v q => exact h'
  | failure h =>
    cases h' with
    | failure h' => exact .failure (h.trans h')

/-- The same outcomes are failures at the same positions. -/
theorem Same.failsAt_eq (h : o.Same o') (n : Nat) : o.failsAt n = o'.failsAt n := by
  cases h with
  | success v q => rfl
  | failure h => exact h.isAt_eq n

/-- All failures at a position are the same. -/
theorem same_of_failsAt (h : o.failsAt n = true) (h' : o'.failsAt n = true) : o.Same o' := by
  cases o with
  | success v q => simp at h
  | failure x =>
    cases o' with
    | success v q => simp at h'
    | failure y => exact .failure (Place.same_of_isAt h h')

/-- Two outcomes that report positions are the same only if they are equal. -/
theorem Same.eq_of_pos (h : o.Same o') (hm : o.pos = .ok m) (hn : o'.pos = .ok n) : o = o' := by
  cases h with
  | success v q => rfl
  | @failure x y h =>
    cases x with
    | fraction x => cases hm
    | position x =>
      cases y with
      | fraction y => cases hn
      | position y => rw [Place.same_position.mp h]

end Outcome

/-- No fault is excused: both computations end in the same ones. -/
def Tolerance.none : Tolerance where
  shared _ := True
  excused _ := False

/-- Two actions are alike: from every state they come to the same outcome and one state, or to one
    fault and one state. -/
def Action.Alike (a b : Action σ (Outcome Value)) : Prop := Tolerance.none.Together Outcome.Same a b

namespace Action

variable {a b d : Action σ (Outcome Value)} {o o' : Outcome Value}

/-- Every action does the same as itself. -/
theorem Alike.refl (a : Action σ (Outcome Value)) : a.Alike a :=
  Tolerance.together_refl Outcome.Same.refl (fun _ => trivial) a

/-- Coming to outcomes that are the same is doing the same. -/
theorem alike_pure (h : o.Same o') : (pure o : Action σ (Outcome Value)).Alike (pure o') :=
  Tolerance.together_pure h

/-- Two actions do the same in either order. -/
theorem Alike.symm (h : a.Alike b) : b.Alike a := by
  intro s
  have hs := h s
  cases ha : a s with
  | ok o t =>
    rw [ha] at hs
    obtain ⟨o', hb, hsame⟩ := hs
    rw [hb]
    exact ⟨o, rfl, hsame.symm⟩
  | error f t =>
    rw [ha] at hs
    rcases hs with ⟨⟨⟩⟩ | ⟨hb, -⟩
    rw [hb]
    exact .inr ⟨rfl, trivial⟩

/-- Actions that both do the same as a third do the same. -/
theorem Alike.trans (h : a.Alike b) (h' : b.Alike d) : a.Alike d := by
  intro s
  have hs := h s
  have hs' := h' s
  cases ha : a s with
  | ok o t =>
    rw [ha] at hs
    obtain ⟨o', hb, hsame⟩ := hs
    rw [hb] at hs'
    obtain ⟨o'', hd, hsame'⟩ := hs'
    exact ⟨o'', hd, hsame.trans hsame'⟩
  | error f t =>
    rw [ha] at hs
    rcases hs with ⟨⟨⟩⟩ | ⟨hb, -⟩
    rw [hb] at hs'
    exact hs'

/-- Actions that are alike stay so if what follows them is alike after the same outcomes. -/
theorem Alike.bind (h : a.Alike b) {k l : Outcome Value → Action σ (Outcome Value)}
    (hk : ∀ o o', o.Same o' → (k o).Alike (l o')) : (a >>= k).Alike (b >>= l) :=
  Tolerance.Together.bind h hk

end Action

/-! ### Further alternatives -/

namespace Step

/-- What an outcome comes to if alternatives follow: it stands, unless it is a failure at the
    start. -/
def otherwise : List (Step σ) → Context → Outcome Value → Action σ (Outcome Value)
  | [], _, o => return o
  | p :: ps, c, o => if o.failsAt c.pos then p c >>= otherwise ps c else return o

variable {p : Step σ} {ps qs rs : List (Step σ)} {c c' : Context} {o o' : Outcome Value}

/-- With no alternatives to follow, the outcome stands. -/
@[simp] theorem otherwise_nil (c : Context) (o : Outcome Value) :
    otherwise ([] : List (Step σ)) c o = pure o :=
  rfl

/-- After a failure at the start, the next alternative is asked. -/
theorem otherwise_cons (h : o.failsAt c.pos = true) :
    otherwise (p :: ps) c o = p c >>= otherwise ps c :=
  if_pos h

/-- An outcome that is no failure at the start stands. -/
theorem otherwise_of_not_failsAt (h : ¬ o.failsAt c.pos = true) (ps : List (Step σ)) :
    otherwise ps c o = pure o := by
  cases ps with
  | nil => rfl
  | cons p ps => exact if_neg h

/-- After an alternative the others follow. -/
theorem choiceAfter_cons (last : Place) (p : Step σ) (ps : List (Step σ)) (c : Context) :
    choiceAfter last (p :: ps) c = p c >>= otherwise ps c := by
  induction ps generalizing last p with
  | nil =>
    show p c >>= _ = _
    congr 1
    funext o
    cases o with
    | success v q => rfl
    | failure x => exact ite_self (pure (Outcome.failure x))
  | cons q ps ih =>
    show p c >>= _ = _
    congr 1
    funext o
    cases o with
    | success v r => rfl
    | failure x =>
      show (if x.isAt c.pos then choiceAfter x (q :: ps) c else pure (.failure x)) = _
      rw [ih]
      rfl

/-- A choice runs its first alternative, and the others after it as needed. -/
theorem choice_cons (p : Step σ) (ps : List (Step σ)) (c : Context) :
    choice (p :: ps) c = p c >>= otherwise ps c :=
  choiceAfter_cons c.pos p ps c

/-- A choice goes on from a failure at the start. -/
theorem choice_eq_otherwise (ps : List (Step σ)) (c : Context) :
    choice ps c = otherwise ps c (.failure c.pos) := by
  cases ps with
  | nil => rfl
  | cons p ps => rw [choice_cons, otherwise_cons (by simp)]

/-- Alternatives after each other are alternatives in one list. -/
theorem otherwise_append (ps qs : List (Step σ)) (c : Context) (o : Outcome Value) :
    otherwise (ps ++ qs) c o = otherwise ps c o >>= otherwise qs c := by
  induction ps generalizing o with
  | nil => simp
  | cons p ps ih =>
    by_cases h : o.failsAt c.pos = true
    · rw [List.cons_append, otherwise_cons h, otherwise_cons h, bind_assoc]
      exact congrArg (p c >>= ·) (funext ih)
    · simp [otherwise_of_not_failsAt h]

/-- A choice among more alternatives goes on with the rest where the first ones have failed at the
    start. -/
theorem choice_append (ps qs : List (Step σ)) (c : Context) :
    choice (ps ++ qs) c = choice ps c >>= otherwise qs c := by
  rw [choice_eq_otherwise, choice_eq_otherwise, otherwise_append]

/-- One alternative is itself. -/
theorem choice_singleton (p : Step σ) (c : Context) : choice [p] c = p c := by
  rw [choice_cons, funext (otherwise_nil c), bind_pure]

section Cons

variable {s t : σ}

/-- After an alternative that failed where it started the others follow. -/
theorem choice_cons_of_failure (h : p c s = .ok (.failure c.pos) t) :
    choice (p :: ps) c s = choice ps c t := by
  rw [choice_cons, Action.bind_of_ok h, choice_eq_otherwise]

/-- The first alternative's success is the choice's. -/
theorem choice_cons_of_success {v : Value} {q : Nat} (h : p c s = .ok (.success v q) t) :
    choice (p :: ps) c s = .ok (.success v q) t := by
  rw [choice_cons, Action.bind_of_ok h, otherwise_of_not_failsAt (by simp)]
  rfl

/-- The first alternative's fault is the choice's. -/
theorem choice_cons_of_error {f : Fault} (h : p c s = .error f t) :
    choice (p :: ps) c s = .error f t := by
  rw [choice_cons, Action.bind_of_error h]

end Cons

/-- Alternatives that stay together one by one do so as alternatives, if related outcomes fail at
    the starts alike. -/
theorem together_otherwise {T : Tolerance} {R : Outcome Value → Outcome Value → Prop}
    (hR : ∀ o o', R o o' → o.failsAt c.pos = o'.failsAt c'.pos)
    (h : List.Forall₂ (fun p p' => T.Together R (p c) (p' c')) ps qs) (ho : R o o') :
    T.Together R (otherwise ps c o) (otherwise qs c' o') := by
  induction h generalizing o o' with
  | nil => exact Tolerance.together_pure ho
  | @cons p p' ps qs hp _ ih =>
    -- either both go on to the next alternatives or neither does
    have hat := hR o o' ho
    by_cases hfails : o.failsAt c.pos = true
    · rw [otherwise_cons hfails, otherwise_cons (hat ▸ hfails)]
      exact hp.bind fun o o' ho => ih ho
    · rw [otherwise_of_not_failsAt hfails, otherwise_of_not_failsAt (hat ▸ hfails)]
      exact Tolerance.together_pure ho

/-- After the same outcomes, alternatives come to the same. -/
theorem otherwise_alike (ps : List (Step σ)) (c : Context) (h : o.Same o') :
    (otherwise ps c o).Alike (otherwise ps c o') :=
  together_otherwise (fun _ _ h => h.failsAt_eq c.pos)
    (List.forall₂_same.mpr fun p _ => Action.Alike.refl (p c)) h

/-! ### Choices rewritten -/

/-- Alternatives that come to the same as others do so after every outcome. -/
theorem otherwise_congr (h : (choice ps c).Alike (choice qs c)) (o : Outcome Value) :
    (otherwise ps c o).Alike (otherwise qs c o) := by
  by_cases ho : o.failsAt c.pos = true
  · -- it makes no difference how the start is written
    have hstart : o.Same (.failure c.pos) := Outcome.same_of_failsAt ho (by simp)
    rw [choice_eq_otherwise, choice_eq_otherwise] at h
    exact (otherwise_alike ps c hstart).trans (h.trans (otherwise_alike qs c hstart).symm)
  · rw [otherwise_of_not_failsAt ho, otherwise_of_not_failsAt ho]
    exact .refl _

/-- Some alternatives among others can be replaced by some that come to the same. -/
theorem choice_congr (h : (choice qs c).Alike (choice rs c)) (before after : List (Step σ)) :
    (choice (before ++ qs ++ after) c).Alike (choice (before ++ rs ++ after) c) := by
  simp only [choice_append]
  apply Action.Alike.bind ?_ fun o o' ho => otherwise_alike after c ho
  apply (Action.Alike.refl _).bind
  intro o o' ho
  exact (otherwise_congr h o).trans (otherwise_alike rs c ho)

/-- **Groups of alternatives.** An alternative that is a choice itself can be replaced by its
    alternatives. -/
theorem choice_flatten (ps qs rs : List (Step σ)) (c : Context) :
    (choice (ps ++ choice qs :: rs) c).Alike (choice (ps ++ qs ++ rs) c) := by
  have hgroup : (choice [choice qs] c).Alike (choice qs c) := by
    rw [choice_singleton]
    exact .refl _
  rw [List.append_cons]
  exact choice_congr hgroup ps rs

/-- Alternatives that fail at the start, and do nothing else, change no outcome before them. -/
theorem otherwise_rejecting
    (hps : ∀ p ∈ ps, ∃ f : Outcome Value, f.failsAt c.pos = true ∧ p c = pure f)
    (o : Outcome Value) : (otherwise ps c o).Alike (pure o) := by
  induction ps generalizing o with
  | nil => exact .refl _
  | cons p ps ih =>
    rw [List.forall_mem_cons] at hps
    obtain ⟨⟨f, hf, hp⟩, hps⟩ := hps
    by_cases ho : o.failsAt c.pos = true
    · rw [otherwise_cons ho, hp, pure_bind]
      exact (ih hps f).trans (Action.alike_pure (Outcome.same_of_failsAt hf ho))
    · rw [otherwise_of_not_failsAt ho]
      exact .refl _

/-- Alternatives that only fail at the start may be left off at the end. -/
theorem otherwise_append_rejecting
    (hqs : ∀ q ∈ qs, ∃ f : Outcome Value, f.failsAt c.pos = true ∧ q c = pure f)
    (ps : List (Step σ)) (o : Outcome Value) :
    (otherwise (ps ++ qs) c o).Alike (otherwise ps c o) := by
  rw [otherwise_append, ← bind_pure (otherwise ps c o), bind_assoc]
  apply (Action.Alike.refl _).bind
  intro o o' ho
  exact (otherwise_rejecting hqs o).trans (Action.alike_pure ho)

/-- An alternative that was tried right before some others need not be tried right behind them. -/
theorem otherwise_again (hp : p.Ignores c) (qs : List (Step σ)) (o : Outcome Value) :
    (otherwise (p :: qs ++ [p]) c o).Alike (otherwise (p :: qs) c o) := by
  by_cases ho : o.failsAt c.pos = true
  · obtain ⟨r, hr⟩ := hp c.pos
    have hrun : p c = Action.ofExcept r := funext hr
    rw [List.cons_append, otherwise_cons ho, otherwise_cons ho, hrun]
    cases r with
    | error f => exact .refl _
    | ok f =>
      show (otherwise (qs ++ [p]) c f).Alike (otherwise qs c f)
      -- Only if the first attempt failed at the start, there can be a second one, and it fails
      -- again.
      by_cases hf : f.failsAt c.pos = true
      · apply otherwise_append_rejecting
        simpa using ⟨f, hf, hrun⟩
      · rw [otherwise_of_not_failsAt hf, otherwise_of_not_failsAt hf]
        exact .refl _
  · rw [otherwise_of_not_failsAt ho, otherwise_of_not_failsAt ho]
    exact .refl _

/-- **Repeated alternatives.** An alternative that ignores the user state need not be tried a second
    time. -/
theorem choice_again (hp : p.Ignores c) (ps qs rs : List (Step σ)) :
    (choice (ps ++ p :: qs ++ p :: rs) c).Alike (choice (ps ++ p :: qs ++ rs) c) := by
  rw [List.append_cons (ps ++ p :: qs), choice_append _ rs, choice_append _ rs, List.append_assoc,
    choice_append ps, choice_append ps]
  -- what stands before and behind is the same
  apply Action.Alike.bind ?_ fun o o' ho => otherwise_alike rs c ho
  apply (Action.Alike.refl _).bind
  intro o o' ho
  exact (otherwise_again hp qs o).trans (otherwise_alike (p :: qs) c ho)

end Step

/-! ### Alternatives of parsers -/

namespace Parser

variable [Memory σ] (setting : Setting σ)

/-- Alternatives are run as a choice, also if there is one or none. -/
theorem run_anyOf (ps : List (Parser σ)) :
    (anyOf ps).run setting = Step.choice (ps.map (run setting)) := by
  match ps with
  | [] =>
    rw [run_eq]
    rfl
  | [p] => exact funext fun c => (Step.choice_singleton (p.run setting) c).symm
  | p :: q :: ps =>
    rw [run_eq]
    show Step.choice (evalAll setting _ (p :: q :: ps)) = _
    rw [evalAll_run]

/-- **Choice is a monoid of ordered alternatives.** Wherever a choice is run, a group among its
    alternatives comes to the same as the alternatives of the group; so failure, which is the choice
    of none, changes nothing wherever it is put in; and neither does an alternative that ignores the
    user state, if it has been tried before. -/
theorem run_anyOf_monoid (ps qs rs : List (Parser σ)) (c : Context) :
    ((anyOf (ps ++ anyOf qs :: rs)).run setting c).Alike ((anyOf (ps ++ qs ++ rs)).run setting c) ∧
      ((anyOf (ps ++ .failure :: rs)).run setting c).Alike ((anyOf (ps ++ rs)).run setting c) ∧
      ∀ p : Parser σ, (p.run setting).Ignores c →
        ((anyOf (ps ++ p :: qs ++ p :: rs)).run setting c).Alike
        ((anyOf (ps ++ p :: qs ++ rs)).run setting c) := by
  have hgroup (qs : List (Parser σ)) :
      ((anyOf (ps ++ anyOf qs :: rs)).run setting c).Alike
      ((anyOf (ps ++ qs ++ rs)).run setting c) := by
    simp only [run_anyOf, List.map_append, List.map_cons]
    exact Step.choice_flatten _ _ _ c
  refine ⟨hgroup qs, ?_, fun p hp => ?_⟩
  · -- failure is the group of no alternatives
    have hnone := hgroup []
    rwa [List.append_nil] at hnone
  · simp only [run_anyOf, List.map_append, List.map_cons]
    exact Step.choice_again hp _ _ _

/-- Where one item is left, neither the end of the input is there nor two items, so the end is
    looked for a second time, which makes no difference to the item that is taken then. -/
theorem run_anyOf_monoid_items :
    let setting : Setting Session :=
      ⟨{}, { rule := fun _ _ => throw .missingKey, forward := fun _ => none }⟩
    let c := start (.sequence (.text #['b'])) { levels := 50 }
    let two : Parser Session := .attempt (.times 2 .anyItem)
    ((eof : Parser Session).run setting).Ignores c ∧
      (anyOf [.eof, two]).run setting c = pure (.failure (.position 0)) ∧
      ((anyOf [.eof, two, .eof, .anyItem]).run setting c).Alike
      ((anyOf [.eof, two, .anyItem]).run setting c) := by
  intro setting c two
  have heof : ((eof : Parser Session).run setting).Ignores c := by
    rw [run_eq]
    exact Step.ignores_leaf Leaf.eof c
  refine ⟨heof, ?_, (run_anyOf_monoid setting [] [two] [.anyItem] c).2.2 .eof heof⟩
  rw [run_anyOf]
  rfl

end Parser

end Itemwise
