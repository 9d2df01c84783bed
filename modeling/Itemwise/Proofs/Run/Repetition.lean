import Itemwise.Proofs.Run.Combinators

namespace Itemwise

/-!
# Repetitions in step

* `Coupling.Collects` — two runs of one sink stay alike, whatever it collects;
* `Coupling.Steps.many` — repetitions;
* `Coupling.Steps.chain` — operands joined by operators.

Both are loops: what is alike before a round is alike after it, and both runs see alike whether
there is another round.
-/

namespace Coupling

variable {K : Coupling} {σ : Type} {p p' : Step σ}

/-- Two runs of a sink stay alike, with `R` between what they have collected. -/
structure Collects [Memory σ] (K : Coupling) (sink : Sink σ)
    (R : sink.Acc → sink.Acc → Prop) : Prop where
  start : K.Together R sink.start sink.start
  push : ∀ a a' v v', R a a' → K.value v v' →
    K.Together (fun x x' => R x.1 x'.1 ∧ x.2 = x'.2) (sink.push a v) (sink.push a' v')
  finish : ∀ a a', R a a' → K.Together K.value (sink.finish a) (sink.finish a')

/-- Two repetitions that have come alike far. -/
structure SameTally (K : Coupling) {α : Type} (R : α → α → Prop) (c c' : Context)
    (t t' : Tally α) : Prop where
  pos : K.reaches c c' t.pos t'.pos
  count : t.count = t'.count
  dangling : t.dangling = t'.dangling
  acc : R t.acc t'.acc

/-- Two runs of elements that ended alike. -/
inductive SameGathered (K : Coupling) {α : Type} (R : α → α → Prop) (c c' : Context) :
    Gathered α → Gathered α → Prop
  | stopped {t t' : Tally α} (ht : K.SameTally R c c' t t') :
    SameGathered K R c c' (.stopped t) (.stopped t')
  | broken {x x' : Place} (hx : K.fails c c' x x') : SameGathered K R c c' (.broken x) (.broken x')

/-! ### Rounds -/

/-- Two loops have the same number of rounds left, or neither ever goes back and both have more than
    items left. -/
def Suffices (K : Coupling) (c c' : Context) (fuel fuel' q q' : Nat) : Prop :=
  fuel = fuel' ∨
    (∀ c c' q q', K.meets c c' → K.reaches c c' q q' → c.Reaches q ∧ c'.Reaches q') ∧
      c.items.size - q < fuel ∧ c'.items.size - q' < fuel'

/-- There are rounds enough for loops that start anywhere. -/
theorem suffices_mostRounds {c c' : Context} (hc : K.meets c c') (q q' : Nat) :
    K.Suffices c c' c.mostRounds c'.mostRounds q q' := by
  rcases K.rounds with hsame | hahead
  · exact .inl (hsame c c' hc)
  · exact .inr ⟨hahead, c.lt_mostRounds q, c'.lt_mostRounds q'⟩

/-- A loop that has rounds left does so beside one that has. -/
theorem Suffices.exists_succ {c c' : Context} {fuel fuel' q q' : Nat}
    (h : K.Suffices c c' (fuel + 1) fuel' q q') :
    ∃ left, fuel' = left + 1 := by
  rcases h with hsame | ⟨-, -, hfuel'⟩
  · exact ⟨fuel, hsame.symm⟩
  · exact ⟨fuel' - 1, by omega⟩

/-- Two loops run out of rounds together. -/
theorem Suffices.eq_zero {c c' : Context} {fuel' q q' : Nat} (h : K.Suffices c c' 0 fuel' q q') :
    fuel' = 0 := by
  rcases h with hsame | ⟨-, hfuel, -⟩
  · exact hsame.symm
  · omega

/-- A round that gets further leaves rounds enough. -/
theorem Suffices.next {c c' : Context} {fuel fuel' q q' r r' : Nat}
    (h : K.Suffices c c' (fuel + 1) (fuel' + 1) q q') (hc : K.meets (c.moveTo q) (c'.moveTo q'))
    (hr : K.reaches (c.moveTo q) (c'.moveTo q') r r') (hfurther : ¬ r' = q') :
    K.Suffices c c' fuel fuel' r r' := by
  rcases h with hsame | ⟨hahead, hfuel, hfuel'⟩
  · exact .inl (Nat.succ.inj hsame)
  · -- What is further in the second run is so in the first.
    have hmoved := eq_start_iff hc hr
    obtain ⟨⟨hqr, hrsize⟩, hqr', hrsize'⟩ := hahead _ _ _ _ hc hr
    simp only [Context.pos_moveTo, Context.items_moveTo] at hmoved hqr hrsize hqr' hrsize'
    refine .inr ⟨hahead, ?_, ?_⟩
    · omega
    · omega

/-- What comes after a round that got further leaves as many rounds. -/
theorem Suffices.later {c c' : Context} {fuel fuel' q q' r r' : Nat}
    (h : K.Suffices c c' fuel fuel' q q') (hc : K.meets (c.moveTo q) (c'.moveTo q'))
    (hr : K.reaches (c.moveTo q) (c'.moveTo q') r r') :
    K.Suffices c c' fuel fuel' r r' := by
  rcases h with hsame | ⟨hahead, hfuel, hfuel'⟩
  · exact .inl hsame
  · obtain ⟨⟨hqr, -⟩, hqr', -⟩ := hahead _ _ _ _ hc hr
    rw [Context.pos_moveTo] at hqr hqr'
    refine .inr ⟨hahead, ?_, ?_⟩
    · omega
    · omega

/-! ### Repetitions -/

/-- The rounds of two repetitions stay in step: each one starts where both runs meet again. -/
theorem together_gather [Memory σ] {sink : Sink σ} {R : sink.Acc → sink.Acc → Prop}
    (hsink : K.Collects sink R) (hp : K.Steps p p') {sep sep' : Option (Step σ)}
    (hsep : Option.Rel K.Steps sep sep') {c c' : Context} (hc : K.meets c c') (fuel fuel' : Nat)
    {t t' : Tally sink.Acc} (ht : K.SameTally R c c' t t')
    (hfuel : K.Suffices c c' fuel fuel' t.pos t'.pos) :
    K.Together (K.SameGathered R c c') (Step.gather p sep sink fuel c t)
      (Step.gather p' sep' sink fuel' c' t') := by
  -- On the rounds: whether there is another one is decided by what both runs have in common.
  induction fuel generalizing fuel' t t' with
  | zero =>
    rw [hfuel.eq_zero]
    exact Tolerance.together_throw K.endless
  | succ fuel ih =>
    obtain ⟨fuel', rfl⟩ := hfuel.exists_succ
    have hmeets := K.meets_moveTo hc ht.pos
    refine (hp _ _ hmeets).bind ?_
    rintro _ _ (⟨hv, hround⟩ | hx)
    · -- Both rounds consumed something, or neither did.
      have hstart := eq_start_iff hmeets hround
      simp only [Context.pos_moveTo] at hstart
      have hq := K.reaches_trans ht.pos hround
      simp only [hstart]
      split
      · exact Tolerance.together_pure (.stopped ht)
      · next hfurther =>
        have hfuel := hfuel.next hmeets hround hfurther
        refine (hsink.push _ _ _ _ ht.acc hv).bind ?_
        rintro ⟨acc, room⟩ ⟨acc', _⟩ ⟨hacc, rfl⟩
        cases room with
        | false =>
          exact Tolerance.together_pure (.stopped ⟨hq, congrArg (· + 1) ht.count, rfl, hacc⟩)
        | true =>
          rcases hsep with hs | _
          · have hmeets := K.meets_moveTo hc hq
            refine (hs _ _ hmeets).bind ?_
            rintro _ _ (⟨-, hr⟩ | hx)
            · exact ih fuel' ⟨K.reaches_trans hq hr, congrArg (· + 1) ht.count, rfl, hacc⟩
                (hfuel.later hmeets hr)
            · simp only [isAt_eq_moveTo hc hq hx]
              split
              · exact Tolerance.together_pure (.stopped ⟨hq, congrArg (· + 1) ht.count, rfl, hacc⟩)
              · exact Tolerance.together_pure (.broken (K.fails_trans hq hx))
          · exact ih fuel' ⟨hq, congrArg (· + 1) ht.count, rfl, hacc⟩ hfuel
    · simp only [isAt_eq_moveTo hc ht.pos hx]
      split
      · exact Tolerance.together_pure (.stopped ht)
      · exact Tolerance.together_pure (.broken (K.fails_trans ht.pos hx))

/-- Repetitions stay in step if their elements, separators and sinks do. -/
theorem Steps.many [Memory σ] {sink : Sink σ} {R : sink.Acc → sink.Acc → Prop}
    (hsink : K.Collects sink R) (hp : K.Steps p p') {sep sep' : Option (Step σ)}
    (hsep : Option.Rel K.Steps sep sep') (allowTrailing : Bool) (atLeast : Nat) :
    K.Steps (Step.many p sep allowTrailing sink atLeast)
      (Step.many p' sep' allowTrailing sink atLeast) := by
  intro c c' hc
  refine hsink.start.bind fun acc acc' hacc => ?_
  have hstart : K.SameTally R c c' ⟨c.pos, 0, false, acc⟩ ⟨c'.pos, 0, false, acc'⟩ :=
    ⟨K.reaches_start hc, rfl, rfl, hacc⟩
  refine (together_gather hsink hp hsep hc _ _ hstart (suffices_mostRounds hc _ _)).bind ?_
  rintro _ _ (⟨⟨hq, hcount, hdangling, hacc⟩⟩ | hx)
  · have hfail : K.Ends K.value c c' (.failure _) (.failure _) := .failure (K.fails_position hq)
    simp only [hcount, hdangling]
    split
    · exact Tolerance.together_pure hfail
    · split
      · exact Tolerance.together_pure hfail
      · split
        · exact (K.slice hc hq).together.bind fun w w' hw =>
            Tolerance.together_pure (.success hw hq)
        · exact (hsink.finish _ _ hacc).bind fun w w' hw => Tolerance.together_pure (.success hw hq)
  · exact Tolerance.together_pure (.failure hx)

/-- Further operands stay in step. -/
theorem together_foldRounds {op op' : Step σ} (hp : K.Steps p p') (hop : K.Steps op op')
    {combine combine' : Value → Value → Value → Action σ Value}
    (hcombine : ∀ f f' v v' w w', K.value f f' → K.value v v' → K.value w w' →
      K.Together K.value (combine f v w) (combine' f' v' w'))
    {c c' : Context} (hc : K.meets c c') (fuel fuel' : Nat) {v v' : Value}
    (hv : K.value v v') {q q' : Nat} (hq : K.reaches c c' q q')
    (hfuel : K.Suffices c c' fuel fuel' q q') :
    K.Together (K.Ends K.value c c') (Step.foldRounds p op combine fuel c v q)
      (Step.foldRounds p' op' combine' fuel' c' v' q') := by
  induction fuel generalizing fuel' v v' q q' with
  | zero =>
    rw [hfuel.eq_zero]
    exact Tolerance.together_throw K.endless
  | succ fuel ih =>
    obtain ⟨fuel', rfl⟩ := hfuel.exists_succ
    have hmeets := K.meets_moveTo hc hq
    refine (hop _ _ hmeets).bind ?_
    rintro _ _ (⟨hf, hr⟩ | hx)
    · have hr' := K.reaches_trans hq hr
      have hmeets' := K.meets_moveTo hc hr'
      refine (hp _ _ hmeets').bind ?_
      rintro _ _ (⟨hw, hs⟩ | hx)
      · -- The operator and its operand are one round.
        have hround := K.reaches_trans hr hs
        have hs := K.reaches_trans hr' hs
        have hstill := eq_iff hs hq
        simp only [hstill]
        split
        · exact Tolerance.together_pure (.success hv hq)
        · next hfurther =>
          have hfuel := hfuel.next hmeets hround hfurther
          exact (hcombine _ _ _ _ _ _ hf hv hw).bind fun u u' hu => ih fuel' hu hs hfuel
      · simp only [isAt_eq_moveTo hc hr' hx]
        split
        · exact Tolerance.together_pure (.success hv hq)
        · exact Tolerance.together_pure (.failure (K.fails_trans hr' hx))
    · simp only [isAt_eq_moveTo hc hq hx]
      split
      · exact Tolerance.together_pure (.success hv hq)
      · exact Tolerance.together_pure (.failure (K.fails_trans hq hx))

/-- Chains stay in step if their operands and operators do, and related values are combined
    alike. -/
theorem Steps.chain {op op' : Step σ} (hp : K.Steps p p') (hop : K.Steps op op')
    {combine combine' : Value → Value → Value → Action σ Value}
    (hcombine : ∀ f f' v v' w w', K.value f f' → K.value v v' → K.value w w' →
      K.Together K.value (combine f v w) (combine' f' v' w')) :
    K.Steps (Step.chain p op combine) (Step.chain p' op' combine') := by
  intro c c' hc
  refine (hp c c' hc).bind ?_
  rintro _ _ (⟨hv, hq⟩ | hx)
  · exact together_foldRounds hp hop hcombine hc _ _ hv hq (suffices_mostRounds hc _ _)
  · exact Tolerance.together_pure (.failure hx)

end Coupling

end Itemwise
