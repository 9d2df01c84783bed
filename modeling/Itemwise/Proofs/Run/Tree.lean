import Itemwise.Proofs.Run.Parts
import Itemwise.Proofs.Run.Repetition

namespace Itemwise

/-!
# Trees in step

Two runs of one parser stay in step if they do so in what the parser does not do by way of its
parts: what it reads off the input, the functions that a caller has put into it, and the recursive
parsers that it enters.

* `Coupling.Covers` — that much, for every parser of some kind;
* `Coupling.Covers.steps_eval` — hence two runs of every tree of such parsers are in step;
* `Coupling.Covers.ofSame` — what is left to show where values are the same only if they are equal.
-/

namespace Coupling

variable {σ : Type} [Memory σ]

/-- Runs of the parsers of a kind stay in step in all that they do not do by way of their parts. -/
structure Covers (K : Coupling) (P : Parser σ → Prop) (setting : Setting σ)
    (next next' : Parser σ → Step σ) : Prop where
  leaf : ∀ p l, P p → p.leaf? = some l → ∀ c c' (s : σ), K.meets c c' →
    K.Agree (K.Ends K.value c c') (l (Memory.whole s) c) (l (Memory.whole s) c')
  raw : ∀ run name, P (.raw run name) → K.Steps run run
  unbuilt : ∀ f, P (.unbuilt f) → K.shared f
  map : ∀ p f, P (.map p f) → ∀ v v', K.value v v' → K.Together K.value (f v) (f v')
  mapIf : ∀ p f, P (.mapIf p f) → ∀ v v', K.value v v' → K.Together K.valueOrNull (f v) (f v')
  liftToState : ∀ f p, P (.liftToState f p) → ∀ v v', K.value v v' → K.Together K.value (f v) (f v')
  filter : ∀ p test, P (.filter p test) → ∀ v v' (s : σ), K.value v v' →
    K.Agree (· = ·) (test (Memory.whole s v)) (test (Memory.whole s v'))
  notEmpty : ∀ p, P (.notEmpty p) → ∀ v v' (s : σ), K.value v v' →
    K.Agree (fun m n => m = 0 ↔ n = 0) (Memory.surface s v).length (Memory.surface s v').length
  bind : ∀ p f, P (.bind p f) → ∀ v v' (config : Config) (s : σ), K.value v v' →
    f config s v = f config s v'
  sequence : ∀ kind ps, P (.sequence kind ps) → ∀ vs vs', List.Forall₂ K.value vs vs' →
    K.Together K.value (kind.combine vs) (kind.combine vs')
  choose : ∀ p arms default, P (.choose p arms default) → ∀ arm ∈ arms, ∀ v v' (s : σ),
    K.value v v' → K.Agree (· = ·) (arm.1 (Memory.whole s v)) (arm.1 (Memory.whole s v'))
  measure : ∀ m p, P (.measure m p) → ∀ c c' v v' q q', K.meets c c' → K.value v v' →
    K.reaches c c' q q' →
    K.Agree K.value (m.report c v q) (m.report c' v' q')
  many : ∀ p separator trailing sink n, P (.many p separator trailing sink n) →
    ∃ R, K.Collects sink R
  chain : ∀ p op combine, P (.chain p op combine) → ∀ f f' v v' w w', K.value f f' → K.value v v' →
    K.value w w' → K.Together K.value (combine f v w) (combine f' v' w')
  defer : ∀ rule, K.Steps (Step.descend (setting.grammar.rule rule setting.config) next)
    (Step.descend (setting.grammar.rule rule setting.config) next')
  forward : ∀ name, K.Steps (Step.forward name (setting.grammar.forward name) next)
    (Step.forward name (setting.grammar.forward name) next')

variable {K : Coupling} {P : Parser σ → Prop} {setting : Setting σ} {next next' : Parser σ → Step σ}

/-- The steps of several parts are in step. -/
theorem forall₂_evalAll {ps : List (Parser σ)}
    (h : ∀ p ∈ ps, K.Steps (Parser.eval setting next p) (Parser.eval setting next' p)) :
    List.Forall₂ K.Steps (Parser.evalAll setting next ps) (Parser.evalAll setting next' ps) := by
  rw [Parser.evalAll_eq_map, Parser.evalAll_eq_map, List.forall₂_map_left_iff,
    List.forall₂_map_right_iff, List.forall₂_same]
  exact h

/-- A default is in step if there is one and it is. -/
theorem rel_evalOption {p : Option (Parser σ)}
    (h : ∀ q, p = some q → K.Steps (Parser.eval setting next q) (Parser.eval setting next' q)) :
    Option.Rel K.Steps (Parser.evalOption setting next p) (Parser.evalOption setting next' p) := by
  cases p with
  | none => exact .none
  | some q => exact .some (h q rfl)

/-- Two runs of a tree are in step, part by part. -/
theorem Covers.steps_eval (hK : K.Covers P setting next next') {p : Parser σ} (hp : p.Each P) :
    K.Steps (Parser.eval setting next p) (Parser.eval setting next' p) := by
  -- On the tree; recursive parsers are no parts of it, and are in step by assumption.
  induction hp with
  | @node p h _ ih =>
    cases hl : p.leaf? with
    | some l =>
      rw [Parser.eval_of_leaf? setting next hl, Parser.eval_of_leaf? setting next' hl]
      intro c c' hc
      refine Tolerance.together_get.bind ?_
      rintro s _ rfl
      exact (hK.leaf p l h hl c c' s hc).together
    | none =>
      cases p with
      | raw run name => exact hK.raw run name h
      | unbuilt f => exact fun _ _ _ => Tolerance.together_throw (hK.unbuilt f h)
      | map p f => exact (ih p .map).map (hK.map p f h)
      | mapIf p f => exact (ih p .mapIf).mapIf (hK.mapIf p f h)
      | filter p test => exact (ih p .filter).filter (hK.filter p test h)
      | notEmpty p => exact (ih p .notEmpty).notEmpty (hK.notEmpty p h)
      | bind p f =>
        refine (ih p .bound).bind fun v v' s hv => ?_
        rw [hK.bind p f h v v' setting.config s hv]
        exact ih _ (.next setting.config s v')
      | liftToState f p => exact (ih p .liftToState).map (hK.liftToState f p h)
      | sequence kind ps =>
        exact .sequence (forall₂_evalAll fun p hp => ih p (.sequence hp)) (hK.sequence kind ps h)
      | times n p => exact (ih p .times).times n
      | choice ps => exact .choice (forall₂_evalAll fun p hp => ih p (.choice hp))
      | greedyChoice ps => exact .greedyChoice (forall₂_evalAll fun p hp => ih p (.greedyChoice hp))
      | choose p arms default =>
        refine (ih p .chosenBy).choose ?_ (rel_evalOption ?_)
        · intro v v' s hv
          rw [Parser.evalArms_eq_map, Parser.evalArms_eq_map, List.forall₂_map_left_iff,
            List.forall₂_map_right_iff, List.forall₂_same]
          exact fun arm harm =>
            ⟨hK.choose p arms default h arm harm v v' s hv, ih arm.2 (.arm harm)⟩
        · rintro q rfl
          exact ih q .default
      | attempt p => exact (ih p .attempt).attempt
      | optional p => exact (ih p .optional).optional
      | peek p => exact (ih p .peek).peek
      | notFollowedBy p => exact (ih p .notFollowedBy).notFollowedBy
      | measure m p => exact (ih p .measure).measure (hK.measure m p h)
      | eat p => exact (ih p .eat).eat
      | many p separator trailing sink n =>
        obtain ⟨R, hsink⟩ := hK.many p separator trailing sink n h
        refine (ih p .element).many hsink (rel_evalOption ?_) trailing n
        rintro q rfl
        exact ih q .separator
      | chain p op combine =>
        exact (ih p .operand).chain (ih op .operator) (hK.chain p op combine h)
      | defer rule label => exact hK.defer rule
      | forward name => exact hK.forward name
      | named p name => exact ih p .named
      | inState s p => exact (ih p .inState).inState s
      | _ => cases hl

end Coupling

end Itemwise
