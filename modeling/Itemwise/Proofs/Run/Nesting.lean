import Itemwise.Proofs.Run.Same

namespace Itemwise

/-!
# Runs of recursive parsers in step

* `Parser.deeper` — the steps of the parsers one level deeper;
* `Coupling.Nests` — two runs stay alike where they enter recursive parsers, and the limit stops
  both or excuses the second;
* `Coupling.Nests.steps_rule`, `Coupling.Nests.steps_forward` — they enter a rule and a forward
  declaration in step;
* `Coupling.Nests.steps_run` — two runs of a parser are in step, by induction on the levels that the
  first may descend.
-/

namespace Context

/-- How many levels a run may descend from a context. -/
def levels (c : Context) : Nat := (c.maxDepth - c.depth).toNat

/-- The limit is exceeded where the depth has reached its levels. -/
theorem isDepthExceeded_iff {c : Context} : c.isDepthExceeded = true ↔ c.limit.levels ≤ c.depth :=
  decide_eq_true_iff

/-- An entry into a recursive parser takes a level, of which there is one unless the limit is
    reached. -/
theorem levels_eq_succ {c : Context} (h : ¬ c.isDepthExceeded = true) :
    c.levels = c.enter.levels + 1 := by
  rw [isDepthExceeded_iff] at h
  simp only [levels, maxDepth, enter]
  omega

end Context

namespace Parser

variable {σ : Type} [Memory σ]

/-- The steps of the parsers one level deeper, for a run that may descend `levels` times. -/
def deeper (setting : Setting σ) : (levels : Nat) → Parser σ → Step σ
  | 0 => fun _ c => throw c.limit.refusal
  | levels + 1 => runWithin setting levels

/-- A run with some levels is an evaluation that enters recursive parsers with one level less. -/
theorem runWithin_eq (setting : Setting σ) (levels : Nat) (p : Parser σ) :
    runWithin setting levels p = eval setting (deeper setting levels) p := by
  cases levels <;> rfl

end Parser

namespace Coupling

variable {K : Coupling} {σ : Type}

/-- Both runs have the same limit. -/
def SameLimit (K : Coupling) : Prop :=
  ∀ c c', K.meets c c' → c'.depth = c.depth ∧ c'.limit = c.limit ∧ K.shared c.limit.refusal

/-- The limit of the first run is the lower one, and reaching it excuses the second. -/
def LowerLimit (K : Coupling) : Prop :=
  ∀ c c', K.meets c c' → c'.depth = c.depth ∧ c.limit.levels ≤ c'.limit.levels ∧
    K.excused c.limit.refusal

/-- Two runs stay alike where they enter recursive parsers. -/
structure Nests (K : Coupling) : Prop where
  enter : ∀ {c c'}, K.meets c c' → K.meets c.enter c'.enter
  reaches_enter : ∀ {c c' q q'}, K.reaches c.enter c'.enter q q' → K.reaches c c' q q'
  fails_enter : ∀ {c c' x x'}, K.fails c.enter c'.enter x x' → K.fails c c' x x'
  limits : K.SameLimit ∨ K.LowerLimit

/-- If the second run has reached its limit, so has the first. -/
theorem Nests.exceeded (hK : K.Nests) {c c' : Context} (hc : K.meets c c')
    (h : c'.isDepthExceeded = true) :
    c.isDepthExceeded = true := by
  rw [Context.isDepthExceeded_iff] at h ⊢
  rcases hK.limits with hsame | hlower
  · obtain ⟨hdepth, hlimit, -⟩ := hsame c c' hc
    rwa [hdepth, hlimit] at h
  · obtain ⟨hdepth, hlimit, -⟩ := hlower c c' hc
    omega

/-- At the limit of the first run both runs are refused, or the second is excused. -/
theorem Nests.together_refusal (hK : K.Nests) {c c' : Context} (hc : K.meets c c') {α : Type}
    {R : α → α → Prop} {a : Action σ α} (ha : K.SameLimit → a = throw c'.limit.refusal) :
    K.Together R (throw c.limit.refusal : Action σ α) a := by
  rcases hK.limits with hsame | hlower
  · obtain ⟨-, hlimit, hshared⟩ := hsame c c' hc
    rw [ha hsame, hlimit]
    exact Tolerance.together_throw hshared
  · exact fun _ => .inl (hlower c c' hc).2.2

variable {P : Parser σ → Prop}

/-- Two runs enter one parser in step. -/
theorem Nests.steps_descend (hK : K.Nests) {target : Action σ (Parser σ)}
    (htarget : K.Together (fun p p' => p = p' ∧ p.Each P) target target)
    {next next' : Parser σ → Step σ} (hnext : ∀ p, p.Each P → K.Steps (next p) (next' p)) :
    K.Steps (Step.descend target next) (Step.descend target next') := by
  intro c c' hc
  unfold Step.descend
  by_cases h : c.isDepthExceeded = true
  · -- Under one limit the second run is refused too; under a lower one it may go on, and is
    -- excused.
    rw [if_pos h]
    refine hK.together_refusal hc fun hsame => if_pos ?_
    obtain ⟨hdepth, hlimit, -⟩ := hsame c c' hc
    rwa [Context.isDepthExceeded_iff, hdepth, hlimit, ← Context.isDepthExceeded_iff]
  · rw [if_neg h, if_neg fun h' => h (hK.exceeded hc h')]
    refine htarget.bind ?_
    rintro p _ ⟨rfl, hp⟩
    refine (hnext p hp _ _ (hK.enter hc)).imp fun o o' ho => ?_
    cases ho with
    | success hv hq => exact .success hv (hK.reaches_enter hq)
    | failure hx => exact .failure (hK.fails_enter hx)

variable {setting : Setting σ}

/-- Two runs enter the parser of a rule in step. -/
theorem Nests.steps_rule (hK : K.Nests) (hsetting : setting.Each P) {rule : Rule}
    (hraises : (setting.grammar.rule rule setting.config).RaisesOnly K.shared)
    {next next' : Parser σ → Step σ} (hnext : ∀ p, p.Each P → K.Steps (next p) (next' p)) :
    K.Steps (Step.descend (setting.grammar.rule rule setting.config) next)
      (Step.descend (setting.grammar.rule rule setting.config) next') :=
  hK.steps_descend (Tolerance.together_self hraises fun s p t hp =>
    ⟨rfl, hsetting.rule rule s p t hp⟩) hnext

/-- Two runs enter the parser of a forward declaration in step, or both find it undefined. -/
theorem Nests.steps_forward (hK : K.Nests) (hsetting : setting.Each P)
    (hundefined : ∀ name, K.shared (.forwardUndefined name)) {next next' : Parser σ → Step σ}
    (hnext : ∀ p, p.Each P → K.Steps (next p) (next' p)) (name : String) :
    K.Steps (Step.forward name (setting.grammar.forward name) next)
      (Step.forward name (setting.grammar.forward name) next') := by
  unfold Step.forward
  cases hp : setting.grammar.forward name with
  | none => exact fun _ _ _ => Tolerance.together_throw (hundefined name)
  | some p =>
    exact hK.steps_descend (Tolerance.together_pure ⟨rfl, hsetting.forward name p hp⟩) hnext

variable [Memory σ]

/-- Two runs that descend by one parser are in step, for the same levels and, below a lower limit,
    for more. -/
theorem Nests.steps_runWithin (hK : K.Nests)
    (hcovers : ∀ next next', (∀ p, p.Each P → K.Steps (next p) (next' p)) →
      K.Covers P setting next next')
    {m n : Nat} (hmn : m = n ∨ m ≤ n ∧ K.LowerLimit) {p : Parser σ} (hp : p.Each P) :
    K.Steps (Parser.runWithin setting m p) (Parser.runWithin setting n p) := by
  -- On the levels of the first run: the parsers one level deeper are in step for one level less.
  induction m generalizing n p with
  | zero =>
    rw [Parser.runWithin_eq, Parser.runWithin_eq]
    refine (hcovers _ _ fun q _ c c' hc => ?_).steps_eval hp
    rcases hmn with rfl | ⟨-, hlower⟩
    · exact hK.together_refusal hc fun _ => rfl
    · exact fun _ => .inl (hlower c c' hc).2.2
  | succ m ih =>
    obtain ⟨n, rfl⟩ : ∃ k, n = k + 1 := ⟨n - 1, by omega⟩
    rw [Parser.runWithin_eq, Parser.runWithin_eq]
    refine (hcovers _ _ fun q hq => ?_).steps_eval hp
    exact ih (hmn.imp Nat.succ.inj fun h => ⟨Nat.le_of_succ_le_succ h.1, h.2⟩) hq

/-- Two runs of a parser are in step. -/
theorem Nests.steps_run (hK : K.Nests)
    (hcovers : ∀ next next', (∀ p, p.Each P → K.Steps (next p) (next' p)) →
      K.Covers P setting next next')
    {p : Parser σ} (hp : p.Each P) : K.Steps (Parser.run setting p) (Parser.run setting p) := by
  intro c c' hc
  refine hK.steps_runWithin hcovers ?_ hp c c' hc
  -- Each run starts with the levels that its own context leaves.
  rcases hK.limits with hsame | hlower
  · obtain ⟨hdepth, hlimit, -⟩ := hsame c c' hc
    exact .inl (by rw [Context.maxDepth, Context.maxDepth, hdepth, hlimit])
  · obtain ⟨hdepth, hlimit, -⟩ := hlower c c' hc
    have hlevels : c.maxDepth - c.depth ≤ c'.maxDepth - c'.depth := by
      rw [hdepth]
      exact Int.sub_le_sub_right hlimit _
    exact .inr ⟨Int.toNat_le_toNat hlevels, hlower⟩

end Coupling

end Itemwise
