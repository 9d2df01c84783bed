import Itemwise.Proofs.Run.Nesting

namespace Itemwise

/-!
# Runs unfolded

A run may descend as often as its context allows, so a parser runs by running its parts, and the
recursive parsers that it enters are run in the same way: `Parser.run_eq`.  The parts of a parser
then run as they do on their own: `Parser.eval_run`.
-/

namespace Coupling

/-- A run beside itself, from contexts that allow some number of levels. -/
def atLevel (levels : Nat) : Coupling := Abreast.coupling {
  shared _ := True
  excused _ := False
  meets c c' := c = c' ∧ c.levels = levels
  value v v' := v = v'
  endless := trivial
  null := rfl
  pos_eq := by
    rintro c _ ⟨rfl, -⟩
    rfl
  moveTo := by
    rintro c _ q ⟨rfl, hlevels⟩
    exact ⟨rfl, hlevels⟩
  rounds := by
    rintro c _ ⟨rfl, -⟩
    rfl
  slice := by
    rintro c _ q ⟨rfl, -⟩
    exact Tolerance.agree_refl (fun _ => rfl) (fun _ => trivial) _
  blanks := by
    rintro c _ ⟨rfl, -⟩
    exact Tolerance.agree_refl (fun _ => rfl) (fun _ => trivial) _ }

variable {levels : Nat} {σ : Type}

/-- What both runs do alike is in step. -/
theorem steps_atLevel {p p' : Step σ} (h : ∀ c, c.levels = levels → p c = p' c) :
    (atLevel levels).Steps p p' := by
  rintro c _ ⟨rfl, hlevels⟩
  rw [h c hlevels]
  exact Tolerance.together_refl (Abreast.ends_self fun _ => rfl) (fun _ => trivial) _

/-- Two steps that are in step do the same. -/
theorem Steps.eq_atLevel {p p' : Step σ} {c : Context} (h : (atLevel c.levels).Steps p p') :
    p c = p' c :=
  funext fun _ => Abreast.eq_of_together (fun _ _ => id) (h c c ⟨rfl, rfl⟩) fun _ _ _ => id

/-- An entry into a recursive parser leaves one level less, which is what both runs count with. -/
theorem steps_descend_atLevel [Memory σ] {setting : Setting σ} (target : Action σ (Parser σ)) :
    (atLevel levels).Steps (Step.descend target (Parser.deeper setting levels))
      (Step.descend target (Parser.run setting)) := by
  refine steps_atLevel fun c hlevels => ?_
  unfold Step.descend
  by_cases h : c.isDepthExceeded = true
  · rw [if_pos h, if_pos h]
  · rw [if_neg h, if_neg h]
    congr 1
    funext p
    rw [← hlevels, Context.levels_eq_succ h]
    rfl

end Coupling

/-- **A run unfolds.** A parser runs by running its parts and the recursive parsers that it
    enters. -/
theorem Parser.run_eq {σ : Type} [Memory σ] (setting : Setting σ) (p : Parser σ) :
    p.run setting = p.eval setting (Parser.run setting) := by
  -- From a context, both sides count the same levels, and they differ only in how they count the
  -- next one.
  funext c
  show runWithin setting c.levels p c = _
  rw [runWithin_eq]
  refine Coupling.Steps.eq_atLevel
    (Coupling.Covers.steps_eval ?_ (each_of_forall (fun _ => trivial) p))
  refine Coupling.Covers.ofSame (fun _ _ => Iff.rfl) (fun _ _ => trivial)
    (fun p _ => p.raisesOnly_true) ?_ ?_ ?_ ?_ ?_
  · rintro p l - - c _ s ⟨rfl, -⟩
    exact Tolerance.agree_refl (Abreast.ends_self fun _ => rfl) (fun _ => trivial) _
  · exact fun run name _ => Coupling.steps_atLevel fun _ _ => rfl
  · rintro m p - c _ v q _ ⟨rfl, -⟩ rfl
    exact Tolerance.agree_refl (fun _ => rfl) (fun _ => trivial) _
  · exact fun rule => Coupling.steps_descend_atLevel _
  · intro name
    unfold Step.forward
    cases setting.grammar.forward name with
    | none => exact Coupling.steps_atLevel fun _ _ => rfl
    | some p => exact Coupling.steps_descend_atLevel _

namespace Parser

variable {σ : Type} [Memory σ] (setting : Setting σ)

/-! The parts of a parser run as they do on their own. -/

/-- Evaluating a tree whose references are run comes to its run. -/
theorem eval_run : eval setting (run setting) = run setting :=
  funext fun p => (run_eq setting p).symm

/-- The same for the members of a list. -/
theorem evalAll_run (ps : List (Parser σ)) :
    evalAll setting (run setting) ps = ps.map (run setting) := by
  rw [evalAll_eq_map, eval_run]

/-- The same for the arms of a choice by value. -/
theorem evalArms_run (arms : List (Test × Parser σ)) :
    evalArms setting (run setting) arms = arms.map fun arm => (arm.1, arm.2.run setting) := by
  rw [evalArms_eq_map, eval_run]

/-- The same for its default. -/
theorem evalOption_run (p : Option (Parser σ)) :
    evalOption setting (run setting) p = p.map (run setting) := by
  cases p with
  | none => rfl
  | some p => exact congrArg some (run_eq setting p).symm

/-- A parser that is made of no others does what its leaf does, and leaves the user state as it
    is. -/
theorem run_leaf {p : Parser σ} {l : (Value → Value) → Leaf} (h : p.leaf? = some l)
    (c : Context) (s : σ) :
    p.run setting c s = (Action.ofExcept (l (Memory.whole s) c) : Action σ (Outcome Value)) s := by
  rw [run_eq, eval_of_leaf? setting _ h]
  rfl

end Parser

end Itemwise
