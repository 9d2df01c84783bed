import Itemwise.Parser.Parse
import Itemwise.Proofs.Run.Unfolding

namespace Itemwise

/-!
# Runs on a stack

A run on a stack of bounded height is given up where it needs more than there is.  Until then it
does what every run does, so the results on runs are results on those that are not given up.

* `Coupling.givingUp` — two runs of which the first may be given up;
* `Coupling.steps_framed` — a tree below some frames of the stack, beside the tree as it is;
* `Parser.runOnStack_eq`, `Parser.runFrom_eq` — a run that is not given up, is the run;
* `Parser.parseValue_eq` — and so is a parse.
-/

namespace Coupling

/-- Two runs from one context.  Once the first is given up, the second may do anything. -/
def givingUp : Coupling := Abreast.coupling {
  shared _ := True
  excused f := f = .endless
  meets c c' := c = c'
  value v v' := v = v'
  endless := trivial
  null := rfl
  pos_eq := by
    rintro c _ rfl
    rfl
  moveTo := by
    rintro c _ q rfl
    rfl
  rounds := by
    rintro c _ rfl
    rfl
  slice := by
    rintro c _ q rfl
    exact Tolerance.agree_refl (fun _ => rfl) (fun _ => trivial) _
  blanks := by
    rintro c _ rfl
    exact Tolerance.agree_refl (fun _ => rfl) (fun _ => trivial) _ }

variable {σ : Type}

/-- Every step is in step with itself. -/
theorem steps_givingUp (p : Step σ) : givingUp.Steps p p := by
  rintro c _ rfl
  exact Tolerance.together_refl (Abreast.ends_self fun _ => rfl) (fun _ => trivial) _

/-- What is given up at once is in step with anything. -/
theorem steps_endless (p : Step σ) : givingUp.Steps (fun _ => throw .endless) p :=
  fun _ _ _ _ => .inl rfl

variable {setting : Setting σ} {next next' : Parser σ → Step σ}

/-- An entry into a recursive parser is in step if the recursive parsers are. -/
theorem steps_descend_givingUp (target : Action σ (Parser σ))
    (hnext : ∀ p, givingUp.Steps (next p) (next' p)) :
    givingUp.Steps (Step.descend target next) (Step.descend target next') := by
  rintro c _ rfl
  unfold Step.descend
  split
  · exact Tolerance.together_throw trivial
  · refine (Tolerance.together_refl (R := (· = ·)) (fun _ => rfl) (fun _ => trivial) target).bind ?_
    rintro p _ rfl
    -- one level deeper, the runs come to the same places
    exact (hnext p _ _ rfl).imp fun o o' h => by
      cases h with
      | success hv hq => exact .success hv hq
      | failure hx => exact .failure hx

/-- Evaluations stay in step in all that they do not do by way of their parts. -/
theorem covers_givingUp [Memory σ] (hnext : ∀ p, givingUp.Steps (next p) (next' p)) :
    givingUp.Covers (fun _ => True) setting next next' := by
  refine Covers.ofSame (fun _ _ => Iff.rfl) (fun _ _ => trivial) (fun p _ => p.raisesOnly_true)
    ?_ ?_ ?_ ?_ ?_
  · rintro p l - - c _ s rfl
    exact Tolerance.agree_refl (Abreast.ends_self fun _ => rfl) (fun _ => trivial) _
  · exact fun run name _ => steps_givingUp run
  · rintro m p - c _ v q _ rfl rfl
    exact Tolerance.agree_refl (fun _ => rfl) (fun _ => trivial) _
  · exact fun rule => steps_descend_givingUp _ hnext
  · intro name
    unfold Step.forward
    cases setting.grammar.forward name with
    | none => exact steps_givingUp _
    | some p => exact steps_descend_givingUp _ hnext

end Coupling

namespace Parser

variable {σ : Type} (setting : Setting σ) (room : Nat) (enter : Nat → Parser σ → Step σ)

/-- Frames are counted in each member of a list on its own. -/
theorem framedAll_eq_map (frames : Nat) (ps : List (Parser σ)) :
    framedAll setting room enter frames ps = ps.map (framed setting room enter frames) := by
  induction ps with
  | nil => rfl
  | cons p ps ih => rw [framedAll, ih, List.map_cons]

/-- The same for the arms of a choice by value, which keep their tests. -/
theorem framedArms_eq_map (frames : Nat) (arms : List (Test × Parser σ)) :
    framedArms setting room enter frames arms =
      arms.map fun arm => (arm.1, framed setting room enter frames arm.2) := by
  induction arms with
  | nil => rfl
  | cons arm arms ih => rw [framedArms, ih, List.map_cons]

/-- The same for its default. -/
theorem framedOption_eq_map (frames : Nat) (p : Option (Parser σ)) :
    framedOption setting room enter frames p = p.map (framed setting room enter frames) := by
  cases p <;> rfl

/-- A parser that encloses no other needs room for itself. -/
theorem framed_of_leaf? {p : Parser σ} {l : (Value → Value) → Leaf} (h : p.leaf? = some l)
    (frames : Nat) :
    framed setting room enter frames p = if frames < room then p else .unbuilt .endless := by
  cases p with
  | raw | unbuilt | map | mapIf | filter | notEmpty | bind | liftToState | sequence | times
  | choice | greedyChoice | choose | attempt | optional | peek | notFollowedBy | measure | eat
  | many | chain | defer | forward | named | inState => cases h
  | _ => rfl

end Parser

namespace Coupling

section Framed

variable {σ : Type} [Memory σ] {setting : Setting σ} {room : Nat} {enter : Nat → Parser σ → Step σ}
variable {next next' : Parser σ → Step σ}

/-- A parser that has to have room for itself is in step with one that has. -/
theorem steps_needing {p : Parser σ}
    (h : givingUp.Steps (Parser.eval setting next p) (Parser.eval setting next' p)) (frames : Nat) :
    givingUp.Steps (Parser.eval setting next (if frames < room then p else .unbuilt .endless))
      (Parser.eval setting next' p) := by
  split
  · exact h
  · exact steps_endless _

/-- The members of a list are in step if each is. -/
theorem forall₂_framedAll {frames : Nat} {ps : List (Parser σ)}
    (h : ∀ p ∈ ps, givingUp.Steps
      (Parser.eval setting next (Parser.framed setting room enter frames p))
      (Parser.eval setting next' p)) :
    List.Forall₂ givingUp.Steps
      (Parser.evalAll setting next (Parser.framedAll setting room enter frames ps))
      (Parser.evalAll setting next' ps) := by
  rw [Parser.evalAll_eq_map, Parser.evalAll_eq_map, Parser.framedAll_eq_map,
    List.forall₂_map_left_iff, List.forall₂_map_left_iff, List.forall₂_map_right_iff,
      List.forall₂_same]
  exact h

/-- A default is in step if there is one and it is. -/
theorem rel_framedOption {frames : Nat} {p : Option (Parser σ)}
    (h : ∀ q, p = some q → givingUp.Steps
      (Parser.eval setting next (Parser.framed setting room enter frames q))
      (Parser.eval setting next' q)) :
    Option.Rel givingUp.Steps
      (Parser.evalOption setting next (Parser.framedOption setting room enter frames p))
      (Parser.evalOption setting next' p) := by
  cases p with
  | none => exact .none
  | some q => exact .some (h q rfl)

/-- A tree below some frames of the stack is in step with the tree as it is, if the recursive
    parsers are that are entered below any number of frames. -/
theorem steps_framed (henter : ∀ frames q, givingUp.Steps (enter frames q) (next' q)) (p : Parser σ)
    (frames : Nat) :
    givingUp.Steps (Parser.eval setting next (Parser.framed setting room enter frames p))
      (Parser.eval setting next' p) := by
  -- What the functions in the tree do is the same on both sides, wherever they are called.
  have hK (frames : Nat) :
      givingUp.Covers (fun _ : Parser σ => True) setting (enter frames) next' :=
    covers_givingUp (henter frames)
  -- On the tree, as for two runs of one tree; only the number of frames changes on the way down.
  induction Parser.each_of_forall (P := fun _ => True) (fun _ : Parser σ => trivial) p
    generalizing frames with
  | @node p _ _ ih =>
    cases hl : p.leaf? with
    | some l =>
      rw [Parser.framed_of_leaf? setting room enter hl]
      refine steps_needing ?_ frames
      rw [Parser.eval_of_leaf? setting next hl, Parser.eval_of_leaf? setting next' hl]
      exact steps_givingUp _
    | none =>
      cases p with
      | raw run name => exact steps_needing (p := .raw run name) (steps_givingUp run) frames
      | unbuilt f => exact steps_needing (p := .unbuilt f) (steps_givingUp _) frames
      | map p f => exact (ih p .map _).map ((hK 0).map p f trivial)
      | mapIf p f => exact (ih p .mapIf _).mapIf ((hK 0).mapIf p f trivial)
      | filter p test => exact (ih p .filter _).filter ((hK 0).filter p test trivial)
      | notEmpty p => exact (ih p .notEmpty _).notEmpty ((hK 0).notEmpty p trivial)
      | bind p f =>
        refine (ih p .bound _).bind fun v v' s hv => ?_
        obtain rfl : v = v' := hv
        exact ih _ (.next setting.config s v) _
      | liftToState f p => exact (ih p .liftToState _).map ((hK 0).liftToState f p trivial)
      | sequence kind ps =>
        exact .sequence (forall₂_framedAll fun p hp => ih p (.sequence hp) _)
          ((hK 0).sequence kind ps trivial)
      | times n p => exact (ih p .times _).times n
      | choice ps => exact .choice (forall₂_framedAll fun p hp => ih p (.choice hp) _)
      | greedyChoice ps =>
        exact .greedyChoice (forall₂_framedAll fun p hp => ih p (.greedyChoice hp) _)
      | choose p arms default =>
        refine (ih p .chosenBy _).choose ?_ (rel_framedOption ?_)
        · intro v v' s hv
          rw [Parser.evalArms_eq_map, Parser.evalArms_eq_map, Parser.framedArms_eq_map,
            List.forall₂_map_left_iff, List.forall₂_map_left_iff, List.forall₂_map_right_iff,
              List.forall₂_same]
          exact fun arm harm =>
            ⟨(hK 0).choose p arms default trivial arm harm v v' s hv, ih arm.2 (.arm harm) _⟩
        · rintro q rfl
          exact ih q .default _
      | attempt p => exact (ih p .attempt _).attempt
      | optional p => exact (ih p .optional _).optional
      | peek p => exact (ih p .peek _).peek
      | notFollowedBy p => exact (ih p .notFollowedBy _).notFollowedBy
      | measure m p => exact (ih p .measure _).measure ((hK 0).measure m p trivial)
      | eat p => exact (ih p .eat _).eat
      | many p separator trailing sink n =>
        obtain ⟨R, hsink⟩ := (hK 0).many p separator trailing sink n trivial
        refine (ih p .element _).many hsink (rel_framedOption ?_) trailing n
        rintro q rfl
        exact ih q .separator _
      | chain p op combine =>
        exact (ih p .operand _).chain (ih op .operator _) ((hK 0).chain p op combine trivial)
      | defer rule label => exact (hK frames).defer rule
      | forward name => exact (hK frames).forward name
      | named p name => exact ih p .named _
      | inState s p => exact (ih p .inState _).inState s
      | _ => cases hl

/-- A run on a stack is in step with the run. -/
theorem steps_runOnStack (setting : Setting σ) (available : Nat) (p : Parser σ) :
    givingUp.Steps (p.runOnStack setting available) (p.run setting) := by
  -- On the frames that there are, of which every entry leaves fewer.
  induction available using Nat.strongRecOn generalizing p with
  | ind available ih =>
    rw [Parser.runOnStack, Parser.run_eq]
    refine steps_framed (fun frames q => ?_) p 0
    split
    · exact ih _ (by omega) q
    · exact steps_endless _

end Framed

end Coupling

namespace Parser

variable {σ : Type} [Memory σ] {setting : Setting σ} {p : Parser σ} {s : σ}

/-- **A run that the stack has room for, is the run.** -/
theorem runOnStack_eq {available : Nat} {c : Context}
    (h : ∀ t, p.runOnStack setting available c s ≠ .error .endless t) :
    p.runOnStack setting available c s = p.run setting c s := by
  refine Abreast.eq_of_together (fun _ _ => id)
    (Coupling.steps_runOnStack setting available p c c rfl) ?_
  rintro _ t hrun rfl
  exact h t hrun

/-- A whole parse that does not use up the stack is the run. -/
theorem runFrom_eq {c : Context} (h : ∀ t, p.runFrom setting c s ≠ .error .endless t) :
    p.runFrom setting c s = p.run setting c s :=
  runOnStack_eq h

/-- **A parse that the stack has room for, is the parse.** -/
theorem parseValue_eq {v : Value} {items : Input} (hv : Input.ofValue v = .ok items)
    {limit : Except Fault Limit} (h : ∀ t, p.parseValue setting v limit s ≠ .error .endless t) :
    p.parseValue setting v limit s = p.parse setting items limit s := by
  cases limit with
  | error f => rfl
  | ok limit =>
    have heq : p.parseValue setting v (.ok limit) s = p.runFrom setting (start items limit) s := by
      simp only [parseValue, hv]
      rfl
    rw [heq] at h ⊢
    exact runFrom_eq h

end Parser

end Itemwise
