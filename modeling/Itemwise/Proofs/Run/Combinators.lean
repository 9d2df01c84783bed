import Itemwise.Parser.Run
import Itemwise.Proofs.Run.Coupling
import Mathlib.Data.List.Forall2

namespace Itemwise

/-!
# Steps made of steps

Every way to make steps of steps keeps two runs in step, provided that the functions in it do.

* `Coupling.together_onSuccess` — what goes on after a success, and passes a failure on;
* `Coupling.Steps.map`, `mapIf`, `filter`, `notEmpty`, `bind`, `inState` — steps that change the
  value;
* `Coupling.Steps.sequence`, `times` — steps one after the other;
* `Coupling.Steps.choice`, `greedyChoice`, `choose`, `attempt`, `optional`, `peek`, `notFollowedBy`
  — alternatives;
* `Coupling.Steps.measure`, `eat` — reports, and white space.
-/

/-! ### Looking at values -/

/-- Both actions look at their values in the same user state. -/
theorem Tolerance.together_look {σ : Type} [Memory σ] (T : Tolerance) (v v' : Value) :
    T.Together (fun w w' => ∃ s : σ, w = Memory.whole s v ∧ w' = Memory.whole s v')
      (Action.look v : Action σ Value) (Action.look v') :=
  fun s => ⟨_, rfl, s, rfl, rfl⟩

/-- Looking at one value stays in step with itself, if what is seen is tolerated in every state. -/
theorem Tolerance.together_lookAt {σ : Type} [Memory σ] (T : Tolerance) (v v' : Value) :
    T.Together (fun w w' => ∃ s : σ, w = Memory.surface s v ∧ w' = Memory.surface s v')
      (Action.lookAt v : Action σ Value) (Action.lookAt v') :=
  fun s => ⟨_, rfl, s, rfl, rfl⟩

namespace Coupling

variable {K : Coupling} {σ : Type} {p p' : Step σ}

/-- What follows a success stays together where a failure is passed on as it is. -/
theorem together_onSuccess {α β γ δ : Type} {V : α → β → Prop} {W : γ → δ → Prop} {c c' : Context}
    {a : Action σ (Outcome α)} {a' : Action σ (Outcome β)} (h : K.Together (K.Ends V c c') a a')
    {k : Outcome α → Action σ (Outcome γ)} {k' : Outcome β → Action σ (Outcome δ)}
    (hpass : ∀ x, k (.failure x) = pure (.failure x))
    (hpass' : ∀ x, k' (.failure x) = pure (.failure x))
    (hk : ∀ v v' q q', V v v' → K.reaches c c' q q' →
      K.Together (K.Ends W c c') (k (.success v q)) (k' (.success v' q'))) :
    K.Together (K.Ends W c c') (a >>= k) (a' >>= k') := by
  refine h.bind ?_
  rintro _ _ (⟨hv, hq⟩ | hx)
  · exact hk _ _ _ _ hv hq
  · rw [hpass, hpass']
    exact Tolerance.together_pure (.failure hx)

/-! ### Steps that change the value -/

/-- Mapping stays in step if the functions do on related values. -/
theorem Steps.map {f f' : Value → Action σ Value} (hp : K.Steps p p')
    (hf : ∀ v v', K.value v v' → K.Together K.value (f v) (f' v')) :
    K.Steps (Step.map f p) (Step.map f' p') := by
  intro c c' hc
  refine together_onSuccess (hp c c' hc) (fun _ => rfl) (fun _ => rfl) fun v v' q q' hv hq => ?_
  exact (hf v v' hv).bind fun w w' hw => Tolerance.together_pure (.success hw hq)

/-- Values that are alike and are both nothing, or both something. -/
def valueOrNull (K : Coupling) (v v' : Value) : Prop := K.value v v' ∧ (v = .null ↔ v' = .null)

/-- The same where the function may turn a value down. -/
theorem Steps.mapIf {f f' : Value → Action σ Value} (hp : K.Steps p p')
    (hf : ∀ v v', K.value v v' → K.Together K.valueOrNull (f v) (f' v')) :
    K.Steps (Step.mapIf f p) (Step.mapIf f' p') := by
  intro c c' hc
  refine together_onSuccess (hp c c' hc) (fun _ => rfl) (fun _ => rfl) fun v v' q q' hv hq => ?_
  refine (hf v v' hv).bind fun w w' hw => ?_
  by_cases hnull : w = .null
  · obtain rfl := hnull
    obtain rfl := hw.2.mp rfl
    exact Tolerance.together_pure (ends_start hc)
  · have hnull' : w' ≠ .null := fun h => hnull (hw.2.mpr h)
    split
    · contradiction
    · exact Tolerance.together_pure (.success hw.1 hq)

/-- Filtering stays in step if the tests agree on related values. -/
theorem Steps.filter [Memory σ] {test test' : Value → Except Fault Bool} (hp : K.Steps p p')
    (htest : ∀ v v' (s : σ), K.value v v' →
      K.Agree (· = ·) (test (Memory.whole s v)) (test' (Memory.whole s v'))) :
    K.Steps (Step.filter test p) (Step.filter test' p') := by
  intro c c' hc
  refine together_onSuccess (hp c c' hc) (fun _ => rfl) (fun _ => rfl) fun v v' q q' hv hq => ?_
  refine (Tolerance.together_look _ v v').bind ?_
  rintro _ _ ⟨s, rfl, rfl⟩
  refine (htest v v' s hv).together.bind ?_
  rintro b _ rfl
  cases b with
  | true => exact Tolerance.together_pure (.success hv hq)
  | false => exact Tolerance.together_pure (ends_start hc)

/-- A parser of something that must not be empty stays in step if the values are empty alike. -/
theorem Steps.notEmpty [Memory σ] (hp : K.Steps p p')
    (hlength : ∀ v v' (s : σ), K.value v v' →
      K.Agree (fun m n => m = 0 ↔ n = 0) (Memory.surface s v).length (Memory.surface s v').length) :
    K.Steps (Step.notEmpty p) (Step.notEmpty p') := by
  intro c c' hc
  refine together_onSuccess (hp c c' hc) (fun _ => rfl) (fun _ => rfl) fun v v' q q' hv hq => ?_
  refine (Tolerance.together_lookAt _ v v').bind ?_
  rintro _ _ ⟨s, rfl, rfl⟩
  refine (hlength v v' s hv).together.bind fun m n hmn => ?_
  by_cases hm : m = 0
  · rw [if_pos hm, if_pos (hmn.mp hm)]
    exact Tolerance.together_pure (ends_start hc)
  · rw [if_neg hm, if_neg fun hn => hm (hmn.mpr hn)]
    exact Tolerance.together_pure (.success hv hq)

/-- The chosen parsers of a bind stay in step if they are related for related values and every
    state. -/
theorem Steps.bind {next next' : σ → Value → Step σ} (hp : K.Steps p p')
    (hnext : ∀ v v' s, K.value v v' → K.Steps (next s v) (next' s v')) :
    K.Steps (Step.bind p next) (Step.bind p' next') := by
  intro c c' hc
  refine together_onSuccess (hp c c' hc) (fun _ => rfl) (fun _ => rfl) fun v v' q q' hv hq => ?_
  refine Tolerance.together_get.bind ?_
  rintro s _ rfl
  exact (hnext v v' s hv).together_moveTo hc hq

/-- Keeping a user state apart stays in step. -/
theorem Steps.inState (hp : K.Steps p p') (s : σ) :
    K.Steps (Step.inState s p) (Step.inState s p') :=
  fun c c' hc _ => hp c c' hc s

/-! ### Steps in sequence -/

/-- Parts that are in step, collected one after the other, come to values that are related one by
    one. -/
theorem together_collect {ps ps' : List (Step σ)} (hps : List.Forall₂ K.Steps ps ps')
    {c c' : Context} (hc : K.meets c c') :
    K.Together (K.Ends (List.Forall₂ K.value) c c') (Step.collect ps c) (Step.collect ps' c') := by
  induction hps generalizing c c' with
  | nil => exact Tolerance.together_pure (.success .nil (K.reaches_start hc))
  | cons hp _ ih =>
    refine together_onSuccess (hp c c' hc) (fun _ => rfl) (fun _ => rfl) fun v v' q q' hv hq => ?_
    -- the other steps run from where the first one stopped
    refine together_onSuccess ((ih (K.meets_moveTo hc hq)).imp fun _ _ h => h.trans hq)
      (fun _ => rfl) (fun _ => rfl) fun vs vs' r r' hvs hr => ?_
    exact Tolerance.together_pure (.success (.cons hv hvs) hr)

/-- Sequences stay in step if the parts do and the values are combined alike. -/
theorem Steps.sequence {ps ps' : List (Step σ)} {kind kind' : SequenceKind σ}
    (hps : List.Forall₂ K.Steps ps ps')
    (hkind : ∀ vs vs', List.Forall₂ K.value vs vs' →
      K.Together K.value (kind.combine vs) (kind'.combine vs')) :
    K.Steps (Step.sequence kind ps) (Step.sequence kind' ps') := by
  intro c c' hc
  refine together_onSuccess (together_collect hps hc) (fun _ => rfl) (fun _ => rfl)
    fun vs vs' q q' hvs hq => ?_
  exact (hkind vs vs' hvs).bind fun w w' hw => Tolerance.together_pure (.success hw hq)

/-- What is left of a counted repetition stays in step. -/
theorem together_again (hp : K.Steps p p') (n : Nat) {c c' : Context} (hc : K.meets c c') :
    K.Together (K.Ends (· = ·) c c') (Step.again p n c) (Step.again p' n c') := by
  induction n generalizing c c' with
  | zero => exact Tolerance.together_pure (.success rfl (K.reaches_start hc))
  | succ n ih =>
    refine together_onSuccess (hp c c' hc) (fun _ => rfl) (fun _ => rfl) fun v v' q q' _ hq => ?_
    exact (ih (K.meets_moveTo hc hq)).imp fun _ _ h => h.trans hq

/-- The same for all of it. -/
theorem Steps.times (hp : K.Steps p p') (n : Nat) : K.Steps (Step.times n p) (Step.times n p') := by
  intro c c' hc
  refine together_onSuccess (together_again hp n hc) (fun _ => rfl) (fun _ => rfl)
    fun _ _ q q' _ hq => ?_
  exact (K.slice hc hq).together.bind fun w w' hw => Tolerance.together_pure (.success hw hq)

/-! ### Choice and backtracking -/

/-- The alternatives that are left stay in step after failures that are alike. -/
theorem together_choiceAfter {ps ps' : List (Step σ)} (hps : List.Forall₂ K.Steps ps ps')
    {c c' : Context} (hc : K.meets c c') {x x' : Place} (hx : K.fails c c' x x') :
    K.Together (K.Ends K.value c c') (Step.choiceAfter x ps c) (Step.choiceAfter x' ps' c') := by
  induction hps generalizing x x' with
  | nil => exact Tolerance.together_pure (.failure hx)
  | cons hp _ ih =>
    refine (hp c c' hc).bind ?_
    rintro _ _ (⟨hv, hq⟩ | hy)
    · exact Tolerance.together_pure (.success hv hq)
    · simp only [K.isAt_eq hc hy]
      split
      · exact ih hy
      · exact Tolerance.together_pure (.failure hy)

/-- A choice stays in step if its alternatives do. -/
theorem Steps.choice {ps ps' : List (Step σ)} (hps : List.Forall₂ K.Steps ps ps') :
    K.Steps (Step.choice ps) (Step.choice ps') :=
  fun _ _ hc => together_choiceAfter hps hc (K.fails_position (K.reaches_start hc))

/-- Both runs see alike which of two outcomes is the better one. -/
theorem ends_better {c c' : Context} {o o' r r' : Outcome Value} (ho : K.Ends K.value c c' o o')
    (hr : K.Ends K.value c c' r r') :
    K.Ends K.value c c' (Step.better o r) (Step.better o' r') := by
  cases ho with
  | @success v v' q q' hv hq =>
    cases hr with
    | @success w w' r r' hw hr =>
      have hlt := K.lt_iff hq hr
      by_cases h : q < r
      · simpa only [Step.better, if_pos h, if_pos (hlt.mp h)] using .success hw hr
      · simpa only [Step.better, if_neg h, if_neg fun h' => h (hlt.mpr h')] using .success hv hq
    | failure hx => exact .success hv hq
  | failure hx =>
    cases hr with
    | success hw hr => exact .success hw hr
    | failure hy =>
      simp only [Step.better, K.precedes_eq hx hy]
      split
      · exact .failure hy
      · exact .failure hx

/-- The search for the furthest outcome stays in step from known outcomes that are alike. -/
theorem together_best {ps ps' : List (Step σ)} (hps : List.Forall₂ K.Steps ps ps') {c c' : Context}
    (hc : K.meets c c') {o o' : Outcome Value} (ho : K.Ends K.value c c' o o') :
    K.Together (K.Ends K.value c c') (Step.best ps o c) (Step.best ps' o' c') := by
  induction hps generalizing o o' with
  | nil => exact Tolerance.together_pure ho
  | cons hp _ ih => exact (hp c c' hc).bind fun r r' hr => ih (ends_better ho hr)

/-- The same from the start of a longest choice. -/
theorem Steps.greedyChoice {ps ps' : List (Step σ)} (hps : List.Forall₂ K.Steps ps ps') :
    K.Steps (Step.greedyChoice ps) (Step.greedyChoice ps') :=
  fun _ _ hc => together_best hps hc (ends_start hc)

/-- An attempt stays in step. -/
theorem Steps.attempt (hp : K.Steps p p') : K.Steps (Step.attempt p) (Step.attempt p') := by
  intro c c' hc
  refine (hp c c' hc).bind ?_
  rintro _ _ (⟨hv, hq⟩ | hx)
  · exact Tolerance.together_pure (.success hv hq)
  · simp only [K.isAt_eq hc hx]
    split
    · exact Tolerance.together_pure (.failure hx)
    · exact Tolerance.together_pure (ends_start hc)

/-- An optional parser stays in step. -/
theorem Steps.optional (hp : K.Steps p p') : K.Steps (Step.optional p) (Step.optional p') := by
  intro c c' hc
  refine (hp c c' hc).bind ?_
  rintro _ _ (⟨hv, hq⟩ | hx)
  · exact Tolerance.together_pure (.success hv hq)
  · simp only [K.isAt_eq hc hx]
    split
    · exact Tolerance.together_pure (.success K.null (K.reaches_start hc))
    · exact Tolerance.together_pure (.failure hx)

/-- Looking ahead stays in step. -/
theorem Steps.peek (hp : K.Steps p p') : K.Steps (Step.peek p) (Step.peek p') := by
  intro c c' hc
  refine (hp c c' hc).bind ?_
  rintro _ _ (⟨hv, hq⟩ | hx)
  · exact Tolerance.together_pure (.success hv (K.reaches_start hc))
  · exact Tolerance.together_pure (ends_start hc)

/-- Looking ahead for what must not follow stays in step. -/
theorem Steps.notFollowedBy (hp : K.Steps p p') :
    K.Steps (Step.notFollowedBy p) (Step.notFollowedBy p') := by
  intro c c' hc
  refine (hp c c' hc).bind ?_
  rintro _ _ (⟨hv, hq⟩ | hx)
  · exact Tolerance.together_pure (ends_start hc)
  · exact Tolerance.together_pure (.success K.null (K.reaches_start hc))

/-- Both runs see alike which arm of a choice a value selects. -/
theorem agree_select {arms arms' : List ((Value → Except Fault Bool) × Step σ)}
    {default default' : Option (Step σ)} {w w' : Value}
    (harms : List.Forall₂ (fun a a' => K.Agree (· = ·) (a.1 w) (a'.1 w') ∧
      K.Steps a.2 a'.2) arms arms')
    (hdefault : Option.Rel K.Steps default default') :
    K.Agree (Option.Rel K.Steps) (Step.select arms default w) (Step.select arms' default' w') := by
  induction harms with
  | nil => exact Tolerance.agree_ok hdefault
  | @cons a a' arms arms' ha _ ih =>
    obtain ⟨htest, ha⟩ := ha
    unfold Step.select
    cases h : a.1 w with
    | ok b =>
      rw [h] at htest
      obtain ⟨_, h', rfl⟩ := htest
      simp only [h']
      cases b with
      | true => exact Tolerance.agree_ok (.some ha)
      | false => exact ih
    | error f =>
      rw [h] at htest
      rcases htest with hf | ⟨h', hf⟩
      · exact .inl hf
      · simpa only [h'] using Tolerance.agree_error hf

/-- A choice by value stays in step if the arms are related one by one: their tests agree on what is
    seen, and their parsers are in step. -/
theorem Steps.choose [Memory σ] {arms arms' : List ((Value → Except Fault Bool) × Step σ)}
    {default default' : Option (Step σ)} (hp : K.Steps p p')
    (harms : ∀ v v' (s : σ), K.value v v' →
      List.Forall₂ (fun a a' => K.Agree (· = ·) (a.1 (Memory.whole s v))
        (a'.1 (Memory.whole s v')) ∧ K.Steps a.2 a'.2) arms arms')
    (hdefault : Option.Rel K.Steps default default') :
    K.Steps (Step.choose p arms default) (Step.choose p' arms' default') := by
  intro c c' hc
  refine together_onSuccess (hp c c' hc) (fun _ => rfl) (fun _ => rfl) fun v v' q q' hv hq => ?_
  refine (Tolerance.together_look _ v v').bind ?_
  rintro _ _ ⟨s, rfl, rfl⟩
  refine (agree_select (harms v v' s hv) hdefault).together.bind ?_
  rintro _ _ (hr | _)
  · exact hr.together_moveTo hc hq
  · exact Tolerance.together_pure (ends_start hc)

/-! ### Reports and white space -/

/-- A measured parser stays in step if the measure reports related values for related ends. -/
theorem Steps.measure {m : Measure} (hp : K.Steps p p')
    (hreport : ∀ c c' v v' q q', K.meets c c' → K.value v v' → K.reaches c c' q q' →
      K.Agree K.value (m.report c v q) (m.report c' v' q')) :
    K.Steps (Step.measure m p) (Step.measure m p') := by
  intro c c' hc
  refine together_onSuccess (hp c c' hc) (fun _ => rfl) (fun _ => rfl) fun v v' q q' hv hq => ?_
  exact (hreport c c' v v' q q' hc hv hq).together.bind fun w w' hw =>
    Tolerance.together_pure (.success hw hq)

/-- A parser whose value is not wanted stays in step. -/
theorem Steps.eat (hp : K.Steps p p') : K.Steps (Step.eat p) (Step.eat p') := by
  intro c c' hc
  refine (K.blanks hc).together.bind fun q q' hq => ?_
  by_cases h : q = c.pos
  · rw [if_pos h, if_pos ((eq_start_iff hc hq).mp h)]
    exact hp c c' hc
  · rw [if_neg h, if_neg fun h' => h ((eq_start_iff hc hq).mpr h')]
    refine (hp _ _ (K.meets_moveTo hc hq)).bind ?_
    rintro _ _ (⟨hv, hr⟩ | hx)
    · exact Tolerance.together_pure (.success hv (K.reaches_trans hq hr))
    · simp only [isAt_eq_moveTo hc hq hx]
      split
      · exact Tolerance.together_pure (ends_start hc)
      · exact Tolerance.together_pure (.failure (K.fails_trans hq hx))

end Coupling

end Itemwise
