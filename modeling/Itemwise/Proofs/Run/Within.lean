import Itemwise.Proofs.Run.Leaves
import Itemwise.Proofs.Run.Nesting

namespace Itemwise

/-!
# Runs within the input

A run that starts within the input stays within it and never goes back, if the steps given by a
caller do so.

* `Outcome.Keeps` — what an outcome has to do with the bounds: its success, and its failure as well
  if that is asked for;
* `Coupling.within` — a run beside itself, with the bounds between what it has come to and where it
  started;
* `Parser.run_keeps_of_own`, `Parser.run_keeps` — every run keeps to them, and ends in no foreign
  faults of its own.
-/

/-- A position that is neither before a context nor behind its input. -/
def Place.IsWithin (c : Context) : Place → Prop
  | .position n => c.pos ≤ n ∧ n ≤ c.items.size
  | .fraction _ => False

/-- A success is not before a context nor behind its input, and neither is a failure if those are
    held to it too. -/
def Outcome.Keeps {α : Type} (failures : Prop) (c : Context) : Outcome α → Prop
  | .success _ q => c.pos ≤ q ∧ q ≤ c.items.size
  | .failure x => failures → x.IsWithin c

/-- The outcomes of a step given by a caller keep to the bounds. -/
def Parser.Keeps {σ : Type} (failures : Prop) : Parser σ → Prop
  | .raw run _ => ∀ c s o t, c.pos ≤ c.items.size → run c s = .ok o t → o.Keeps failures c
  | _ => True

/-- Whatever leads somewhere keeps to the bounds. -/
theorem Outcome.Leads.keeps {α : Type} {failures : Prop} {c : Context} (hc : c.pos ≤ c.items.size)
    {o : Outcome α} (h : o.Leads c) : o.Keeps failures c := by
  cases o with
  | success v q => exact h
  | failure x =>
    intro _
    obtain rfl : x = .position c.pos := h
    exact ⟨Nat.le_refl _, hc⟩

namespace Coupling

variable {F : Fault → Prop} (hF : ∀ f : Fault, ¬ f.IsForeign → F f) (failures : Prop)

/-- A run beside itself that keeps to the bounds. -/
def within : Coupling where
  shared := F
  excused _ := False
  meets c c' := c = c' ∧ c.pos ≤ c.items.size
  value v v' := v = v'
  reaches c _ q q' := q = q' ∧ c.pos ≤ q ∧ q ≤ c.items.size
  fails c _ x x' := x = x' ∧ (failures → x.IsWithin c)
  endless := hF .endless nofun
  null := rfl
  reaches_start := by
    rintro c _ ⟨rfl, hc⟩
    exact ⟨rfl, Nat.le_refl _, hc⟩
  meets_moveTo := by
    rintro c _ q _ ⟨rfl, -⟩ ⟨rfl, -, hq⟩
    exact ⟨rfl, hq⟩
  reaches_trans := by
    rintro c c' q _ r _ ⟨rfl, hq, -⟩ ⟨rfl, hr, hsize⟩
    exact ⟨rfl, Nat.le_trans hq hr, hsize⟩
  fails_position := by
    rintro c c' q _ ⟨rfl, hq⟩
    exact ⟨rfl, fun _ => hq⟩
  fails_trans := by
    rintro c c' q _ x _ ⟨rfl, hq, -⟩ ⟨rfl, hx⟩
    refine ⟨rfl, fun hheld => ?_⟩
    have hwithin := hx hheld
    cases x with
    | position n => exact ⟨Nat.le_trans hq hwithin.1, hwithin.2⟩
    | fraction y => exact hwithin
  lt_iff := by
    rintro c c' q _ r _ ⟨rfl, -⟩ ⟨rfl, -⟩
    rfl
  isAt_eq := by
    rintro c _ x _ ⟨rfl, -⟩ ⟨rfl, -⟩
    rfl
  precedes_eq := by
    rintro c c' x _ y _ ⟨rfl, -⟩ ⟨rfl, -⟩
    rfl
  rounds := by
    refine .inl ?_
    rintro c _ ⟨rfl, -⟩
    rfl
  slice := by
    rintro c _ q _ ⟨rfl, -⟩ ⟨rfl, -⟩
    exact Tolerance.agree_of_raises (fun _ => rfl) (Input.raises_slice hF _ _ _)
  blanks := by
    rintro c _ ⟨rfl, hc⟩
    exact Tolerance.agree_self ((Leaf.yields_skipBlanks hF c.items hc).imp fun q hq => ⟨rfl, hq⟩)

/-- Runs that keep to the bounds do so where they enter recursive parsers. -/
theorem nests_within : (within hF failures).Nests where
  enter := by
    rintro c _ ⟨rfl, hc⟩
    exact ⟨rfl, hc⟩
  reaches_enter h := h
  fails_enter := by
    rintro c c' x _ ⟨rfl, hx⟩
    refine ⟨rfl, fun hheld => ?_⟩
    have hwithin := hx hheld
    cases x with
    | position n => exact hwithin
    | fraction y => exact hwithin
  limits := by
    refine .inl ?_
    rintro c _ ⟨rfl, -⟩
    refine ⟨rfl, rfl, hF _ ?_⟩
    unfold Limit.refusal
    split <;> exact nofun

/-- An outcome is as required beside itself exactly if it keeps to the bounds. -/
theorem ends_within_iff {c : Context} {o : Outcome Value} :
    (within hF failures).Ends (within hF failures).value c c o o ↔ o.Keeps failures c := by
  constructor
  · rintro (⟨-, -, hq⟩ | ⟨-, hx⟩)
    · exact hq
    · exact hx
  · intro h
    cases o with
    | success v q => exact .success rfl ⟨rfl, h⟩
    | failure x => exact .failure ⟨rfl, h⟩

variable {σ : Type} [Memory σ] {setting : Setting σ}

/-- The parsers whose functions end in allowed faults only and whose raw steps keep to the
    bounds. -/
def IsKept (F : Fault → Prop) (failures : Prop) (p : Parser σ) : Prop :=
  p.RaisesOnly F ∧ p.Keeps failures

/-- Parsers of the kind keep to the bounds in all that they do not do by way of their parts. -/
theorem covers_within (hsetting : setting.Each (IsKept F failures))
    (hrules : ∀ r, (setting.grammar.rule r setting.config).RaisesOnly F)
    {next next' : Parser σ → Step σ}
    (hnext : ∀ p, p.Each (IsKept F failures) → (within hF failures).Steps (next p) (next' p)) :
    (within hF failures).Covers (IsKept F failures) setting next next' := by
  -- The functions are run on the same values; what is left are the leaves, raw steps, reports and
  -- deeper parsers.
  refine Covers.ofSame (fun _ _ => Iff.rfl) hF (fun p hp => hp.1) ?_ ?_ ?_ ?_ ?_
  · rintro p l hp hl c _ s ⟨rfl, hc⟩
    refine Tolerance.agree_self ((Parser.leaf?_leads hF hl hp.1 _ hc).imp fun o ho => ?_)
    exact (ends_within_iff hF failures).mpr (ho.keeps hc)
  · rintro run name ⟨hraises, hkeeps⟩ c _ ⟨rfl, hc⟩
    refine Tolerance.together_self (hraises c) fun s o t ho => ?_
    exact (ends_within_iff hF failures).mpr (hkeeps c s o t hc ho)
  · rintro m p - c _ v q _ ⟨rfl, -⟩ ⟨rfl, hq, -⟩
    refine Tolerance.agree_of_raises (fun _ => rfl) ?_
    cases m with
    | count => exact raises_ok _
    | stretchAndValue => exact (Input.raises_slice hF _ _ _).map fun _ _ => trivial
    | stretch => exact Input.raises_slice hF _ _ _
    | span =>
      -- what was consumed always bounds a span
      show Raises F ((Fault.attempt _ (Span.ofBounds? c.pos q)).map _)
      rw [Span.ofBounds?_natCast hq]
      exact raises_ok _
  · exact fun rule => (nests_within hF failures).steps_rule hsetting (hrules rule) hnext
  · exact (nests_within hF failures).steps_forward hsetting (fun _ => hF _ nofun) hnext

end Coupling

variable {σ : Type} [Memory σ] {setting : Setting σ} {F : Fault → Prop} {failures : Prop}

/-- **Runs keep to the bounds**, and what they end in is allowed if every fault is that parsers end
    in on their own account, and every one of the functions and definitions of a caller. -/
theorem Parser.run_keeps_of_own (hF : ∀ f : Fault, ¬ f.IsForeign → F f)
    (hsetting : setting.Each (Coupling.IsKept F failures))
    (hrules : ∀ r, (setting.grammar.rule r setting.config).RaisesOnly F) {p : Parser σ}
    (hp : p.Each (Coupling.IsKept F failures)) {c : Context} (hc : c.pos ≤ c.items.size) (s : σ) :
    match p.run setting c s with
    | .ok o _ => o.Keeps failures c
    | .error f _ => F f := by
  have hruns := (Coupling.nests_within hF failures).steps_run
    (fun _ _ => Coupling.covers_within hF failures hsetting hrules) hp c c ⟨rfl, hc⟩ s
  cases hrun : p.run setting c s with
  | ok o t =>
    rw [hrun] at hruns
    obtain ⟨o', ⟨⟩, hends⟩ := hruns
    exact (Coupling.ends_within_iff hF failures).mp hends
  | error f t =>
    rw [hrun] at hruns
    rcases hruns with ⟨⟨⟩⟩ | ⟨-, hf⟩
    exact hf

/-- The same where every fault is allowed that is not positional. -/
theorem Parser.run_keeps (hF : ∀ f : Fault, ¬ f.IsPositional → F f)
    (hsetting : setting.Each (Coupling.IsKept F failures))
    (hrules : ∀ r, (setting.grammar.rule r setting.config).RaisesOnly F) {p : Parser σ}
    (hp : p.Each (Coupling.IsKept F failures)) {c : Context} (hc : c.pos ≤ c.items.size) (s : σ) :
    match p.run setting c s with
    | .ok o _ => o.Keeps failures c
    | .error f _ => F f :=
  run_keeps_of_own (fun f hf => hF f (mt Fault.IsPositional.isForeign hf)) hsetting hrules hp hc s

end Itemwise
