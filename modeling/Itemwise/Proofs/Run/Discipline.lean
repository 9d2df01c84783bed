import Itemwise.Cursor
import Itemwise.Proofs.Run.Within

namespace Itemwise

/-!
# What counts as consumed

Choices and repetitions tell a failure that consumed something from one that did not by where it is
reported.

* `Outcome.IsWithin` — an outcome has a cursor over the input that is not before where the run
  started;
* `Parser.FailsInPlace`, `Parser.SucceedsInPlace` — the parsers that never report to have consumed
  anything, when they fail or when they succeed;
* `Parser.run_staysWithin` — every run keeps to this.
-/

/-- The place that an outcome reports is one for a cursor over the same items, not before where the
    run started. -/
def Outcome.IsWithin {α : Type} (c : Context) (o : Outcome α) : Prop :=
  ∃ cursor, (o.pos >>= fun n => Cursor.make c.items n) = .ok cursor ∧
    cursor.items = c.items ∧ c.pos ≤ cursor.pos ∧ cursor.pos ≤ c.items.size

/-- An outcome lies within bounds if it keeps to them, its failures counted. -/
theorem Outcome.isWithin_iff_keeps {α : Type} {c : Context} {o : Outcome α} :
    o.IsWithin c ↔ o.Keeps True c := by
  have hposition (n : Nat) : (∃ cursor, Cursor.make c.items n = .ok cursor ∧
      cursor.items = c.items ∧ c.pos ≤ cursor.pos ∧ cursor.pos ≤ c.items.size) ↔ c.pos ≤ n ∧
        n ≤ c.items.size := by
    constructor
    · rintro ⟨cursor, hcursor, -, hbounds⟩
      have hpos := (Cursor.make_eq_ok hcursor).2
      omega
    · intro h
      exact ⟨_, Cursor.make_natCast h.2, rfl, h⟩
  cases o with
  | success v q => exact hposition q
  | failure x =>
    cases x with
    | position n => exact (hposition n).trans ⟨fun h _ => h, fun h => h trivial⟩
    | fraction y =>
      constructor
      · rintro ⟨cursor, hcursor, -⟩
        cases hcursor
      · exact fun h => (h trivial).elim

namespace Parser

variable {σ : Type}

/-- The steps given by a caller report places within the input and not before where they are run. -/
def StaysWithin : Parser σ → Prop
  | .raw run _ => ∀ c s o t, c.pos ≤ c.items.size → run c s = .ok o t → o.IsWithin c
  | _ => True

/-- A parser whose outcomes stay within keeps to the bounds. -/
theorem StaysWithin.keeps {p : Parser σ} (h : p.StaysWithin) : p.Keeps True := by
  cases p with
  | raw run name => exact fun c s o t hc ho => Outcome.isWithin_iff_keeps.mp (h c s o t hc ho)
  | _ => trivial

/-- The parsers whose failures are failures at the start: all that look at the items themselves,
    with or without their value, and those that take back what their part consumed. -/
inductive FailsInPlace : Parser σ → Prop
  | leaf {p : Parser σ} (h : p.leaf?.isSome = true) : FailsInPlace p
  | skip (expected : Value) : FailsInPlace (.skip expected)
  | attempt (p : Parser σ) : FailsInPlace (.attempt p)
  | peek (p : Parser σ) : FailsInPlace (.peek p)
  | notFollowedBy (p : Parser σ) : FailsInPlace (.notFollowedBy p)

/-- The parsers whose successes consume nothing. -/
inductive SucceedsInPlace : Parser σ → Prop
  | peek (p : Parser σ) : SucceedsInPlace (.peek p)
  | notFollowedBy (p : Parser σ) : SucceedsInPlace (.notFollowedBy p)
  | position : SucceedsInPlace .position
  | eof : SucceedsInPlace .eof
  | empty : SucceedsInPlace .empty
  | const (v : Value) : SucceedsInPlace (.const v)

/-- Taking an expected value looks at the input and does nothing else. -/
theorem isSome_leaf?_take (expected : Value) : (take expected : Parser σ).leaf?.isSome = true := by
  unfold take
  split
  · rfl
  · rfl
  · split <;> rfl
  · split <;> rfl
  · rfl

/-- What is taken is looked at as such. -/
theorem FailsInPlace.take (expected : Value) : FailsInPlace (take expected : Parser σ) :=
  .leaf (isSome_leaf?_take expected)

end Parser

/-! ### Outcomes of single steps -/

section Steps

variable {σ α β : Type}

/-- A result of two actions comes from a result of the first. -/
theorem Action.bind_eq_ok {a : Action σ α} {k : α → Action σ β} {s t : σ} {y : β}
    (h : (a >>= k) s = .ok y t) :
    ∃ x u, a s = .ok x u ∧ k x u = .ok y t := by
  have h : EStateM.bind a k s = .ok y t := h
  cases ha : a s with
  | ok x u => exact ⟨x, u, rfl, by simpa only [EStateM.bind, ha] using h⟩
  | error f u =>
    simp only [EStateM.bind, ha] at h
    cases h

variable {p : Step σ} {c : Context} {s t : σ}

/-- An attempt fails only at its start. -/
theorem Step.attempt_eq_failure {x : Place} (h : Step.attempt p c s = .ok (.failure x) t) :
    x.isAt c.pos = true := by
  obtain ⟨o, u, -, ho⟩ := Action.bind_eq_ok h
  cases o with
  | success v q => cases ho
  | failure y =>
    dsimp only at ho
    split at ho
    · next hat =>
      cases ho
      exact hat
    · cases ho
      exact beq_self_eq_true c.pos

/-- Looking ahead comes back to its start, with a success or a failure. -/
theorem Step.peek_eq_ok {o : Outcome Value} (h : Step.peek p c s = .ok o t) :
    o = .failure c.pos ∨ ∃ v, o = .success v c.pos := by
  obtain ⟨o', u, -, ho⟩ := Action.bind_eq_ok h
  cases o' with
  | success v q =>
    cases ho
    exact .inr ⟨v, rfl⟩
  | failure y =>
    cases ho
    exact .inl rfl

/-- The same for what must not follow. -/
theorem Step.notFollowedBy_eq_ok {o : Outcome Value} (h : Step.notFollowedBy p c s = .ok o t) :
    o = .failure c.pos ∨ ∃ v, o = .success v c.pos := by
  obtain ⟨o', u, -, ho⟩ := Action.bind_eq_ok h
  cases o' with
  | success v q =>
    cases ho
    exact .inl rfl
  | failure y =>
    cases ho
    exact .inr ⟨.null, rfl⟩

/-- A mapped parser fails only where the parser does. -/
theorem Step.map_eq_failure {f : Value → Action σ Value} {x : Place}
    (h : Step.map f p c s = .ok (.failure x) t) :
    ∃ u, p c s = .ok (.failure x) u := by
  obtain ⟨o, u, hp, ho⟩ := Action.bind_eq_ok h
  cases o with
  | success v q =>
    obtain ⟨w, u', -, hw⟩ := Action.bind_eq_ok ho
    cases hw
  | failure y =>
    cases ho
    exact ⟨_, hp⟩

variable [Memory σ]

/-- A step that only looks at the input has the outcome of what it sees and keeps the state. -/
theorem Step.seeing_of_ok {l : (Value → Value) → Leaf} {o : Outcome Value}
    (h : l (Memory.whole s) c = .ok o) :
    Step.seeing l c s = .ok o s := by
  show (Action.ofExcept (l (Memory.whole s) c) : Action σ (Outcome Value)) s = _
  rw [h]
  rfl

/-- The same for a fault. -/
theorem Step.seeing_of_error {l : (Value → Value) → Leaf} {f : Fault}
    (h : l (Memory.whole s) c = .error f) :
    Step.seeing l c s = .error f s := by
  show (Action.ofExcept (l (Memory.whole s) c) : Action σ (Outcome Value)) s = _
  rw [h]
  rfl

/-- A leaf that is run as a step comes to what it comes to on the items as they are. -/
theorem Step.seeing_eq_ok {l : (Value → Value) → Leaf} {o : Outcome Value}
    (h : Step.seeing l c s = .ok o t) :
    l (Memory.whole s) c = .ok o := by
  have h : (Action.ofExcept (l (Memory.whole s) c) : Action σ (Outcome Value)) s = .ok o t := h
  cases hl : l (Memory.whole s) c with
  | ok o' =>
    rw [hl] at h
    cases h
    rfl
  | error f =>
    rw [hl] at h
    cases h

end Steps

/-! ### Runs -/

namespace Parser

variable {σ : Type} [Memory σ] {setting : Setting σ} {p : Parser σ} {c : Context} {s t : σ}

/-- Leaves fail where they are run. -/
theorem run_leaf_eq_failure (hl : p.leaf?.isSome = true) (hc : c.pos ≤ c.items.size) {x : Place}
    (h : p.run setting c s = .ok (.failure x) t) : x = .position c.pos := by
  obtain ⟨l, hl⟩ := Option.isSome_iff_exists.mp hl
  have hrun : p.run setting c = Step.seeing l c := by
    show runWithin setting _ p c = _
    rw [runWithin_eq, eval_of_leaf? setting _ hl]
  rw [hrun] at h
  have hleads := leaf?_leads (F := fun _ => True) (fun _ _ => trivial) hl p.raisesOnly_true
    (Memory.whole s) hc
  rw [Step.seeing_eq_ok h] at hleads
  exact hleads

/-- A parser that fails in place reports no other place. -/
theorem run_eq_failure_of_failsInPlace (hp : p.FailsInPlace) (hc : c.pos ≤ c.items.size) {x : Place}
    (hx : x.IsWithin c) (h : p.run setting c s = .ok (.failure x) t) : x = .position c.pos := by
  cases hp with
  | leaf hl => exact run_leaf_eq_failure hl hc h
  | skip expected =>
    -- It drops the value of a leaf, and passes on its failure.
    have h : runWithin setting _ (Parser.skip expected) c s = .ok (.failure x) t := h
    rw [runWithin_eq] at h
    obtain ⟨u, hu⟩ := Step.map_eq_failure h
    rw [← runWithin_eq] at hu
    exact run_leaf_eq_failure (isSome_leaf?_take expected) hc hu
  | attempt p =>
    have h : runWithin setting _ (.attempt p) c s = .ok (.failure x) t := h
    rw [runWithin_eq] at h
    have hat := Step.attempt_eq_failure h
    cases x with
    | position n =>
      rw [Place.isAt_position, beq_iff_eq] at hat
      rw [hat]
    | fraction y => exact hx.elim
  | peek p =>
    have h : runWithin setting _ (.peek p) c s = .ok (.failure x) t := h
    rw [runWithin_eq] at h
    rcases Step.peek_eq_ok h with ⟨⟨⟩⟩ | ⟨v, ⟨⟩⟩
    rfl
  | notFollowedBy p =>
    have h : runWithin setting _ (.notFollowedBy p) c s = .ok (.failure x) t := h
    rw [runWithin_eq] at h
    rcases Step.notFollowedBy_eq_ok h with ⟨⟨⟩⟩ | ⟨v, ⟨⟩⟩
    rfl

/-- A parser that succeeds in place stops where it started. -/
theorem run_eq_success_of_succeedsInPlace (hp : p.SucceedsInPlace) {v : Value} {q : Nat}
    (h : p.run setting c s = .ok (.success v q) t) : q = c.pos := by
  have h : runWithin setting _ p c s = .ok (.success v q) t := h
  rw [runWithin_eq] at h
  cases hp with
  | peek p =>
    rcases Step.peek_eq_ok h with ⟨⟨⟩⟩ | ⟨v, ⟨⟩⟩
    rfl
  | notFollowedBy p =>
    rcases Step.notFollowedBy_eq_ok h with ⟨⟨⟩⟩ | ⟨v, ⟨⟩⟩
    rfl
  | position =>
    cases h
    rfl
  | const w =>
    cases h
    rfl
  | eof =>
    have h := Step.seeing_eq_ok (l := fun _ => Leaf.eof) h
    unfold Leaf.eof at h
    split at h
    · cases h
      rfl
    · cases h
  | empty =>
    have h := Step.seeing_eq_ok (l := fun _ => Leaf.empty) h
    unfold Leaf.empty at h
    split at h
    · cases hslice : c.sliceTo c.items.size with
      | ok w =>
        rw [hslice] at h
        cases h
        rfl
      | error f =>
        rw [hslice] at h
        cases h
    · cases h

/-- **Discipline of positions.** Whatever a run that starts within the input comes to has a cursor
    over the same items, not before the start; a parser that fails in place fails at the start, and
    one that succeeds in place succeeds there.  A fault that a position or the bounds of a span are
    out of range can only be one of the caller's own: a run ends in no fault outside `F` if `F`
    holds of all other faults and of those that the caller's functions and definitions end in. -/
theorem run_staysWithin (hsetting : setting.Each StaysWithin) (hp : p.Each StaysWithin)
    (hc : c.pos ≤ c.items.size) (s : σ) :
    (∀ o t, p.run setting c s = .ok o t →
      o.IsWithin c ∧
      (p.FailsInPlace → ∀ x, o = .failure x → x = .position c.pos) ∧
      (p.SucceedsInPlace → ∀ v q, o = .success v q → q = c.pos)) ∧
    ∀ F : Fault → Prop, (∀ f : Fault, ¬ f.IsPositional → F f) → setting.Each (RaisesOnly F) →
      (∀ r, (setting.grammar.rule r setting.config).RaisesOnly F) → p.Each (RaisesOnly F) →
      ∀ f t, p.run setting c s = .error f t → F f := by
  constructor
  · -- Faults do not matter to where a run stops, so all of them are allowed here.
    intro o t ho
    have hall {q : Parser σ} (hq : q.Each StaysWithin) :
        q.Each (Coupling.IsKept (fun _ => True) True) :=
      hq.imp fun q hq => ⟨q.raisesOnly_true, hq.keeps⟩
    have hkeeps := run_keeps (fun _ _ => trivial)
      (hsetting.imp fun q hq => ⟨q.raisesOnly_true, hq.keeps⟩) (fun r => Action.raisesOnly_true _)
      (hall hp) hc s
    rw [ho] at hkeeps
    refine ⟨Outcome.isWithin_iff_keeps.mpr hkeeps, ?_, ?_⟩
    · rintro hplace x rfl
      exact run_eq_failure_of_failsInPlace hplace hc (hkeeps trivial) ho
    · rintro hplace v q rfl
      exact run_eq_success_of_succeedsInPlace hplace ho
  · intro F hF hsettingF hrules hpF f t hf
    have hkept {q : Parser σ} (h : q.StaysWithin ∧ q.RaisesOnly F) : Coupling.IsKept F True q :=
      ⟨h.2, h.1.keeps⟩
    have hkeeps := run_keeps hF ((hsetting.and hsettingF).imp fun _ => hkept) hrules
      ((hp.and hpF).imp fun _ => hkept) hc s
    rw [hf] at hkeeps
    exact hkeeps

/-- Brackets that are not closed fail behind the last one, and under an attempt where they begin. -/
theorem run_staysWithin_brackets :
    let c : Context := ⟨.sequence (.text #['x', '(', '(', ')']), 1, 0, (5 : Int)⟩
    (∃ o, (forward "brackets").run brackets c () = .ok o () ∧ o.IsWithin c) ∧
      (∀ x t, (attempt (forward "brackets")).run brackets c () = .ok (.failure x) t →
        x = .position 1) ∧
      ∀ f t, (attempt (forward "brackets")).run brackets c () = .error f t → ¬ f.IsPositional := by
  intro c
  have hc : c.pos ≤ c.items.size := by decide
  have hsetting : brackets.Each StaysWithin :=
    each_brackets (fun _ => trivial) (fun _ => trivial) (fun _ _ _ => trivial) fun _ => trivial
  have hforward : (forward "brackets" : Parser Unit).Each StaysWithin := .node trivial nofun
  have hattempt : (attempt (forward "brackets") : Parser Unit).Each StaysWithin := by
    refine .node trivial ?_
    rintro _ ⟨⟩
    exact hforward
  have hrun : (forward "brackets").run brackets c () = .ok (.failure (.position 4)) () := by
    with_unfolding_all rfl
  obtain ⟨hreturns, hraises⟩ := run_staysWithin hsetting hattempt hc ()
  refine ⟨⟨_, hrun, ((run_staysWithin hsetting hforward hc ()).1 _ _ hrun).1⟩, fun x t hx => ?_, ?_⟩
  · exact (hreturns _ t hx).2.1 (.attempt _) x rfl
  · refine hraises _ (fun f hf => hf) ?_ (fun r => Action.raisesOnly_throw nofun) ?_
    · exact each_brackets (fun _ => trivial) (fun _ => trivial)
        (fun kind _ hkind => hkind ▸ trivial) fun _ => trivial
    · refine .node trivial ?_
      rintro _ ⟨⟩
      exact .node trivial nofun

end Parser

end Itemwise
