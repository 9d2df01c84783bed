import Itemwise.Proofs.Run.Discipline
import Itemwise.Proofs.Run.Sequences
import Itemwise.Proofs.Scan.Blanks

namespace Itemwise

/-!
# White space before alternatives

White space before a parser does not count as consumed, so alternatives may have it in front of all
of them or in front of each: both try the next alternative under the same conditions, since a
failure right after the white space is moved to the start, where the choice looks for it.

* `Step.FailsAhead`, `Parser.run_failsAhead` — a step does not fail before where it is run, and the
  parsers that do not;
* `Outcome.failsAt_afterBlanks` — what fails where the white space ends is what fails at the start
  with it;
* `Step.eat_choice`, `Step.eat_eat` — white space before a choice, and before white space;
* `Parser.run_eat_anyOf` — white space is transparent to alternatives.
-/

variable {σ : Type}

namespace Step

/-- A step that is run within the input does not fail before where it is run. -/
def FailsAhead (step : Step σ) : Prop :=
  ∀ c s x t, c.pos ≤ c.items.size → step c s = .ok (.failure x) t → x.From c.pos

end Step

namespace Outcome

variable {start stop : Nat} {o : Outcome Value}

/-- An outcome fails where the white space ends exactly if it fails at the start with the white
    space, unless it fails between. -/
theorem failsAt_afterBlanks (hle : start ≤ stop) (ho : ∀ x, o = .failure x → x.From stop) :
    (o.afterBlanks start stop).failsAt start = o.failsAt stop := by
  cases o with
  | success v q => rfl
  | failure x =>
    rcases Nat.eq_or_lt_of_le hle with rfl | hlt
    · rw [afterBlanks_self]
    · by_cases hx : x.isAt stop = true
      · simp [afterBlanks, hx, Nat.ne_of_gt hlt]
      · have hstart : x.isAt start = false := (ho x rfl).isAt_eq_false hlt
        simp [afterBlanks, hx, hstart]

/-- A failure stays what it is, unless it is where the white space ends. -/
theorem afterBlanks_failure (start stop : Nat) (x : Place) :
    ∃ y, (failure x).afterBlanks start stop = .failure y ∧
      (x.isAt stop = true → y.isAt start = true) ∧
      (x.isAt stop = false → y = x) := by
  by_cases h : stop ≠ start ∧ x.isAt stop = true
  · refine ⟨start, if_pos h, fun _ => by simp, fun hx => ?_⟩
    rw [h.2] at hx
    cases hx
  · refine ⟨x, if_neg h, fun hx => ?_, fun _ => rfl⟩
    obtain rfl : stop = start := by simpa [hx] using h
    exact hx

end Outcome

namespace Step

variable {p : Step σ} {ps : List (Step σ)} {c : Context} {stop : Nat} {s t : σ}

/-- After an outcome, alternatives that are run where the white space ends do what they do after
    white space each. -/
theorem otherwise_eat (h : Leaf.skipBlanks c.items c.pos = .ok stop) (hle : c.pos ≤ stop)
    (hstop : stop ≤ c.items.size) (hps : ∀ p ∈ ps, p.FailsAhead) {o : Outcome Value}
    (ho : ∀ x, o = .failure x → x.From stop) :
    (otherwise ps (c.moveTo stop) o >>= fun o => pure (o.afterBlanks c.pos stop)) =
      otherwise (ps.map eat) c (o.afterBlanks c.pos stop) := by
  induction ps generalizing o with
  | nil => exact pure_bind o _
  | cons p ps ih =>
    have hat := Outcome.failsAt_afterBlanks hle ho
    by_cases hfails : o.failsAt stop = true
    · -- both go on with the next alternative, from the same place
      have hrest (s : σ) :
          (p (c.moveTo stop) >>= fun o => otherwise ps (c.moveTo stop) o >>=
            fun o => pure (o.afterBlanks c.pos stop)) s =
          (p (c.moveTo stop) >>= fun o => otherwise (ps.map eat) c (o.afterBlanks c.pos stop))
            s := by
        cases hp : p (c.moveTo stop) s with
        | error f t => rw [Action.bind_of_error hp, Action.bind_of_error hp]
        | ok o t =>
          rw [Action.bind_of_ok hp, Action.bind_of_ok hp,
            ih fun q hq => hps q (List.mem_cons_of_mem p hq)]
          rintro x rfl
          exact hps p List.mem_cons_self (c.moveTo stop) s x t hstop hp
      rw [otherwise_cons (show o.failsAt (c.moveTo stop).pos = true from hfails), List.map_cons,
        otherwise_cons (hat.trans hfails), bind_assoc, eat_eq h, bind_assoc, funext hrest]
      simp only [pure_bind]
    · -- both stay with the outcome
      rw [otherwise_of_not_failsAt (show ¬ o.failsAt (c.moveTo stop).pos = true from hfails),
        otherwise_of_not_failsAt (hat ▸ hfails), pure_bind]

/-- **White space before a choice** is white space before each of its alternatives. -/
theorem eat_choice (h : Leaf.skipBlanks c.items c.pos = .ok stop) (hle : c.pos ≤ stop)
    (hstop : stop ≤ c.items.size) (hps : ∀ p ∈ ps, p.FailsAhead) :
    eat (choice ps) c = choice (ps.map eat) c := by
  have hstart : Outcome.afterBlanks c.pos stop (.failure stop) = .failure c.pos := by
    by_cases heq : stop = c.pos <;> simp [Outcome.afterBlanks, heq]
  rw [eat_eq h, choice_eq_otherwise, choice_eq_otherwise, ← hstart]
  apply otherwise_eat h hle hstop hps
  rintro x ⟨⟩
  exact .inl (by simp)

/-- White space before white space makes no difference. -/
theorem eat_eat (h : Leaf.skipBlanks c.items c.pos = .ok stop)
    (hstop : Leaf.skipBlanks c.items stop = .ok stop) (p : Step σ) :
    eat (eat p) c = eat p c := by
  rw [eat_eq h, eat_eq h, eat_eq (c := c.moveTo stop) hstop, bind_assoc]
  simp only [pure_bind, Context.pos_moveTo, Context.moveTo_moveTo, Outcome.afterBlanks_self]

/-- After a first step that succeeds, the sequence that keeps the last value does what the second
    one does. -/
theorem sequence_last_of_success {q : Step σ} {v : Value} (h : q c s = .ok (.success v stop) t) :
    sequence .last [q, p] c s = p (c.moveTo stop) t := by
  rw [sequence_eq, collect_cons, bind_assoc, Action.bind_of_ok h,
    ← Outcome.bind_onSuccess_pure (p (c.moveTo stop))]
  simp only [collect_cons, bind_assoc, Outcome.onSuccess_bind, Outcome.onSuccess_success]
  rfl

end Step

namespace Items

variable {items : Items}

/-- The items of texts and of byte sequences can all be looked up in a set. -/
theorem isKey_of_get? (h : (∃ cs, items = .text cs) ∨ ∃ kind bs, items = .octets kind bs)
    {j : Nat} {v : Value} (hv : items.get? j = some v) : v.isKey = true := by
  rcases h with ⟨cs, rfl⟩ | ⟨kind, bs, rfl⟩
  · obtain ⟨x, -, rfl⟩ := Option.map_eq_some_iff.mp hv
    rfl
  · obtain ⟨x, -, rfl⟩ := Option.map_eq_some_iff.mp hv
    rfl

/-- Where white space ends there is no more. -/
theorem BlankUntil.done {start stop : Nat} (h : items.BlankUntil start stop) :
    items.BlankUntil stop stop :=
  ⟨Nat.le_refl stop, h.stop_le, fun _ _ hj hj' => absurd hj (Nat.not_le.mpr hj'), h.ends⟩

end Items

namespace Parser

variable [Memory σ] {setting : Setting σ} {ps : List (Parser σ)} {c : Context} {items : Items}

/-- A run of a parser whose value is not wanted, as a step. -/
theorem run_eat (p : Parser σ) : (eat p).run setting = Step.eat (p.run setting) := by
  rw [run_eq setting (eat p), run_eq setting p]
  rfl

/-- A parser does not fail before where it is run if no part does that a caller has put in. -/
theorem run_failsAhead {p : Parser σ} (hsetting : setting.Each StaysWithin)
    (hp : p.Each StaysWithin) :
    (p.run setting).FailsAhead := by
  intro c s x t hc h
  have hkept (q : Parser σ) (hq : q.StaysWithin) : Coupling.IsKept (fun _ => True) True q :=
    ⟨q.raisesOnly_true, hq.keeps⟩
  have hkeeps := run_keeps (fun _ _ => trivial) (hsetting.imp hkept)
    (fun r => Action.raisesOnly_true _) (hp.imp hkept) hc s
  rw [h] at hkeeps
  cases x with
  | fraction x => exact (hkeeps trivial).elim
  | position n =>
    have hn : c.pos ≤ n := (hkeeps trivial).1
    rcases Nat.eq_or_lt_of_le hn with heq | hlt
    · exact .inl (by simp [heq])
    · exact .inr (by simp [hlt])

/-- **White space is transparent to alternatives.** Let the input be a text or a byte sequence, and
    let no alternative fail before where it is run.  Then alternatives after white space do what
    alternatives do that are after white space each, and white space before white space makes no
    difference.  A parser after white space does what it does in a sequence after the parser of
    white space, except that a failure where the white space ends is one at the start; so it fails
    at the start exactly if the parser fails where it is run, unless that fails before it. -/
theorem run_eat_anyOf (hitems : c.items = .sequence items)
    (hkind : (∃ cs, items = .text cs) ∨ ∃ kind bs, items = .octets kind bs)
    (hc : c.pos ≤ items.size) (hps : ∀ p ∈ ps, (p.run setting).FailsAhead) (p : Parser σ) :
    (eat (anyOf ps)).run setting c = (anyOf (ps.map eat)).run setting c ∧
      (eat (eat p)).run setting c = (eat p).run setting c ∧
      ∃ r stop, right [.whitespace, p] = .ok r ∧ items.BlankUntil c.pos stop ∧ ∀ s,
        match p.run setting (c.moveTo stop) s with
        | .ok (.success v q) t =>
          r.run setting c s = .ok (.success v q) t ∧ (eat p).run setting c s = .ok (.success v q) t
        | .ok (.failure x) t =>
          r.run setting c s = .ok (.failure x) t ∧ ∃ y, (eat p).run setting c s =
            .ok (.failure y) t ∧
            (x.isAt stop = true → y.isAt c.pos = true) ∧ (x.isAt stop = false → y = x) ∧
            (x.From stop → y.isAt c.pos = x.isAt stop)
        | .error f t => r.run setting c s = .error f t ∧ (eat p).run setting c s = .error f t := by
  obtain ⟨stop, hblank⟩ := Items.exists_blankUntil hc
  have hskip : Leaf.skipBlanks c.items c.pos = .ok stop := by
    rw [hitems]
    exact Leaf.skipBlanks_eq_ok hblank fun j v _ _ hv => Items.isKey_of_get? hkind hv
  have hskip' : Leaf.skipBlanks c.items stop = .ok stop := by
    rw [hitems]
    exact Leaf.skipBlanks_eq_ok hblank.done fun j v _ _ hv => Items.isKey_of_get? hkind hv
  have hstop : stop ≤ c.items.size := by
    rw [hitems]
    exact hblank.stop_le
  refine ⟨?_, ?_, _, stop, keep_of_two_le (Nat.le_refl 2), hblank, fun s => ?_⟩
  · have hsteps : ∀ r ∈ ps.map (run setting), r.FailsAhead := by
      intro r hr
      obtain ⟨q, hq, rfl⟩ := List.mem_map.mp hr
      exact hps q hq
    rw [run_eat, run_anyOf, run_anyOf, Step.eat_choice hskip hblank.start_le hstop hsteps,
      List.map_map, List.map_map]
    simp only [Function.comp_def, run_eat]
  · rw [run_eat, run_eat, Step.eat_eat hskip hskip']
  · have hwhitespace : whitespace.run setting c s = .ok (.success .null stop) s := by
      rw [run_leaf setting (p := whitespace) rfl c s]
      show (Action.ofExcept (Leaf.whitespace c) : Action σ (Outcome Value)) s = _
      rw [Leaf.whitespace, hskip, Step.ok_bind, Leaf.accept_of_le _ hstop]
      rfl
    rw [run_sequence, run_eat, Step.eat_eq hskip, List.map_cons, List.map_cons, List.map_nil,
      Step.sequence_last_of_success hwhitespace]
    cases h : p.run setting (c.moveTo stop) s with
    | error f t => exact ⟨rfl, Action.bind_of_error h⟩
    | ok o t =>
      have heat : (p.run setting (c.moveTo stop) >>= fun o => pure (o.afterBlanks c.pos stop)) s =
          .ok (o.afterBlanks c.pos stop) t :=
        Action.bind_of_ok h
      cases o with
      | success v q => exact ⟨rfl, heat⟩
      | failure x =>
        obtain ⟨y, hy, hstart, hkept⟩ := Outcome.afterBlanks_failure c.pos stop x
        refine ⟨rfl, y, hy ▸ heat, hstart, hkept, fun hfrom => ?_⟩
        have hsame : (Outcome.afterBlanks c.pos stop (.failure x)).failsAt c.pos =
            (Outcome.failure x).failsAt stop := by
          apply Outcome.failsAt_afterBlanks hblank.start_le
          rintro _ ⟨⟩
          exact hfrom
        rwa [hy] at hsame

/-- Two letters after white space.  The second one is taken also if the white space is in front of
    each; and if only the first one is asked for, that fails at the start, and in a sequence after
    the white space. -/
theorem run_eat_anyOf_letters :
    let c := start (.sequence (.text #[' ', '\t', 'b'])) { levels := 50 }
    let ps : List (Parser Unit) := [.char 'a', .char 'b']
    (eat (anyOf ps)).run brackets c () = (anyOf (ps.map eat)).run brackets c () ∧
      (eat (anyOf ps)).run brackets c () = .ok (.success (.ofChar 'b') 3) () ∧
      ∃ r : Parser Unit, right [.whitespace, .char 'a'] = .ok r ∧
        r.run brackets c () = .ok (.failure (.position 2)) () ∧
        (eat (.char 'a')).run brackets c () = .ok (.failure (.position 0)) () := by
  intro c ps
  have hsetting : brackets.Each StaysWithin :=
    each_brackets (fun _ => trivial) (fun _ => trivial) (fun _ _ _ => trivial) fun _ => trivial
  have hps : ∀ p ∈ ps, (p.run brackets).FailsAhead := by
    intro p hp
    rcases List.mem_pair.mp hp with rfl | rfl
    · exact run_failsAhead hsetting (.node trivial nofun)
    · exact run_failsAhead hsetting (.node trivial nofun)
  obtain ⟨hchoice, -, r, -, hr, -⟩ :=
    @run_eat_anyOf Unit _ brackets ps c (.text #[' ', '\t', 'b']) rfl (.inl ⟨_, rfl⟩)
      (Nat.zero_le 3) hps (.char 'a')
  refine ⟨congrFun hchoice (), by with_unfolding_all rfl, r, hr, ?_, by with_unfolding_all rfl⟩
  cases hr
  with_unfolding_all rfl

end Parser

end Itemwise
