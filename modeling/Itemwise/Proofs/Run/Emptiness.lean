import Itemwise.Proofs.Run.Applications

namespace Itemwise

/-!
# Repetitions that have to take an element

A repetition of at least one element does what the one of any number does, except that it fails
where the other one succeeds with none.  Both run the same loop, and whether it has stored an
element can be told from where it stops: it has got further exactly if it has, also where an element
or a separator consumes nothing, and where the sink ends the loop.

* `Tally.IsFrom`, `Turn.KeepsCount` — what is so of a loop that began somewhere, however far it has
  come;
* `Turn.KeepsCount.next`, `Turn.KeepsCount.run` — one turn keeps to it, and so do any number of
  turns;
* `Step.Stores` — the values that the loop of a repetition has stored when it stops;
* `Step.conclude_of_pos`, `Step.conclude_of_count_eq_zero` — how both repetitions are concluded;
* `Parser.run_repeated_nonempty` — a repetition of at least one is one of any number that is refused
  if it is empty.
-/

variable {σ : Type} [Memory σ] {sink : Sink σ}

/-- A sink that has taken some values has taken one more if that is pushed to it. -/
theorem Sink.Takes.concat {acc acc' acc'' : sink.Acc} {vs : List Value} {v : Value}
    {room : Bool} {s t : σ} (h : sink.Takes acc vs acc')
    (hpush : sink.push acc' v s = .ok (acc'', room) t) : sink.Takes acc (vs ++ [v]) acc'' := by
  induction h with
  | nil acc => exact .cons hpush (.nil _)
  | cons hfirst _ ih => exact .cons hfirst (ih hpush)

/-- How far a loop has come that began somewhere with nothing but `acc` collected: without an
    element it is still where it began, with one it is further, and the sink has taken as many
    values as elements are counted. -/
structure Tally.IsFrom (start : Nat) (acc : sink.Acc) (t : Tally sink.Acc) : Prop where
  still : t.count = 0 → t.pos = start ∧ t.dangling = false
  further : 0 < t.count → start < t.pos
  taken : ∃ vs, vs.length = t.count ∧ sink.Takes acc vs t.acc

namespace Tally

variable {start q : Nat} {acc acc' : sink.Acc} {t : Tally sink.Acc} {v : Value}
  {room : Bool} {s u : σ}

/-- A repetition stands at its start before the first round. -/
theorem isFrom_start (start : Nat) (acc : sink.Acc) : IsFrom start acc ⟨start, 0, false, acc⟩ where
  still _ := ⟨rfl, rfl⟩
  further h := absurd h (Nat.lt_irrefl 0)
  taken := ⟨[], rfl, .nil acc⟩

/-- Where a repetition stands is never before its start. -/
theorem IsFrom.le (h : IsFrom start acc t) : start ≤ t.pos := by
  rcases Nat.eq_zero_or_pos t.count with hcount | hcount
  · exact Nat.le_of_eq (h.still hcount).1.symm
  · exact Nat.le_of_lt (h.further hcount)

/-- One more element is stored, further on. -/
theorem IsFrom.push (h : IsFrom start acc t) (hq : t.pos < q)
    (hpush : sink.push t.acc v s = .ok (acc', room) u) :
    IsFrom start acc ⟨q, t.count + 1, false, acc'⟩ where
  still hcount := absurd hcount (Nat.succ_ne_zero _)
  further _ := Nat.lt_of_le_of_lt h.le hq
  taken := by
    obtain ⟨vs, hlength, htakes⟩ := h.taken
    exact ⟨vs ++ [v], by simp [hlength], htakes.concat hpush⟩

/-- A separator comes after an element, so nothing is as in the beginning any more. -/
theorem IsFrom.separate (h : IsFrom start acc t) (hcount : 0 < t.count) (hq : t.pos ≤ q) :
    IsFrom start acc { t with pos := q, dangling := true } where
  still hzero := absurd hzero (Nat.ne_of_gt hcount)
  further _ := Nat.lt_of_lt_of_le (h.further hcount) hq
  taken := h.taken

end Tally

namespace Turn

variable {element : Step σ} {separator : Option (Step σ)} {c : Context} {start : Nat}
  {acc : sink.Acc} {turn turn' : Turn σ sink.Acc} {s u : σ}

/-- However far it has come, a loop has come there from where it began; and before the separator
    there has been an element. -/
def KeepsCount (start : Nat) (acc : sink.Acc) : Turn σ sink.Acc → Prop
  | .element t | .sink t _ _ | .ended (.stopped t) => t.IsFrom start acc
  | .separator _ t => t.IsFrom start acc ∧ 0 < t.count
  | .ended (.broken _) => True

/-- One turn keeps count of the elements. -/
theorem KeepsCount.next (hseparator : ∀ next, separator = some next → next.NeverGoesBack)
    (h : turn.KeepsCount start acc) (hstands : turn.Stands separator c.items.size)
    (hnext : Turn.next element separator sink c turn s = .ok turn' u) :
    turn'.KeepsCount start acc := by
  cases turn with
  | element t =>
    have hfrom : t.IsFrom start acc := h
    rcases next_element_eq_ok hnext with ⟨g, rfl, rfl | ⟨x, rfl⟩⟩ | ⟨v, q, -, -, rfl⟩
    · exact hfrom
    · trivial
    · exact hfrom
  | sink t v q =>
    obtain ⟨acc', room, hpush, hturn⟩ := next_sink_eq_ok hnext
    have hfrom := Tally.IsFrom.push h hstands.1 hpush
    rcases hturn with rfl | rfl | ⟨r, -, rfl⟩
    · exact hfrom
    · exact hfrom
    · exact ⟨hfrom, Nat.succ_pos _⟩
  | separator r t =>
    obtain ⟨hfrom, hcount⟩ : t.IsFrom start acc ∧ 0 < t.count := h
    obtain ⟨hsome, hpos⟩ : separator = some r ∧ t.pos ≤ c.items.size := hstands
    rcases next_separator_eq_ok hnext with ⟨g, rfl, rfl | ⟨x, rfl⟩⟩ | ⟨w, q, hrun, rfl⟩
    · exact hfrom
    · trivial
    · have hback : t.pos ≤ q := (hseparator r hsome _ _ _ _ _ hpos hrun).1
      exact hfrom.separate hcount hback
  | ended g =>
    cases hnext
    exact h

section Turns

variable (helement : element.NeverGoesBack)
  (hseparator : ∀ next, separator = some next → next.NeverGoesBack)
include helement hseparator

/-- Any number of turns keeps count of the elements. -/
theorem KeepsCount.run (h : turn.KeepsCount start acc)
    (hstands : turn.Stands separator c.items.size) (n : Nat)
    (hrun : Turn.run element separator sink c n turn s = .ok turn' u) :
    turn'.KeepsCount start acc := by
  induction n generalizing turn s with
  | zero =>
    cases hrun
    exact h
  | succ n ih =>
    obtain ⟨mid, t, hnext, hrest⟩ := Action.bind_eq_ok hrun
    exact ih (h.next hseparator hstands hnext) (left_next helement hseparator hstands hnext).1 hrest

/-- So where the loop stops, it has come from where it began. -/
theorem isFrom_of_gather (hc : c.pos ≤ c.items.size) {t : Tally sink.Acc}
    (hgather : Step.gather element separator sink c.mostRounds c ⟨c.pos, 0, false, acc⟩ s =
      .ok (.stopped t) u) :
    t.IsFrom c.pos acc := by
  let first : Turn σ sink.Acc := .element ⟨c.pos, 0, false, acc⟩
  have hkeeps : first.KeepsCount c.pos acc := Tally.isFrom_start c.pos acc
  have hstands : first.Stands separator c.items.size := hc
  obtain ⟨n, ⟨g, u', hrun, hg⟩ | ⟨f, u', -, hf⟩⟩ :=
    gather_eq_run helement hseparator (t := ⟨c.pos, 0, false, acc⟩) hc (c.lt_mostRounds c.pos) s
  · cases hgather.symm.trans hg
    exact hkeeps.run helement hseparator hstands n hrun
  · cases hgather.symm.trans hf

end Turns

end Turn

namespace Step

variable {element : Step σ} {separator : Option (Step σ)} {c : Context} {t : Tally sink.Acc}
  {allowTrailing : Bool}

/-- The loop of a repetition stops somewhere, having stored some values, as many as it has counted
    elements. -/
def Stores (element : Step σ) (separator : Option (Step σ)) (sink : Sink σ) (c : Context) (s : σ)
    (vs : List Value) (q : Nat) (u : σ) : Prop :=
  ∃ acc mid t, sink.start s = .ok acc mid ∧
    gather element separator sink c.mostRounds c ⟨c.pos, 0, false, acc⟩ mid = .ok (.stopped t) u ∧
    t.pos = q ∧ t.count = vs.length ∧ sink.Takes acc vs t.acc

omit [Memory σ]

/-- What the value of a repetition is made of leaves the user state as it is. -/
theorem exists_valueAt_eq (sink : Sink σ) (c : Context) (q : Nat) (acc : sink.Acc) (s : σ) :
    ∃ r : Except Fault Value, valueAt sink c q acc s = (Action.ofExcept r : Action σ Value) s := by
  cases sink with
  | discard => exact ⟨c.sliceTo q, rfl⟩
  | sortedDict =>
    refine ⟨(Dict.Draft.toDict acc).sorted.map .dict, ?_⟩
    show (Action.ofExcept (Dict.Draft.toDict acc).sorted >>= _ : Action σ Value) s = _
    cases (Dict.Draft.toDict acc).sorted <;> rfl
  | foldState f read => exact ⟨.ok (read s), rfl⟩
  | list => exact ⟨.ok (.list (Array.toList acc)), rfl⟩
  | dict => exact ⟨.ok (.dict (Dict.Draft.toDict acc)), rfl⟩
  | array n => exact ⟨.ok (FixedArray.toValue acc), rfl⟩
  | fold init f => exact ⟨.ok acc, rfl⟩
  | own yieldsStretch start push finish =>
    cases yieldsStretch with
    | true => exact ⟨c.sliceTo q, rfl⟩
    | false => exact ⟨finish acc s, rfl⟩

/-- With an element, both repetitions are concluded in the same way. -/
theorem conclude_of_pos (h : 0 < t.count) :
    conclude sink c allowTrailing 1 (.stopped t) =
      conclude sink c allowTrailing 0 (.stopped t) := by
  have hone : ¬ t.count < 1 := by omega
  have hnone : ¬ t.count < 0 := by omega
  simp only [conclude, if_neg hone, if_neg hnone]

/-- A repetition of any number fails after a last separator that may not be there, and else has the
    value of what it stored. -/
theorem conclude_zero : conclude sink c allowTrailing 0 (.stopped t) =
    if t.dangling && !allowTrailing then pure (.failure t.pos)
    else do return .success (← valueAt sink c t.pos t.acc) t.pos := by
  have hnone : ¬ t.count < 0 := by omega
  simp only [conclude, if_neg hnone, valueAt]
  congr 1
  split <;> rfl

/-- Without an element, a repetition of at least one fails where it is. -/
theorem conclude_of_count_eq_zero (h : t.count = 0) :
    conclude sink c allowTrailing 1 (.stopped t) = pure (.failure t.pos) := by
  have hone : t.count < 1 := by omega
  simp only [conclude, if_pos hone, ite_self]

/-- If a repetition succeeds, it does so where its loop stopped, in the user state of that. -/
theorem conclude_eq_success {v : Value} {q : Nat} {u u' : σ}
    (h : conclude sink c allowTrailing 0 (.stopped t) u = .ok (.success v q) u') :
    q = t.pos ∧ u' = u := by
  obtain ⟨r, hr⟩ := exists_valueAt_eq sink c t.pos t.acc u
  rw [conclude_zero] at h
  split at h
  · cases h
  · cases r with
    | error f =>
      rw [Action.bind_of_error hr] at h
      cases h
    | ok w =>
      rw [Action.bind_of_ok hr] at h
      cases h
      exact ⟨rfl, rfl⟩

variable [Memory σ] {s t u : σ}

/-- If the element first succeeds without consuming anything, there is no element. -/
theorem many_of_empty {acc : sink.Acc} {v : Value} (hstart : sink.start s = .ok acc u)
    (h : element c u = .ok (.success v c.pos) t) :
    many element separator allowTrailing sink 1 c s = .ok (.failure c.pos) t := by
  have hrounds := c.lt_mostRounds c.pos
  obtain ⟨fuel, hfuel⟩ : ∃ fuel, c.mostRounds = fuel + 1 := ⟨c.mostRounds - 1, by omega⟩
  have hgather : gather element separator sink c.mostRounds c ⟨c.pos, 0, false, acc⟩ u =
      .ok (.stopped ⟨c.pos, 0, false, acc⟩) t := by
    rw [hfuel]
    refine (Action.bind_of_ok (v := .success v c.pos) h).trans ?_
    simp only [if_true]
    rfl
  rw [many_eq_conclude, Action.bind_of_ok hstart, Action.bind_of_ok hgather,
    conclude_of_count_eq_zero rfl]
  rfl

/-- A repetition of at least one element comes to what that of any number comes to, unless it is
    empty. -/
theorem many_nonempty (helement : element.NeverGoesBack)
    (hseparator : ∀ next, separator = some next → next.NeverGoesBack)
    (hc : c.pos ≤ c.items.size) (s : σ) :
    match many element separator allowTrailing sink 0 c s with
    | .ok (.failure x) t => many element separator allowTrailing sink 1 c s = .ok (.failure x) t
    | .ok (.success v q) t =>
      ∃ vs, Stores element separator sink c s vs q t ∧ (vs ≠ [] ↔ c.pos < q) ∧
        (vs ≠ [] → many element separator allowTrailing sink 1 c s = .ok (.success v q) t) ∧
        (vs = [] → many element separator allowTrailing sink 1 c s = .ok (.failure c.pos) t)
    | .error f t => many element separator allowTrailing sink 1 c s = .error f t ∨
        many element separator allowTrailing sink 1 c s = .ok (.failure c.pos) t := by
  rw [many_eq_conclude, many_eq_conclude]
  cases hstart : sink.start s with
  | error f t =>
    rw [Action.bind_of_error hstart, Action.bind_of_error hstart]
    exact .inl rfl
  | ok acc mid =>
    rw [Action.bind_of_ok hstart, Action.bind_of_ok hstart]
    cases hgather : gather element separator sink c.mostRounds c ⟨c.pos, 0, false, acc⟩ mid with
    | error f t =>
      rw [Action.bind_of_error hgather, Action.bind_of_error hgather]
      exact .inl rfl
    | ok g u =>
      rw [Action.bind_of_ok hgather, Action.bind_of_ok hgather]
      cases g with
      | broken x => rfl
      | stopped t =>
        have hfrom := Turn.isFrom_of_gather helement hseparator hc hgather
        obtain ⟨vs, hlength, htakes⟩ := hfrom.taken
        rcases Nat.eq_zero_or_pos t.count with hcount | hcount
        · -- nothing is stored, so the loop is where it began
          obtain ⟨hpos, hdangling⟩ := hfrom.still hcount
          obtain rfl : vs = [] := List.length_eq_zero_iff.mp (hlength.trans hcount)
          obtain ⟨r, hr⟩ := exists_valueAt_eq sink c t.pos t.acc u
          rw [conclude_of_count_eq_zero hcount, conclude_zero, hdangling, hpos]
          rw [hpos] at hr
          simp only [Bool.false_and, Bool.false_eq_true, if_false]
          cases r with
          | error f =>
            rw [Action.bind_of_error hr]
            exact .inr rfl
          | ok v =>
            rw [Action.bind_of_ok hr]
            exact ⟨[], ⟨acc, mid, t, hstart, hgather, hpos, hcount, htakes⟩, by simp,
              by simp, fun _ => rfl⟩
        · -- something is stored, so the loop has got further
          have hfurther := hfrom.further hcount
          rw [conclude_of_pos hcount]
          have hvs : vs ≠ [] := by
            rintro rfl
            rw [← hlength] at hcount
            exact absurd hcount (Nat.lt_irrefl 0)
          cases h : conclude sink c allowTrailing 0 (.stopped t) u with
          | error f t' => exact .inl rfl
          | ok o t' =>
            cases o with
            | failure x => rfl
            | success v q =>
              obtain ⟨rfl, rfl⟩ := conclude_eq_success h
              exact ⟨vs, ⟨acc, mid, t, hstart, hgather, rfl, hlength.symm, htakes⟩,
                by simp [hvs, hfurther], fun _ => rfl,
                fun hnil => absurd hnil hvs⟩

end Step

namespace Parser

variable {setting : Setting σ} {p : Parser σ} {separator : Option (Separator σ)} {c : Context}

/-- **A repetition of at least one element is one of any number that is refused if it is empty.**
    Let the element and the separator never go back, whether or not they consume anything, and let
    the sink be any.  If the repetition of any number fails, so does that of at least one, at the
    same place.  If it succeeds, it has got further exactly if it has stored a value; with a value,
    both come to the same, and without one, the repetition of at least one fails at the start, as it
    does whenever the element first succeeds there without consuming anything.  Where the one ends
    in a fault, the other one does, or fails at the start. -/
theorem run_repeated_nonempty (hp : (p.run setting).NeverGoesBack)
    (hseparator : ∀ r, separator = some r → (r.parser.run setting).NeverGoesBack)
    (hc : c.pos ≤ c.items.size) (s : σ) :
    (match (repeated p sink separator 0).run setting c s with
      | .ok (.failure x) t => (repeated p sink separator 1).run setting c s = .ok (.failure x) t
      | .ok (.success v q) t =>
          ∃ vs, Step.Stores (p.run setting) (separator.map (·.parser.run setting)) sink c s vs q t ∧
            (vs ≠ [] ↔ c.pos < q) ∧
            (vs ≠ [] → (repeated p sink separator 1).run setting c s = .ok (.success v q) t) ∧
            (vs = [] → (repeated p sink separator 1).run setting c s = .ok (.failure c.pos) t)
      | .error f t => (repeated p sink separator 1).run setting c s = .error f t ∨
          (repeated p sink separator 1).run setting c s = .ok (.failure c.pos) t) ∧
      ∀ acc u v t, sink.start s = .ok acc u → p.run setting c u = .ok (.success v c.pos) t →
        (repeated p sink separator 1).run setting c s = .ok (.failure c.pos) t := by
  rw [run_repeated_eq, run_repeated_eq]
  refine ⟨Step.many_nonempty hp (forall_separator (P := Step.NeverGoesBack) hseparator) hc s,
    fun acc u v t hstart hempty => ?_⟩
  exact Step.many_of_empty hstart hempty

/-- Letters that need not be there.  Where there are two of them, the repetition has to store some,
    and comes to the same if it must; where there is none, the letter succeeds without consuming
    anything, and the repetition of at least one fails. -/
theorem run_repeated_nonempty_optional :
    let p : Parser Unit := .optional (.char 'a')
    let c (cs : Array Char) := start (.sequence (.text cs)) { levels := 50 }
    (∃ vs, Step.Stores (p.run brackets) none .list (c #['a', 'a', 'b']) () vs 2 () ∧ vs ≠ [] ∧
        (repeated p .list none 1).run brackets (c #['a', 'a', 'b']) () =
          .ok (.success (.list [.ofChar 'a', .ofChar 'a']) 2) ()) ∧
      p.run brackets (c #['b']) () = .ok (.success .null 0) () ∧
      (repeated p .list none 0).run brackets (c #['b']) () = .ok (.success (.list []) 0) () ∧
      (repeated p .list none 1).run brackets (c #['b']) () = .ok (.failure (.position 0)) () := by
  intro p c
  have hp : ((Parser.optional (.char 'a')).run brackets).NeverGoesBack := by
    apply run_neverGoesBack brackets_movesForward
    refine .node trivial ?_
    rintro _ ⟨⟩
    exact .node trivial nofun
  have hseparator : ∀ r, (none : Option (Separator Unit)) = some r →
      (r.parser.run brackets).NeverGoesBack := nofun
  have hletters : (repeated p .list none 0).run brackets (c #['a', 'a', 'b']) () =
      .ok (.success (.list [.ofChar 'a', .ofChar 'a']) 2) () := by with_unfolding_all rfl
  have hnone : p.run brackets (c #['b']) () = .ok (.success .null 0) () := by with_unfolding_all rfl
  refine ⟨?_, hnone, by with_unfolding_all rfl, ?_⟩
  · obtain ⟨hsame, -⟩ :=
      @run_repeated_nonempty Unit _ .list brackets p none (c #['a', 'a', 'b']) hp hseparator
        (Nat.zero_le 3) ()
    rw [hletters] at hsame
    obtain ⟨vs, hstores, hmoved, hone, -⟩ := hsame
    have hvs : vs ≠ [] := hmoved.mpr (show 0 < 2 by decide)
    exact ⟨vs, hstores, hvs, hone hvs⟩
  · exact (@run_repeated_nonempty Unit _ .list brackets p none (c #['b']) hp hseparator
      (Nat.zero_le 1) ()).2 #[] () .null () rfl hnone

end Parser

end Itemwise
