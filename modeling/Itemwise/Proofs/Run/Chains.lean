import Itemwise.Proofs.Run.Greedy

namespace Itemwise

/-!
# Chains

What a chain comes to is told by its rounds, each of an operator and an operand, which are taken for
as long as both succeed and get further together.

* `Step.Joins` — a round that counts;
* `Step.ChainRun` — the rounds from a position and a value on, with what they come to;
* `Step.Combines` — values combined from the left;
* `Step.exists_chainRun`, `Step.foldRounds_chainRun` — there are such rounds, and the loop follows
  them;
* `Parser.run_chain` — a chain comes to what the rounds after its first operand come to.
-/

namespace Step

variable {σ : Type}

section Rounds

variable (operand operator : Step σ)
  (combine : Value → Value → Value → Action σ Value) (c : Context)

/-- A round counts: an operator and an operand succeed one after the other and get further
    together. -/
structure Joins (pos : Nat) (s : σ) (f w : Value) (q : Nat) (t : σ) : Prop where
  further : pos < q
  taken : ∃ mid u, operator (c.moveTo pos) s = .ok (.success f mid) u ∧
    operand (c.moveTo mid) u = .ok (.success w q) t

/-- The rounds from a position and a value on: the operators and operands of those that count, in
    order, and what it all comes to.  It stops after the last operand that counts. -/
inductive ChainRun :
    (pos : Nat) → Value → σ → List (Value × Value) → Except Fault (Outcome Value) → σ → Prop
  /-- A round counts, and its operator combines the value so far with its operand. -/
  | round {pos v s f w q t v' t' rounds e u} (hround : Joins operand operator c pos s f w q t)
      (hvalue : combine f v w t = .ok v' t') (hrest : ChainRun q v' t' rounds e u) :
      ChainRun pos v s ((f, w) :: rounds) e u
  /-- The operator fails where it started. -/
  | noOperator {pos v s x u} (h : operator (c.moveTo pos) s = .ok (.failure x) u)
      (hx : x.isAt pos = true) :
      ChainRun pos v s [] (.ok (.success v pos)) u
  /-- The operand fails where it started. -/
  | noOperand {pos v s f mid t x u} (hop : operator (c.moveTo pos) s = .ok (.success f mid) t)
      (h : operand (c.moveTo mid) t = .ok (.failure x) u) (hx : x.isAt mid = true) :
      ChainRun pos v s [] (.ok (.success v pos)) u
  /-- The operator and the operand consume nothing. -/
  | emptyRound {pos v s f mid t w u} (hop : operator (c.moveTo pos) s = .ok (.success f mid) t)
      (h : operand (c.moveTo mid) t = .ok (.success w pos) u) :
        ChainRun pos v s [] (.ok (.success v pos)) u
  /-- The operator fails further on. -/
  | brokenOperator {pos v s x u} (h : operator (c.moveTo pos) s = .ok (.failure x) u)
      (hx : x.isAt pos = false) :
      ChainRun pos v s [] (.ok (.failure x)) u
  /-- The operand fails further on. -/
  | brokenOperand {pos v s f mid t x u} (hop : operator (c.moveTo pos) s = .ok (.success f mid) t)
      (h : operand (c.moveTo mid) t = .ok (.failure x) u) (hx : x.isAt mid = false) :
      ChainRun pos v s [] (.ok (.failure x)) u
  /-- The operator ends in a fault. -/
  | raisedOperator {pos v s f u} (h : operator (c.moveTo pos) s = .error f u) :
      ChainRun pos v s [] (.error f) u
  /-- The operand ends in a fault. -/
  | raisedOperand {pos v s f mid t fault u}
      (hop : operator (c.moveTo pos) s = .ok (.success f mid) t)
      (h : operand (c.moveTo mid) t = .error fault u) : ChainRun pos v s [] (.error fault) u
  /-- The operator of a round that counts cannot combine the value so far with its operand. -/
  | raisedValue {pos v s f w q t fault u} (hround : Joins operand operator c pos s f w q t)
      (hvalue : combine f v w t = .error fault u) : ChainRun pos v s [] (.error fault) u

/-- From a value, some rounds come to another by combining their operands with it from the left. -/
inductive Combines : Value → List (Value × Value) → Value → Prop
  | nil (v : Value) : Combines v [] v
  | cons {f v w v' v'' rounds s t} (hvalue : combine f v w s = .ok v' t)
      (h : Combines v' rounds v'') :
    Combines v ((f, w) :: rounds) v''

end Rounds

variable {operand operator : Step σ}
  {combine : Value → Value → Value → Action σ Value} {c : Context}

/-- Where what an operator makes of two operands depends on nothing else, a chain is a fold. -/
theorem Combines.eq_foldl {F : Value → Value → Value → Value}
    (hF : ∀ f v w s u t, combine f v w s = .ok u t → u = F f v w) {v v' : Value}
    {rounds : List (Value × Value)} (h : Combines combine v rounds v') :
    v' = rounds.foldl (fun v r => F r.1 v r.2) v := by
  induction h with
  | nil v => rfl
  | cons hvalue _ ih => rw [List.foldl_cons, ih, hF _ _ _ _ _ _ hvalue]

/-! ### The loop follows the rounds -/

/-- What a chain comes to where it stops is combined from the left. -/
theorem ChainRun.combines {pos r : Nat} {v w : Value} {s u : σ} {rounds : List (Value × Value)}
    (h : ChainRun operand operator combine c pos v s rounds (.ok (.success w r)) u) :
    Combines combine v rounds w := by
  generalize he : (.ok (.success w r) : Except Fault (Outcome Value)) = e at h
  induction h with
  | round _ hvalue _ ih => exact .cons hvalue (ih he)
  | noOperator | noOperand | emptyRound =>
    cases he
    exact .nil _
  | _ => cases he

/-- After a round that counts, the cursor is still within the input. -/
theorem Joins.le_size {pos q : Nat} {f w : Value} {s t : σ}
    (h : Joins operand operator c pos s f w q t) (hoperand : operand.NeverGoesBack)
    (hoperator : operator.NeverGoesBack) (hpos : pos ≤ c.items.size) :
    q ≤ c.items.size := by
  obtain ⟨-, mid, u, hop, hrun⟩ := h
  have hmid : mid ≤ c.items.size := (hoperator (c.moveTo pos) s f mid u hpos hop).2
  exact (hoperand (c.moveTo mid) u w q t hmid hrun).2

/-- No more rounds count than there are items ahead. -/
theorem ChainRun.length_le (hoperand : operand.NeverGoesBack) (hoperator : operator.NeverGoesBack)
    {pos : Nat} {v : Value} {s u : σ} {rounds : List (Value × Value)}
    {e : Except Fault (Outcome Value)} (h : ChainRun operand operator combine c pos v s rounds e u)
    (hpos : pos ≤ c.items.size) :
    rounds.length ≤ c.items.size - pos := by
  induction h with
  | round hround _ _ ih =>
    have hfurther := hround.further
    have hsize := hround.le_size hoperand hoperator hpos
    have hrest := ih hsize
    rw [List.length_cons]
    omega
  | _ => exact Nat.zero_le _

/-- Once the operator has succeeded, the round is up to the operand. -/
theorem foldRounds_of_operator {pos mid : Nat} {s t : σ} {f : Value}
    (hop : operator (c.moveTo pos) s = .ok (.success f mid) t) (v : Value) (fuel : Nat) :
    foldRounds operand operator combine (fuel + 1) c v pos s =
      (do match ← operand (c.moveTo mid) with
          | .failure r => if r.isAt mid then return .success v pos else return .failure r
          | .success w r =>
            if r = pos then return .success v pos
            else
              let next ← combine f v w
              foldRounds operand operator combine fuel c next r : Action σ (Outcome Value)) t :=
  Action.bind_of_ok hop

/-- A round that counts combines its operand, and the next round starts behind it. -/
theorem Joins.foldRounds_succ {pos q : Nat} {s t : σ} {f w : Value}
    (hround : Joins operand operator c pos s f w q t) (v : Value) (fuel : Nat) :
    foldRounds operand operator combine (fuel + 1) c v pos s =
      (combine f v w >>= fun next => foldRounds operand operator combine fuel c next q) t := by
  obtain ⟨hfurther, mid, u, hop, hrun⟩ := hround
  have hmoved : q ≠ pos := by omega
  rw [foldRounds_of_operator hop, Action.bind_of_ok hrun]
  simp only [if_neg hmoved]

/-- The loop follows the rounds, if it may start one more than there are items ahead. -/
theorem foldRounds_chainRun (hoperand : operand.NeverGoesBack) (hoperator : operator.NeverGoesBack)
    {pos : Nat} {v : Value} {s u : σ} {rounds : List (Value × Value)}
    {e : Except Fault (Outcome Value)} (h : ChainRun operand operator combine c pos v s rounds e u)
    (hpos : pos ≤ c.items.size) (fuel : Nat) (hfuel : c.items.size - pos ≤ fuel) :
    foldRounds operand operator combine (fuel + 1) c v pos s =
      (Action.ofExcept e : Action σ (Outcome Value)) u := by
  -- On the rounds: each constructor is one way through the body of the loop.
  induction h generalizing fuel with
  | @round pos v s f w q t v' t' rounds e u hround hvalue _ ih =>
    have hfurther := hround.further
    have hsize := hround.le_size hoperand hoperator hpos
    obtain ⟨left, rfl⟩ : ∃ left, fuel = left + 1 := ⟨fuel - 1, by omega⟩
    rw [hround.foldRounds_succ, Action.bind_of_ok hvalue]
    exact ih hsize left (by omega)
  | @noOperator pos v s x u h hx =>
    show (operator (c.moveTo pos) >>= _) s = _
    rw [Action.bind_of_ok h]
    simp only [hx, if_true]
    rfl
  | @noOperand pos v s f mid t x u hop h hx =>
    rw [foldRounds_of_operator hop, Action.bind_of_ok h]
    simp only [hx, if_true]
    rfl
  | @emptyRound pos v s f mid t w u hop h =>
    rw [foldRounds_of_operator hop, Action.bind_of_ok h]
    simp only [if_true]
    rfl
  | @brokenOperator pos v s x u h hx =>
    show (operator (c.moveTo pos) >>= _) s = _
    rw [Action.bind_of_ok h]
    simp only [hx, Bool.false_eq_true, if_false]
    rfl
  | @brokenOperand pos v s f mid t x u hop h hx =>
    rw [foldRounds_of_operator hop, Action.bind_of_ok h]
    simp only [hx, Bool.false_eq_true, if_false]
    rfl
  | raisedOperator h => exact Action.bind_of_error h
  | @raisedOperand pos v s f mid t fault u hop h =>
    rw [foldRounds_of_operator hop, Action.bind_of_error h]
    rfl
  | @raisedValue pos v s f w q t fault u hround hvalue =>
    rw [hround.foldRounds_succ, Action.bind_of_error hvalue]
    rfl

/-- There are rounds from every position in the input and every value on. -/
theorem exists_chainRun (hoperand : operand.NeverGoesBack) (hoperator : operator.NeverGoesBack)
    (left : Nat) {pos : Nat} (hpos : pos ≤ c.items.size) (hleft : c.items.size - pos = left)
    (v : Value) (s : σ) :
    ∃ rounds e u, ChainRun operand operator combine c pos v s rounds e u := by
  -- On the items ahead: a round that counts leaves fewer.
  induction left using Nat.strongRecOn generalizing pos v s with
  | ind left ih =>
    cases hop : operator (c.moveTo pos) s with
    | error f u => exact ⟨_, _, _, .raisedOperator hop⟩
    | ok o t =>
      cases o with
      | failure x =>
        cases hx : x.isAt pos with
        | true => exact ⟨_, _, _, .noOperator hop hx⟩
        | false => exact ⟨_, _, _, .brokenOperator hop hx⟩
      | success f mid =>
        obtain ⟨hback, hmid⟩ := hoperator _ _ _ _ _ hpos hop
        have hback : pos ≤ mid := hback
        have hmid : mid ≤ c.items.size := hmid
        cases hrun : operand (c.moveTo mid) t with
        | error fault u => exact ⟨_, _, _, .raisedOperand hop hrun⟩
        | ok o u =>
          cases o with
          | failure x =>
            cases hx : x.isAt mid with
            | true => exact ⟨_, _, _, .noOperand hop hrun hx⟩
            | false => exact ⟨_, _, _, .brokenOperand hop hrun hx⟩
          | success w q =>
            obtain ⟨hback', hq⟩ := hoperand _ _ _ _ _ hmid hrun
            have hback' : mid ≤ q := hback'
            have hq : q ≤ c.items.size := hq
            by_cases hmoved : q = pos
            · subst hmoved
              exact ⟨_, _, _, .emptyRound hop hrun⟩
            · have hfurther : pos < q := by omega
              have hround : Joins operand operator c pos s f w q u := ⟨hfurther, mid, t, hop, hrun⟩
              cases hvalue : combine f v w u with
              | error fault t' => exact ⟨_, _, _, .raisedValue hround hvalue⟩
              | ok v' t' =>
                obtain ⟨rounds, e, u', hrest⟩ := ih (c.items.size - q) (by omega) hq rfl v' t'
                exact ⟨_, _, _, .round hround hvalue hrest⟩

end Step

/-! ### Chains -/

namespace Parser

variable {σ : Type} [Memory σ] {setting : Setting σ} {p op : Parser σ}
  {combine : Value → Value → Value → Action σ Value}

/-- A chain runs its operand and its operator. -/
theorem run_chain_eq :
    (chain p op combine).run setting = Step.chain (p.run setting) (op.run setting) combine := by
  rw [run_eq setting (chain p op combine), run_eq setting p, run_eq setting op]
  rfl

/-- **Chains fold from the left.** Let the operand and the operator never go back.  If the first
    operand fails or ends in a fault, so does the chain.  Otherwise there are rounds from its value
    and its end on, and whatever rounds there are, the chain comes to what they come to.  At most as
    many of them count as there are items ahead, so the loop never starts more than one round beyond
    that.  Where the chain succeeds, its value is combined from the left, by a fold if the operators
    are functions. -/
theorem run_chain (hp : (p.run setting).NeverGoesBack)
    (hop : (op.run setting).NeverGoesBack) {c : Context} (hc : c.pos ≤ c.items.size) (s : σ) :
    match p.run setting c s with
    | .error f t => (chain p op combine).run setting c s = .error f t
    | .ok (.failure x) t => (chain p op combine).run setting c s = .ok (.failure x) t
    | .ok (.success v q) t =>
      (∃ rounds e u, Step.ChainRun (p.run setting) (op.run setting) combine c q v t rounds e u) ∧
        ∀ rounds e u, Step.ChainRun (p.run setting) (op.run setting) combine c q v t rounds e u →
          (chain p op combine).run setting c s = (Action.ofExcept e : Action σ (Outcome Value)) u ∧
            rounds.length ≤ c.items.size - q ∧
            Step.foldRounds (p.run setting) (op.run setting) combine
              (c.items.size - q + 1) c v q t = (Action.ofExcept e : Action σ (Outcome Value)) u ∧
            ∀ w r, e = .ok (.success w r) → Step.Combines combine v rounds w ∧
              ∀ F : Value → Value → Value → Value,
                (∀ f v w s u t, combine f v w s = .ok u t → u = F f v w) →
                w = rounds.foldl (fun v r => F r.1 v r.2) v := by
  rw [run_chain_eq]
  cases hfirst : p.run setting c s with
  | error f t => exact Action.bind_of_error hfirst
  | ok o t =>
    cases o with
    | failure x => exact Action.bind_of_ok hfirst
    | success v q =>
      have hq : q ≤ c.items.size := (hp c s v q t hc hfirst).2
      refine ⟨Step.exists_chainRun hp hop _ hq rfl v t, fun rounds e u h => ?_⟩
      have hloop := Step.foldRounds_chainRun hp hop h hq
      refine ⟨?_, h.length_le hp hop hq, hloop _ (Nat.le_refl _), ?_⟩
      · have hrounds := c.lt_mostRounds q
        have hmost := hloop (c.mostRounds - 1) (by omega)
        rw [Nat.sub_add_cancel (by omega)] at hmost
        show (p.run setting c >>= _) s = _
        rw [Action.bind_of_ok hfirst]
        exact hmost
      · rintro w r rfl
        exact ⟨h.combines, fun F hF => h.combines.eq_foldl hF⟩

/-- Letters joined by dashes: the dash at the end joins nothing, and is left where it is. -/
theorem run_chain_dangling :
    (chain (.char 'a') (.char '-') fun f v w => pure (.tuple [v, f, w])).run brackets
      (start (.sequence (.text #['a', '-', 'a', '-', 'a', '-'])) { levels := 50 }) () =
        .ok (.success (.tuple [.tuple [.ofChar 'a', .ofChar '-', .ofChar 'a'], .ofChar '-',
          .ofChar 'a']) 5) () := by
  have hchar (x : Char) : ((Parser.char x).run brackets).NeverGoesBack := by
    have heach : (Parser.char x : Parser Unit).Each MovesForward := .node trivial nofun
    exact run_neverGoesBack brackets_movesForward heach
  have hchain := @run_chain _ _ brackets (.char 'a') (.char '-')
    (fun f v w => pure (.tuple [v, f, w])) (hchar 'a') (hchar '-')
    (start (.sequence (.text #['a', '-', 'a', '-', 'a', '-'])) { levels := 50 }) (Nat.zero_le _) ()
  have hfirst : (Parser.char 'a').run brackets
      (start (.sequence (.text #['a', '-', 'a', '-', 'a', '-'])) { levels := 50 }) () =
        .ok (.success (.ofChar 'a') 1) () := by
    with_unfolding_all rfl
  rw [hfirst] at hchain
  obtain ⟨-, hrounds⟩ := hchain
  refine (hrounds [(.ofChar '-', .ofChar 'a'), (.ofChar '-', .ofChar 'a')]
    (.ok (.success (.tuple [.tuple [.ofChar 'a', .ofChar '-', .ofChar 'a'], .ofChar '-',
      .ofChar 'a']) 5)) () ?_).1
  -- Two rounds count; after the third dash the operand fails at the end of the input.
  refine .round (q := 3) (t := ()) ⟨by decide, 2, (), ?_, ?_⟩ rfl ?_
  · with_unfolding_all rfl
  · with_unfolding_all rfl
  refine .round (q := 5) (t := ()) ⟨by decide, 4, (), ?_, ?_⟩ rfl ?_
  · with_unfolding_all rfl
  · with_unfolding_all rfl
  refine .noOperand (x := .position 6)
    (?_ : _ = EStateM.Result.ok (Outcome.success (.ofChar '-') 6) ()) ?_ rfl
  · with_unfolding_all rfl
  · with_unfolding_all rfl

end Parser

end Itemwise
