import Itemwise.Proofs.Run.Termination

namespace Itemwise

/-!
# Greedy runs

What a repetition comes to is told by the run of its elements and separators, which is greedy: they
take turns for as long as an element gets further.

* `Sink.HasRoom`, `Step.NeverGoesBack` — what is asked of the sink, and of the element and the
  separator;
* `Step.GreedyRun` — the run from a position on, with the values that count and how it ends;
* `Step.verdict` — what a repetition comes to by how its run ends;
* `Step.exists_greedyRun`, `Step.gather_greedyRun` — there is such a run, and the loop follows it;
* `Parser.run_repeated` — a repetition of at least none or one comes to the verdict on its run.
-/

/-! ### Actions one after the other -/

section Actions

variable {σ α β : Type} {a : Action σ α} {k : α → Action σ β} {s t : σ}

/-- What follows an action that succeeds goes on from its result and its state. -/
theorem Action.bind_of_ok {v : α} (h : a s = .ok v t) : (a >>= k) s = k v t := by
  show EStateM.bind a k s = k v t
  simp only [EStateM.bind, h]

/-- Nothing follows an action that ends in a fault. -/
theorem Action.bind_of_error {f : Fault} (h : a s = .error f t) : (a >>= k) s = .error f t := by
  show EStateM.bind a k s = .error f t
  simp only [EStateM.bind, h]

end Actions

variable {σ : Type}

/-- Whatever a sink has collected, it has room for more. -/
def Sink.HasRoom [Memory σ] (sink : Sink σ) : Prop :=
  ∀ acc v s acc' room t, sink.push acc v s = .ok (acc', room) t → room = true

/-- From some collection, a sink comes to another by taking values in order. -/
inductive Sink.Takes [Memory σ] (sink : Sink σ) : sink.Acc → List Value → sink.Acc → Prop
  | nil (acc : sink.Acc) : Takes sink acc [] acc
  | cons {acc acc' acc'' v vs room s t} (hpush : sink.push acc v s = .ok (acc', room) t)
      (h : Takes sink acc' vs acc'') :
    Takes sink acc (v :: vs) acc''

/-- A list has the values at its end that it has taken. -/
theorem Sink.Takes.list_eq [Memory σ] {xs xs' : (Sink.list : Sink σ).Acc} {vs : List Value}
    (h : Sink.Takes .list xs vs xs') : Array.toList xs' = Array.toList xs ++ vs := by
  induction h with
  | nil xs => exact (List.append_nil (Array.toList xs)).symm
  | @cons xs ys zs v vs room s t hpush _ ih =>
    cases hpush
    have hpushed : Array.toList (Array.push xs v) = Array.toList xs ++ [v] := Array.toList_push
    exact ih.trans (by rw [hpushed, List.append_assoc, List.singleton_append])

namespace Step

/-- A step succeeds neither before where it was run nor behind the end of the input, where no cursor
    can be. -/
def NeverGoesBack (step : Step σ) : Prop :=
  ∀ c s v q t, c.pos ≤ c.items.size → step c s = .ok (.success v q) t → c.pos ≤ q ∧ q ≤ c.items.size

/-- How a run ends: it stops somewhere, right after a separator or not; a part fails that had
    consumed; or there is a fault. -/
inductive Ending (α : Type)
  | stopped (pos : Nat) (dangling : Bool) (acc : α)
  | broken (place : Place)
  | raised (f : Fault)

section Runs

variable [Memory σ] (element : Step σ) (separator : Option (Step σ)) (sink : Sink σ) (c : Context)

/-- An element counts: it succeeds past its start, and the sink takes its value. -/
structure Counts (pos : Nat) (acc : sink.Acc) (s : σ) (v : Value) (q : Nat) (acc' : sink.Acc)
    (t : σ) : Prop where
  further : pos < q
  taken : ∃ u, element (c.moveTo pos) s = .ok (.success v q) u ∧
    sink.push acc v u = .ok (acc', true) t

/-- The run of elements and separators from a position on, where an element is due: the values of
    those that count, in order, and how the run ends.  `dangling` tells whether the last thing
    before it was a separator. -/
inductive GreedyRun :
    (pos : Nat) → (dangling : Bool) → sink.Acc → σ → List Value → Ending sink.Acc → σ → Prop
  /-- An element counts, and there are no separators. -/
  | further {pos d acc s v q acc' t vs e u} (hv : Counts element sink c pos acc s v q acc' t)
      (hnone : separator = none) (hrest : GreedyRun q false acc' t vs e u) :
        GreedyRun pos d acc s (v :: vs) e u
  /-- An element counts, and a separator follows. -/
  | separated {pos d acc s v q acc' t next w r t' vs e u}
      (hv : Counts element sink c pos acc s v q acc' t) (hnext : separator = some next)
      (hr : next (c.moveTo q) t = .ok (.success w r) t')
      (hrest : GreedyRun r true acc' t' vs e u) : GreedyRun pos d acc s (v :: vs) e u
  /-- The element fails where it started. -/
  | noElement {pos d acc s x u} (h : element (c.moveTo pos) s = .ok (.failure x) u)
      (hx : x.isAt pos = true) :
      GreedyRun pos d acc s [] (.stopped pos d acc) u
  /-- The element consumes nothing. -/
  | emptyElement {pos d acc s v u} (h : element (c.moveTo pos) s = .ok (.success v pos) u) :
      GreedyRun pos d acc s [] (.stopped pos d acc) u
  /-- An element counts, and the separator fails where it started. -/
  | noSeparator {pos d acc s v q acc' t next x u} (hv : Counts element sink c pos acc s v q acc' t)
      (hnext : separator = some next) (h : next (c.moveTo q) t = .ok (.failure x) u)
      (hx : x.isAt q = true) :
      GreedyRun pos d acc s [v] (.stopped q false acc') u
  /-- The element fails further on. -/
  | brokenElement {pos d acc s x u} (h : element (c.moveTo pos) s = .ok (.failure x) u)
      (hx : x.isAt pos = false) :
      GreedyRun pos d acc s [] (.broken x) u
  /-- An element counts, and the separator fails further on. -/
  | brokenSeparator {pos d acc s v q acc' t next x u}
      (hv : Counts element sink c pos acc s v q acc' t) (hnext : separator = some next)
      (h : next (c.moveTo q) t = .ok (.failure x) u) (hx : x.isAt q = false) :
      GreedyRun pos d acc s [v] (.broken x) u
  /-- The element ends in a fault. -/
  | raisedElement {pos d acc s f u} (h : element (c.moveTo pos) s = .error f u) :
      GreedyRun pos d acc s [] (.raised f) u
  /-- The sink refuses the value of an element. -/
  | raisedPush {pos d acc s v q t f u} (h : element (c.moveTo pos) s = .ok (.success v q) t)
      (hq : pos < q) (hpush : sink.push acc v t = .error f u) :
        GreedyRun pos d acc s [] (.raised f) u
  /-- An element counts, and the separator ends in a fault. -/
  | raisedSeparator {pos d acc s v q acc' t next f u}
      (hv : Counts element sink c pos acc s v q acc' t) (hnext : separator = some next)
      (h : next (c.moveTo q) t = .error f u) : GreedyRun pos d acc s [v] (.raised f) u

/-- The value of a repetition that has come to a position: the stretch it consumed, or what the sink
    makes of its collection. -/
def valueAt (q : Nat) (acc : sink.Acc) : Action σ Value :=
  if sink.yieldsStretch then Action.ofExcept (c.sliceTo q) else sink.finish acc

/-- What a repetition of at least some elements comes to by its run: the values that count and how
    it ends. -/
def verdict (allowTrailing : Bool) (atLeast : Nat) (vs : List Value) :
    Ending sink.Acc → Action σ (Outcome Value)
  | .raised f => throw f
  | .broken x => return .failure x
  | .stopped q dangling acc =>
    if dangling = true ∧ allowTrailing = false then return .failure q
    else if vs.length < atLeast then return .failure c.pos
    else do return .success (← valueAt sink c q acc) q

end Runs

variable [Memory σ] {element : Step σ} {separator : Option (Step σ)} {sink : Sink σ} {c : Context}

/-! ### The loop follows the run -/

/-- A run in which no element counts stops where it started. -/
theorem GreedyRun.stopped_nil {pos q : Nat} {d d' : Bool} {acc acc' : sink.Acc} {s u : σ}
    (h : GreedyRun element separator sink c pos d acc s [] (.stopped q d' acc') u) :
    q = pos ∧ d' = d := by
  cases h with
  | noElement h hx => exact ⟨rfl, rfl⟩
  | emptyElement h => exact ⟨rfl, rfl⟩

/-- What the sink has in the end is what it makes of the values that count, in order and each
    once. -/
theorem GreedyRun.takes {pos q : Nat} {d d' : Bool} {acc acc' : sink.Acc} {s u : σ}
    {vs : List Value} (h : GreedyRun element separator sink c pos d acc s vs
      (.stopped q d' acc') u) : sink.Takes acc vs acc' := by
  generalize he : Ending.stopped q d' acc' = e at h
  induction h with
  | further hv _ _ ih =>
    obtain ⟨_, ⟨t, -, hpush⟩⟩ := hv
    exact .cons hpush (ih he)
  | separated hv _ _ _ ih =>
    obtain ⟨_, ⟨t, -, hpush⟩⟩ := hv
    exact .cons hpush (ih he)
  | noElement | emptyElement =>
    cases he
    exact .nil _
  | noSeparator hv =>
    cases he
    obtain ⟨_, ⟨t, -, hpush⟩⟩ := hv
    exact .cons hpush (.nil _)
  | _ => cases he

/-- The end of a run, as the loop tells it that has counted some elements. -/
def Ending.result {α : Type} (count : Nat) (u : σ) : Ending α → EStateM.Result Fault σ (Gathered α)
  | .stopped pos dangling acc => .ok (.stopped ⟨pos, count, dangling, acc⟩) u
  | .broken x => .ok (.broken x) u
  | .raised f => .error f u

/-- A round in which an element counts goes on with the separator, if there is one. -/
theorem Counts.gather_succ {pos q : Nat} {acc acc' : sink.Acc} {s t : σ} {v : Value}
    (hv : Counts element sink c pos acc s v q acc' t) (d : Bool) (count fuel : Nat) :
    gather element separator sink (fuel + 1) c ⟨pos, count, d, acc⟩ s =
      (match separator with
      | none => gather element separator sink fuel c ⟨q, count + 1, false, acc'⟩
      | some next => do
        match ← next (c.moveTo q) with
        | .failure r =>
          if r.isAt q then return .stopped ⟨q, count + 1, false, acc'⟩ else return .broken r
        | .success _ r => gather element separator sink fuel c ⟨r, count + 1, true, acc'⟩) t := by
  obtain ⟨hq, u, hrun, hpush⟩ := hv
  have hmoved : q ≠ pos := by omega
  show (element (c.moveTo pos) >>= _) s = _
  rw [Action.bind_of_ok hrun]
  simp only [if_neg hmoved]
  rw [Action.bind_of_ok hpush]
  cases separator <;> rfl

/-- Where an element counts, the cursor is still within the input. -/
theorem Counts.le_size {pos q : Nat} {acc acc' : sink.Acc} {s t : σ} {v : Value}
    (hv : Counts element sink c pos acc s v q acc' t) (helement : element.NeverGoesBack)
    (hpos : pos ≤ c.items.size) :
    q ≤ c.items.size := by
  obtain ⟨-, u, hrun, -⟩ := hv
  exact (helement (c.moveTo pos) s v q u hpos hrun).2

/-- The loop follows the run, if it has a round more left than there are items ahead. -/
theorem gather_greedyRun (helement : element.NeverGoesBack)
    (hseparator : ∀ next, separator = some next → next.NeverGoesBack) {pos : Nat} {d : Bool}
    {acc : sink.Acc} {s u : σ} {vs : List Value} {e : Ending sink.Acc}
    (h : GreedyRun element separator sink c pos d acc s vs e u) (hpos : pos ≤ c.items.size)
    (count fuel : Nat) (hfuel : c.items.size - pos ≤ fuel) :
    gather element separator sink (fuel + 1) c ⟨pos, count, d, acc⟩ s =
      e.result (count + vs.length) u := by
  -- On the run: each constructor is one way through the body of the loop.
  induction h generalizing count fuel with
  | @further pos d acc s v q acc' t vs e u hv hnone hrest ih =>
    have hq := hv.le_size helement hpos
    have hfurther := hv.further
    obtain ⟨left, rfl⟩ : ∃ left, fuel = left + 1 := ⟨fuel - 1, by omega⟩
    subst hnone
    rw [hv.gather_succ]
    show gather element none sink (left + 1) c ⟨q, count + 1, false, acc'⟩ t = _
    rw [ih hq _ left (by omega), List.length_cons, Nat.add_assoc, Nat.add_comm 1]
  | @separated pos d acc s v q acc' t next w r t' vs e u hv hnext hr hrest ih =>
    have hq := hv.le_size helement hpos
    have hfurther := hv.further
    have hback : q ≤ r := (hseparator next hnext (c.moveTo q) t w r t' hq hr).1
    have hsize : r ≤ c.items.size := (hseparator next hnext (c.moveTo q) t w r t' hq hr).2
    obtain ⟨left, rfl⟩ : ∃ left, fuel = left + 1 := ⟨fuel - 1, by omega⟩
    subst hnext
    rw [hv.gather_succ]
    show (next (c.moveTo q) >>= _) t = _
    rw [Action.bind_of_ok hr]
    show gather element (some next) sink (left + 1) c ⟨r, count + 1, true, acc'⟩ t' = _
    rw [ih hsize _ left (by omega), List.length_cons, Nat.add_assoc, Nat.add_comm 1]
  | @noElement pos d acc s x u h hx =>
    show (element (c.moveTo pos) >>= _) s = _
    rw [Action.bind_of_ok h]
    simp only [hx, if_true]
    rfl
  | @emptyElement pos d acc s v u h =>
    show (element (c.moveTo pos) >>= _) s = _
    rw [Action.bind_of_ok h]
    simp only [if_true]
    rfl
  | @noSeparator pos d acc s v q acc' t next x u hv hnext h hx =>
    subst hnext
    rw [hv.gather_succ]
    show (next (c.moveTo q) >>= _) t = _
    rw [Action.bind_of_ok h]
    simp only [hx, if_true]
    rfl
  | @brokenElement pos d acc s x u h hx =>
    show (element (c.moveTo pos) >>= _) s = _
    rw [Action.bind_of_ok h]
    simp only [hx, Bool.false_eq_true, if_false]
    rfl
  | @brokenSeparator pos d acc s v q acc' t next x u hv hnext h hx =>
    subst hnext
    rw [hv.gather_succ]
    show (next (c.moveTo q) >>= _) t = _
    rw [Action.bind_of_ok h]
    simp only [hx, Bool.false_eq_true, if_false]
    rfl
  | @raisedElement pos d acc s f u h =>
    exact Action.bind_of_error h
  | @raisedPush pos d acc s v q t f u h hq hpush =>
    have hmoved : q ≠ pos := by omega
    show (element (c.moveTo pos) >>= _) s = _
    rw [Action.bind_of_ok h]
    simp only [if_neg hmoved]
    exact Action.bind_of_error hpush
  | @raisedSeparator pos d acc s v q acc' t next f u hv hnext h =>
    subst hnext
    rw [hv.gather_succ]
    exact Action.bind_of_error h

/-- There is a run from everywhere in the input, if the sink has room for all values. -/
theorem exists_greedyRun (hroom : sink.HasRoom) (helement : element.NeverGoesBack)
    (hseparator : ∀ next, separator = some next → next.NeverGoesBack) (left : Nat) {pos : Nat}
    (hpos : pos ≤ c.items.size) (hleft : c.items.size - pos = left) (d : Bool)
    (acc : sink.Acc) (s : σ) :
    ∃ vs e u, GreedyRun element separator sink c pos d acc s vs e u := by
  -- On the items ahead: an element that counts leaves fewer, and a separator no more.
  induction left using Nat.strongRecOn generalizing pos d acc s with
  | ind left ih =>
    cases h : element (c.moveTo pos) s with
    | error f u => exact ⟨_, _, _, .raisedElement h⟩
    | ok o u =>
      cases o with
      | failure x =>
        cases hx : x.isAt pos with
        | true => exact ⟨_, _, _, .noElement h hx⟩
        | false => exact ⟨_, _, _, .brokenElement h hx⟩
      | success v q =>
        obtain ⟨hback, hq⟩ := helement _ _ _ _ _ hpos h
        have hback : pos ≤ q := hback
        have hq : q ≤ c.items.size := hq
        by_cases hmoved : q = pos
        · subst hmoved
          exact ⟨_, _, _, .emptyElement h⟩
        · have hfurther : pos < q := by omega
          cases hpush : sink.push acc v u with
          | error f t => exact ⟨_, _, _, .raisedPush h hfurther hpush⟩
          | ok r t =>
            obtain ⟨acc', room⟩ := r
            obtain rfl : room = true := hroom _ _ _ _ _ _ hpush
            have hv : Counts element sink c pos acc s v q acc' t := ⟨hfurther, u, h, hpush⟩
            cases hnext : separator with
            | none =>
              obtain ⟨vs, e, w, hrest⟩ := ih (c.items.size - q) (by omega) hq rfl false acc' t
              exact ⟨_, _, _, .further hv rfl (hnext ▸ hrest)⟩
            | some next =>
              cases hr : next (c.moveTo q) t with
              | error f w => exact ⟨_, _, _, .raisedSeparator hv rfl hr⟩
              | ok o w =>
                cases o with
                | failure x =>
                  cases hx : x.isAt q with
                  | true => exact ⟨_, _, _, .noSeparator hv rfl hr hx⟩
                  | false => exact ⟨_, _, _, .brokenSeparator hv rfl hr hx⟩
                | success y r =>
                  obtain ⟨hback', hsize⟩ := hseparator next hnext _ _ _ _ _ hq hr
                  have hback' : q ≤ r := hback'
                  obtain ⟨vs, e, w', hrest⟩ :=
                    ih (c.items.size - r) (by omega) hsize rfl true acc' w
                  exact ⟨_, _, _, .separated hv rfl hr (hnext ▸ hrest)⟩

/-- A repetition of at least none or one comes to the verdict on its run. -/
theorem many_greedyRun (helement : element.NeverGoesBack)
    (hseparator : ∀ next, separator = some next → next.NeverGoesBack) {allowTrailing : Bool}
    {atLeast : Nat} (hleast : atLeast ≤ 1) (hc : c.pos ≤ c.items.size) {acc : sink.Acc} {s t u : σ}
    (hstart : sink.start s = .ok acc t) {vs : List Value} {e : Ending sink.Acc}
    (h : GreedyRun element separator sink c c.pos false acc t vs e u) :
    many element separator allowTrailing sink atLeast c s =
      verdict sink c allowTrailing atLeast vs e u := by
  have hrounds := c.lt_mostRounds c.pos
  have hgather := gather_greedyRun helement hseparator h hc 0 (c.mostRounds - 1) (by omega)
  rw [Nat.zero_add, Nat.sub_add_cancel (by omega)] at hgather
  show (sink.start >>= _) s = _
  rw [Action.bind_of_ok hstart]
  cases e with
  | raised f => exact Action.bind_of_error hgather
  | broken x =>
    show (gather element separator sink c.mostRounds c ⟨c.pos, 0, false, acc⟩ >>= _) t = _
    rw [Action.bind_of_ok hgather]
    rfl
  | stopped q dangling acc' =>
    show (gather element separator sink c.mostRounds c ⟨c.pos, 0, false, acc⟩ >>= _) t = _
    rw [Action.bind_of_ok hgather]
    simp only [verdict]
    by_cases hdangling : dangling = true ∧ allowTrailing = false
    · have htold : (dangling && !allowTrailing) = true := by rw [hdangling.1, hdangling.2]; rfl
      rw [if_pos hdangling, if_pos htold]
    · have htold : ¬ (dangling && !allowTrailing) = true := by simpa using hdangling
      rw [if_neg hdangling, if_neg htold]
      by_cases hfew : vs.length < atLeast
      · -- then there are none, and the run is still where it started
        obtain rfl : vs = [] := List.length_eq_zero_iff.mp (by omega)
        rw [if_pos hfew, if_pos hfew, h.stopped_nil.1]
      · rw [if_neg hfew, if_neg hfew, valueAt]
        split <;> rfl

end Step

/-! ### Repetitions -/

namespace Parser

variable [Memory σ] {setting : Setting σ} {p : Parser σ} {sink : Sink σ}
  {separator : Option (Separator σ)} {atLeast : Nat}

/-- A parser never goes back if no part does that a caller has put in. -/
theorem run_neverGoesBack (hsetting : setting.Each MovesForward) (hp : p.Each MovesForward) :
    (p.run setting).NeverGoesBack := fun _ _ _ _ _ hc h => run_forward hsetting hp hc h

/-- Nothing in the grammar of brackets goes back. -/
theorem brackets_movesForward : brackets.Each MovesForward :=
  each_brackets (fun _ => trivial) (fun _ => trivial) (fun _ _ _ => trivial) fun _ => trivial

/-- A repetition runs its element and its separator. -/
theorem run_repeated_eq : (repeated p sink separator atLeast).run setting =
    Step.many (p.run setting) (separator.map (·.parser.run setting))
      (separator.all (·.allowTrailing)) sink atLeast := by
  rw [run_eq setting (repeated p sink separator atLeast), run_eq setting p]
  cases separator with
  | none => rfl
  | some s =>
    show _ = Step.many _ (some (s.parser.run setting)) _ sink atLeast
    rw [run_eq setting s.parser]
    rfl

/-- What is so of a separator is so of the step that it runs. -/
theorem forall_separator {P : Step σ → Prop}
    (h : ∀ r, separator = some r → P (r.parser.run setting)) (next : Step σ)
    (hnext : separator.map (·.parser.run setting) = some next) : P next := by
  obtain ⟨r, hr, rfl⟩ := Option.map_eq_some_iff.mp hnext
  exact h r hr

/-- **Repetitions are greedy.** Let the element and the separator never go back, and the sink have
    room for all values.  Then from every start there is a greedy run of elements and separators,
    and whatever run there is, a repetition of at least none or one comes to the verdict on it: the
    failure of a part that had consumed; the failure after a last separator, unless one may be last;
    the failure at the start if it takes an element and there is none; and otherwise the success at
    the end of the run.  The sink has then taken the values that count, in order and each once. -/
theorem run_repeated (hleast : atLeast ≤ 1) (hroom : sink.HasRoom)
    (hp : (p.run setting).NeverGoesBack)
    (hseparator : ∀ s, separator = some s → (s.parser.run setting).NeverGoesBack) {c : Context}
    (hc : c.pos ≤ c.items.size) (s : σ) :
    match sink.start s with
    | .error f t => (repeated p sink separator atLeast).run setting c s = .error f t
    | .ok acc t =>
      (∃ vs e u, Step.GreedyRun (p.run setting) (separator.map (·.parser.run setting)) sink c c.pos
        false acc t vs e u) ∧
        ∀ vs e u, Step.GreedyRun (p.run setting) (separator.map (·.parser.run setting)) sink c c.pos
          false acc t vs e u →
          (repeated p sink separator atLeast).run setting c s =
              Step.verdict sink c (separator.all (·.allowTrailing)) atLeast vs e u ∧
            ∀ q dangling acc', e = .stopped q dangling acc' → sink.Takes acc vs acc' := by
  have hnext (next : Step σ) (h : separator.map (·.parser.run setting) = some next) :
      next.NeverGoesBack := by
    obtain ⟨r, hr, rfl⟩ := Option.map_eq_some_iff.mp h
    exact hseparator r hr
  rw [run_repeated_eq]
  cases hstart : sink.start s with
  | error f t => exact Action.bind_of_error hstart
  | ok acc t =>
    refine ⟨Step.exists_greedyRun hroom hp hnext _ hc rfl false acc t, fun vs e u h => ?_⟩
    refine ⟨Step.many_greedyRun hp hnext hleast hc hstart h, ?_⟩
    rintro q dangling acc' rfl
    exact h.takes

/-- Letters between commas: a comma at the end is one too many, and the repetition fails after
    it. -/
theorem run_repeated_commas :
    (repeated (.char 'a') .list (some { parser := .char ',' }) 1).run brackets
      (start (.sequence (.text #['a', ',', 'a', ','])) { levels := 50 }) () =
        .ok (.failure (.position 4)) () := by
  have hchar (x : Char) : ((Parser.char x).run brackets).NeverGoesBack := by
    have heach : (Parser.char x : Parser Unit).Each MovesForward := .node trivial nofun
    intro c s v q t hc h
    exact run_forward (each_brackets (fun _ => trivial) (fun _ => trivial) (fun _ _ _ => trivial)
      fun _ => trivial) heach hc h
  have hroom : (Sink.list : Sink Unit).HasRoom := by
    rintro acc v s acc' room t ⟨⟩
    rfl
  have hcommas (s : Separator Unit) (hs : some { parser := .char ',' } = some s) :
      (s.parser.run brackets).NeverGoesBack := by
    cases hs
    exact hchar ','
  obtain ⟨-, hverdict⟩ := run_repeated (Nat.le_refl 1) hroom (hchar 'a') hcommas
    (c := start (.sequence (.text #['a', ',', 'a', ','])) { levels := 50 }) (Nat.zero_le _) ()
  refine (hverdict [.ofChar 'a', .ofChar 'a'] (.stopped 4 true #[.ofChar 'a', .ofChar 'a']) () ?_).1
  -- Both letters count, each with a comma after it, and then the input ends.
  refine .separated (q := 1) ⟨by decide, (), ?_, rfl⟩ rfl
    (?_ : _ = EStateM.Result.ok (Outcome.success (.ofChar ',') 2) ()) ?_
  · with_unfolding_all rfl
  · with_unfolding_all rfl
  refine .separated (q := 3) ⟨by decide, (), ?_, rfl⟩ rfl
    (?_ : _ = EStateM.Result.ok (Outcome.success (.ofChar ',') 4) ()) ?_
  · with_unfolding_all rfl
  · with_unfolding_all rfl
  refine .noElement (x := .position 4) ?_ rfl
  with_unfolding_all rfl

end Parser

end Itemwise
