import Itemwise.Proofs.Run.Greedy
import Itemwise.Proofs.Sorting.Dictionary
import Itemwise.Session

namespace Itemwise

/-!
# The same repetition in any sink

Where the element and the separator ignore the user state, what a sink does to it has no bearing on
the run of the repetition.  So all sinks that have room take the same values, and the repetition
comes out alike in them.

* `Step.Ignores` — a step does the same whatever the user state is;
* `Sink.takeAll` — a sink takes values one after the other;
* `Step.Ending.outcome` — how a repetition comes out by how its run ends, with the value that it has
  if it succeeds;
* `Step.GreedyRun.inSink` — a run into a list is one into any sink;
* `Step.many_eq_takeAll` — a repetition takes the values of that run, and then comes out by its end;
* `Parser.run_repeated_sinks` — what this makes of the sinks, one by one.
-/

variable {σ : Type}

namespace Step

/-- A step does the same at every position whatever the user state is, and leaves it as it is. -/
def Ignores (step : Step σ) (c : Context) : Prop :=
  ∀ pos, ∃ r : Except Fault (Outcome Value), ∀ s, step (c.moveTo pos) s =
    (Action.ofExcept r : Action σ (Outcome Value)) s

variable {step : Step σ} {c : Context} {pos : Nat} {s u : σ}

/-- What a step comes to in one state, it comes to in every other. -/
theorem Ignores.of_ok {o : Outcome Value} (h : step.Ignores c)
    (hs : step (c.moveTo pos) s = .ok o u) (s' : σ) :
    step (c.moveTo pos) s' = .ok o s' := by
  obtain ⟨r, hr⟩ := h pos
  rw [hr] at hs
  cases r with
  | ok o' =>
    cases hs
    exact hr s'
  | error f => cases hs

/-- A step that ignores the user state ends in the same fault whatever that state is. -/
theorem Ignores.of_error {f : Fault} (h : step.Ignores c)
    (hs : step (c.moveTo pos) s = .error f u) (s' : σ) :
    step (c.moveTo pos) s' = .error f s' := by
  obtain ⟨r, hr⟩ := h pos
  rw [hr] at hs
  cases r with
  | ok o' => cases hs
  | error f' =>
    cases hs
    exact hr s'

/-- A leaf that looks at nothing in the user state ignores it. -/
theorem ignores_leaf (l : Leaf) (c : Context) : (leaf l : Step σ).Ignores c :=
  fun pos => ⟨l (c.moveTo pos), fun _ => rfl⟩

/-- Where there is nothing to a user state, every step ignores it. -/
theorem ignores_unit (step : Step Unit) (c : Context) : step.Ignores c := by
  intro pos
  cases h : step (c.moveTo pos) () with
  | ok o _ => exact ⟨.ok o, fun _ => h⟩
  | error f _ => exact ⟨.error f, fun _ => h⟩

/-- A step that ignores the user state does so however often it is run. -/
theorem Ignores.again (h : step.Ignores c) (n pos : Nat) :
    ∃ r : Except Fault (Outcome Unit), ∀ s, again step n (c.moveTo pos) s =
      (Action.ofExcept r : Action σ (Outcome Unit)) s := by
  induction n generalizing pos with
  | zero => exact ⟨.ok (.success () pos), fun _ => rfl⟩
  | succ n ih =>
    obtain ⟨r, hr⟩ := h pos
    cases r with
    | error f => exact ⟨.error f, fun s => Action.bind_of_error (hr s)⟩
    | ok o =>
      cases o with
      | failure x => exact ⟨.ok (.failure x), fun s => Action.bind_of_ok (hr s)⟩
      | success v q =>
        obtain ⟨r', hr'⟩ := ih q
        exact ⟨r', fun s => (Action.bind_of_ok (hr s)).trans (hr' s)⟩

/-- So does the counted repetition of one ignore it. -/
theorem Ignores.times (h : step.Ignores c) (n : Nat) : (times n step).Ignores c := by
  intro pos
  obtain ⟨r, hr⟩ := h.again n pos
  cases r with
  | error f => exact ⟨.error f, fun s => Action.bind_of_error (hr s)⟩
  | ok o =>
    cases o with
    | failure x => exact ⟨.ok (.failure x), fun s => Action.bind_of_ok (hr s)⟩
    | success v q =>
      refine ⟨(c.items.slice pos q).map fun v => .success v q, fun s => ?_⟩
      refine (Action.bind_of_ok (hr s)).trans ?_
      show (Action.ofExcept (c.items.slice pos q) >>= _ : Action σ (Outcome Value)) s = _
      cases c.items.slice pos q <;> rfl

end Step

/-! ### Sinks that take values -/

section Sinks

variable [Memory σ] {sink : Sink σ}

/-- A sink of the library that is not a fixed array. -/
def Sink.IsUnbounded : Sink σ → Prop
  | .array _ | .own .. => False
  | _ => True

/-- Fixed arrays apart, the sinks of the library have room for more. -/
theorem Sink.hasRoom_of_isUnbounded (h : sink.IsUnbounded) : sink.HasRoom := by
  intro acc v s acc' room t hpush
  cases sink with
  | discard | list =>
    cases hpush
    rfl
  | dict | sortedDict =>
    change (Action.ofExcept (Dict.Draft.push acc (Memory.surface s v)) >>=
      _ : Action σ (Dict.Draft × Bool)) s = _ at hpush
    cases hd : Dict.Draft.push acc (Memory.surface s v) with
    | ok d =>
      rw [hd] at hpush
      cases hpush
      rfl
    | error f =>
      rw [hd] at hpush
      cases hpush
  | array | own => exact h.elim
  | fold init f =>
    cases hf : f acc v s with
    | ok a u =>
      have hpush' : (Sink.fold init f).push acc v s = .ok (a, true) u := Action.bind_of_ok hf
      cases hpush'.symm.trans hpush
      rfl
    | error fault u =>
      have hpush' : (Sink.fold init f).push acc v s = .error fault u := Action.bind_of_error hf
      cases hpush'.symm.trans hpush
  | foldState f read =>
    cases hf : f v s with
    | ok a u =>
      have hpush' : (Sink.foldState f read).push acc v s = .ok ((), true) u := Action.bind_of_ok hf
      cases hpush'.symm.trans hpush
      rfl
    | error fault u =>
      have hpush' : (Sink.foldState f read).push acc v s = .error fault u := Action.bind_of_error hf
      cases hpush'.symm.trans hpush

/-- What a sink has collected after further values, which it takes in order. -/
def Sink.takeAll (sink : Sink σ) : sink.Acc → List Value → Action σ sink.Acc
  | acc, [] => return acc
  | acc, v :: vs => do
    let (acc, _) ← sink.push acc v
    sink.takeAll acc vs

/-- Taking a value in goes on with the others. -/
theorem Sink.takeAll_of_ok {acc mid : sink.Acc} {v : Value} {room : Bool} {s t : σ}
    (h : sink.push acc v s = .ok (mid, room) t) (vs : List Value) :
    sink.takeAll acc (v :: vs) s = sink.takeAll mid vs t := Action.bind_of_ok h

/-- A fault in taking a value in is the fault of taking all. -/
theorem Sink.takeAll_of_error {acc : sink.Acc} {v : Value} {f : Fault} {s t : σ}
    (h : sink.push acc v s = .error f t) (vs : List Value) :
    sink.takeAll acc (v :: vs) s = .error f t := Action.bind_of_error h

/-- A sink has taken some values if it has taken the first and then the others. -/
theorem Sink.takeAll_cons_eq_ok {acc acc' : sink.Acc} {v : Value} {vs : List Value} {s u : σ}
    (h : sink.takeAll acc (v :: vs) s = .ok acc' u) :
    ∃ mid room t, sink.push acc v s = .ok (mid, room) t ∧ sink.takeAll mid vs t = .ok acc' u := by
  cases hpush : sink.push acc v s with
  | ok r t =>
    rw [Sink.takeAll_of_ok hpush] at h
    exact ⟨r.1, r.2, t, rfl, h⟩
  | error f t =>
    rw [Sink.takeAll_of_error hpush] at h
    cases h

/-- A sink refuses one of some values if it refuses the first, or takes it and refuses one of the
    others. -/
theorem Sink.takeAll_cons_eq_error {acc : sink.Acc} {v : Value} {vs : List Value}
    {f : Fault} {s u : σ} (h : sink.takeAll acc (v :: vs) s = .error f u) :
    sink.push acc v s = .error f u ∨ ∃ mid room t, sink.push acc v s = .ok (mid, room) t ∧
      sink.takeAll mid vs t = .error f u := by
  cases hpush : sink.push acc v s with
  | ok r t =>
    rw [Sink.takeAll_of_ok hpush] at h
    exact .inr ⟨r.1, r.2, t, rfl, h⟩
  | error f' t =>
    rw [Sink.takeAll_of_error hpush] at h
    cases h
    exact .inl rfl

/-! What this comes to for the sinks, one by one. -/

/-- A list has further values at its end. -/
theorem Sink.takeAll_list (vs : List Value) (xs : Array Value) (s : σ) :
    Sink.takeAll .list xs vs s = .ok ((xs.toList ++ vs).toArray : Array Value) s := by
  induction vs generalizing xs with
  | nil =>
    rw [List.append_nil, Array.toArray_toList]
    rfl
  | cons v vs ih =>
    show Sink.takeAll .list (xs.push v) vs s = _
    rw [ih, Array.toList_push, List.append_assoc]
    rfl

/-- A sink that discards takes in everything and keeps the user state. -/
theorem Sink.takeAll_discard (vs : List Value) (s : σ) :
    Sink.takeAll .discard () vs s = .ok () s := by
  induction vs with
  | nil => rfl
  | cons v vs ih => exact ih

/-- A fold takes values by folding them. -/
theorem Sink.takeAll_fold (init : Action σ Value) (f : Value → Value → Action σ Value)
    (vs : List Value) (a : Value) (s : σ) :
    Sink.takeAll (.fold init f) a vs s = vs.foldlM f a s := by
  induction vs generalizing a s with
  | nil => rfl
  | cons v vs ih =>
    rw [List.foldlM_cons]
    cases h : f a v s with
    | ok b t =>
      have hpush : (Sink.fold init f).push a v s = .ok (b, true) t := Action.bind_of_ok h
      rw [Action.bind_of_ok h, ← ih b t]
      exact Sink.takeAll_of_ok hpush vs
    | error fault t =>
      have hpush : (Sink.fold init f).push a v s = .error fault t := Action.bind_of_error h
      rw [Action.bind_of_error h]
      exact Sink.takeAll_of_error hpush vs

/-- A fold into the user state takes values by changing the state for each of them. -/
theorem Sink.takeAll_foldState (f : Value → Action σ Value) (read : σ → Value)
    (vs : List Value) (s : σ) :
    Sink.takeAll (.foldState f read) () vs s =
      (vs.forM fun v => do let _ ← f v; pure () : Action σ Unit) s := by
  induction vs generalizing s with
  | nil => rfl
  | cons v vs ih =>
    show _ = ((do let _ ← f v; pure () : Action σ Unit) >>= fun _ => vs.forM
        fun v => do let _ ← f v; pure ()) s
    cases h : f v s with
    | ok w t =>
      have hpush : (Sink.foldState f read).push () v s = .ok ((), true) t := Action.bind_of_ok h
      have hchange : (do let _ ← f v; pure () : Action σ Unit) s = .ok () t := Action.bind_of_ok h
      rw [Action.bind_of_ok hchange, ← ih t]
      exact Sink.takeAll_of_ok hpush vs
    | error fault t =>
      have hpush : (Sink.foldState f read).push () v s = .error fault t := Action.bind_of_error h
      have hchange : (do let _ ← f v; pure () : Action σ Unit) s = .error fault t :=
        Action.bind_of_error h
      rw [Action.bind_of_error hchange]
      exact Sink.takeAll_of_error hpush vs

/-- A dictionary takes pairs by inserting them. -/
theorem Sink.takeAll_dict {vs : List Value} {es : List (Value × Value)} {s : σ}
    (hpairs : List.Forall₂ (fun v e => Dict.pair (Memory.surface s v) = .ok e ∧ e.1.isKey = true) vs
      es) (d : Dict.Draft) :
    Sink.takeAll .dict d vs s = .ok (es.foldl (fun d e => d.insert e.1 e.2) d : Dict.Draft) s := by
  induction hpairs generalizing d with
  | nil => rfl
  | @cons v e vs es h _ ih =>
    have htaken : d.push (Memory.surface s v) = .ok (d.insert e.1 e.2) := by
      rw [Dict.Draft.push, h.1]
      exact if_pos h.2
    have hpush : (Sink.dict : Sink σ).push d v s =
        .ok ((d.insert e.1 e.2 : Dict.Draft), true) s := by
      show (Action.ofExcept (d.push (Memory.surface s v)) >>= _ : Action σ (Dict.Draft × Bool)) s =
          _
      rw [htaken]
      rfl
    exact (Sink.takeAll_of_ok hpush vs).trans (ih _)

/-- A dictionary that is sorted in the end takes values as any other. -/
theorem Sink.takeAll_sortedDict (vs : List Value) (d : Dict.Draft) (s : σ) :
    Sink.takeAll .sortedDict d vs s =
      (Sink.takeAll .dict d vs s : EStateM.Result Fault σ Dict.Draft) := by
  induction vs generalizing d s with
  | nil => rfl
  | cons v vs ih =>
    cases h : (Sink.dict : Sink σ).push d v s with
    | ok r t =>
      have hpush : (Sink.sortedDict : Sink σ).push d v s = .ok (r.1, r.2) t := h
      exact (Sink.takeAll_of_ok hpush vs).trans ((ih r.1 t).trans (Sink.takeAll_of_ok h vs).symm)
    | error f t =>
      have hpush : (Sink.sortedDict : Sink σ).push d v s = .error f t := h
      exact (Sink.takeAll_of_error hpush vs).trans (Sink.takeAll_of_error h vs).symm

end Sinks

namespace Step

variable [Memory σ] {element : Step σ} {separator : Option (Step σ)} {sink : Sink σ} {c : Context}

/-! ### The same run in any sink -/

/-- The same end with something else collected. -/
def Ending.withAcc {α β : Type} (acc : β) : Ending α → Ending β
  | .stopped q dangling _ => .stopped q dangling acc
  | .broken x => .broken x
  | .raised f => .raised f

/-- An element that counts for a list, counts for every sink that takes its value. -/
theorem Counts.inSink {pos q : Nat} {xs xs' : (Sink.list : Sink σ).Acc} {s t : σ} {v : Value}
    (hv : Counts element .list c pos xs s v q xs' t) (helement : element.Ignores c)
    {acc acc' : sink.Acc} {s' t' : σ} {room : Bool} (hroom : sink.HasRoom)
    (hpush : sink.push acc v s' = .ok (acc', room) t') :
    Counts element sink c pos acc s' v q acc' t' := by
  obtain ⟨hfurther, u, hrun, -⟩ := hv
  obtain rfl := hroom _ _ _ _ _ _ hpush
  exact ⟨hfurther, s', helement.of_ok hrun s', hpush⟩

section InSink

variable {pos : Nat} {d : Bool} {xs : (Sink.list : Sink σ).Acc} {s u s' u' : σ} {vs : List Value}
  {e : Ending (Sink.list : Sink σ).Acc} {acc acc' : sink.Acc}

/-- If a sink takes the values of a run into a list, there is the same run into the sink. -/
theorem GreedyRun.inSink (hroom : sink.HasRoom) (helement : element.Ignores c)
    (hseparator : ∀ next, separator = some next → next.Ignores c)
    (h : GreedyRun element separator .list c pos d xs s vs e u)
    (htaken : sink.takeAll acc vs s' = .ok acc' u') :
    GreedyRun element separator sink c pos d acc s' vs (e.withAcc acc') u' := by
  induction h generalizing acc s' with
  | further hv hnone _ ih =>
    obtain ⟨mid, room, t, hpush, hrest⟩ := Sink.takeAll_cons_eq_ok htaken
    exact .further (hv.inSink helement hroom hpush) hnone (ih hrest)
  | separated hv hnext hr _ ih =>
    obtain ⟨mid, room, t, hpush, hrest⟩ := Sink.takeAll_cons_eq_ok htaken
    exact .separated (hv.inSink helement hroom hpush) hnext
      ((hseparator _ hnext).of_ok hr t) (ih hrest)
  | noElement h hx =>
    cases htaken
    exact .noElement (helement.of_ok h _) hx
  | emptyElement h =>
    cases htaken
    exact .emptyElement (helement.of_ok h _)
  | noSeparator hv hnext h hx =>
    obtain ⟨mid, room, t, hpush, ⟨⟩⟩ := Sink.takeAll_cons_eq_ok htaken
    exact .noSeparator (hv.inSink helement hroom hpush) hnext ((hseparator _ hnext).of_ok h _) hx
  | brokenElement h hx =>
    cases htaken
    exact .brokenElement (helement.of_ok h _) hx
  | brokenSeparator hv hnext h hx =>
    obtain ⟨mid, room, t, hpush, ⟨⟩⟩ := Sink.takeAll_cons_eq_ok htaken
    exact .brokenSeparator (hv.inSink helement hroom hpush) hnext
      ((hseparator _ hnext).of_ok h _) hx
  | raisedElement h =>
    cases htaken
    exact .raisedElement (helement.of_error h _)
  | raisedPush _ _ hpush => cases hpush
  | raisedSeparator hv hnext h =>
    obtain ⟨mid, room, t, hpush, ⟨⟩⟩ := Sink.takeAll_cons_eq_ok htaken
    exact .raisedSeparator (hv.inSink helement hroom hpush) hnext
      ((hseparator _ hnext).of_error h _)

/-- If a sink refuses one of the values of a run into a list, that is the end of a run into the
    sink. -/
theorem GreedyRun.refusedInSink (hroom : sink.HasRoom) (helement : element.Ignores c)
    (hseparator : ∀ next, separator = some next → next.Ignores c)
    (h : GreedyRun element separator .list c pos d xs s vs e u) {f : Fault}
    (htaken : sink.takeAll acc vs s' = .error f u') :
    ∃ ws, GreedyRun element separator sink c pos d acc s' ws (.raised f) u' := by
  -- Either the first value is refused, or one of the others.
  have hfirst {pos : Nat} {d : Bool} {xs xs' : (Sink.list : Sink σ).Acc} {s t : σ} {v : Value}
      {q : Nat} {acc : sink.Acc} {s' : σ} (hv : Counts element .list c pos xs s v q xs' t)
        (hpush : sink.push acc v s' = .error f u') :
      ∃ ws, GreedyRun element separator sink c pos d acc s' ws (.raised f) u' := by
    obtain ⟨hfurther, t₀, hrun, -⟩ := hv
    exact ⟨[], .raisedPush (helement.of_ok hrun s') hfurther hpush⟩
  induction h generalizing acc s' with
  | further hv hnone _ ih =>
    rcases Sink.takeAll_cons_eq_error htaken with hpush | ⟨mid, room, t, hpush, hrest⟩
    · exact hfirst hv hpush
    · obtain ⟨ws, hws⟩ := ih hrest
      exact ⟨_, .further (hv.inSink helement hroom hpush) hnone hws⟩
  | separated hv hnext hr _ ih =>
    rcases Sink.takeAll_cons_eq_error htaken with hpush | ⟨mid, room, t, hpush, hrest⟩
    · exact hfirst hv hpush
    · obtain ⟨ws, hws⟩ := ih hrest
      exact ⟨_, .separated (hv.inSink helement hroom hpush) hnext
        ((hseparator _ hnext).of_ok hr t) hws⟩
  | noSeparator hv | brokenSeparator hv | raisedSeparator hv =>
    rcases Sink.takeAll_cons_eq_error htaken with hpush | ⟨mid, room, t, hpush, ⟨⟩⟩
    exact hfirst hv hpush
  | _ => cases htaken

end InSink

/-! ### Outcomes -/

/-- How a repetition of at least some elements comes out by how its run of some number of elements
    ends: with a fault, with a failure, or with the value that it has where the run stops. -/
def Ending.outcome {α : Type} (allowTrailing : Bool) (atLeast count : Nat)
    (value : Nat → Action σ Value) :
    Ending α → Action σ (Outcome Value)
  | .raised f => throw f
  | .broken x => return .failure x
  | .stopped q dangling _ =>
    if (dangling = true ∧ allowTrailing = false) ∨ count < atLeast then return .failure q
    else do return .success (← value q) q

/-- A repetition comes out by the end of its run. -/
theorem many_outcome (helement : element.NeverGoesBack)
    (hseparator : ∀ next, separator = some next → next.NeverGoesBack) {α : Type}
    {allowTrailing : Bool} {atLeast : Nat} (hc : c.pos ≤ c.items.size)
    {acc acc' : sink.Acc} {s t u : σ} (hstart : sink.start s = .ok acc t) {vs : List Value}
    {e : Ending α} (h : GreedyRun element separator sink c c.pos false acc t vs
      (e.withAcc acc') u) :
    many element separator allowTrailing sink atLeast c s =
      e.outcome allowTrailing atLeast vs.length (fun q => valueAt sink c q acc') u := by
  have hrounds := c.lt_mostRounds c.pos
  have hgather := gather_greedyRun helement hseparator h hc 0 (c.mostRounds - 1) (by omega)
  rw [Nat.zero_add, Nat.sub_add_cancel (by omega)] at hgather
  show (sink.start >>= _) s = _
  rw [Action.bind_of_ok hstart]
  cases e with
  | raised f => exact Action.bind_of_error hgather
  | broken x => exact Action.bind_of_ok hgather
  | stopped q dangling _ =>
    show (gather element separator sink c.mostRounds c ⟨c.pos, 0, false, acc⟩ >>= _) t = _
    rw [Action.bind_of_ok hgather]
    simp only [Ending.outcome]
    -- A last separator is looked for first, and only then are the elements counted.
    by_cases hdangling : dangling = true ∧ allowTrailing = false
    · have htold : (dangling && !allowTrailing) = true := by rw [hdangling.1, hdangling.2]; rfl
      rw [if_pos htold, if_pos (Or.inl hdangling)]
    · have htold : ¬ (dangling && !allowTrailing) = true := by simpa using hdangling
      rw [if_neg htold]
      by_cases hfew : vs.length < atLeast
      · rw [if_pos hfew, if_pos (Or.inr hfew)]
      · rw [if_neg hfew, if_neg (not_or.mpr ⟨hdangling, hfew⟩)]
        show _ = (valueAt sink c q acc' >>= _) u
        rw [valueAt]
        split <;> rfl

/-- **A repetition in a sink.** Where the parts ignore the user state, a repetition takes the values
    of the run into a list, and comes out by the end of that run. -/
theorem many_eq_takeAll (hroom : sink.HasRoom) (helement : element.NeverGoesBack)
    (hseparator : ∀ next, separator = some next → next.NeverGoesBack)
    (helement' : element.Ignores c) (hseparator' : ∀ next, separator = some next → next.Ignores c)
    {allowTrailing : Bool} {atLeast : Nat} (hc : c.pos ≤ c.items.size) {s u : σ} {vs : List Value}
    {e : Ending (Sink.list : Sink σ).Acc}
    (h : GreedyRun element separator .list c c.pos false (#[] : Array Value) s vs e u) :
    many element separator allowTrailing sink atLeast c s =
      (do
        let acc ← sink.start
        let acc ← sink.takeAll acc vs
        e.outcome allowTrailing atLeast vs.length fun q => valueAt sink c q acc :
          Action σ (Outcome Value)) s := by
  cases hstart : sink.start s with
  | error f t =>
    rw [Action.bind_of_error hstart]
    exact Action.bind_of_error hstart
  | ok acc t =>
    rw [Action.bind_of_ok hstart]
    cases htaken : sink.takeAll acc vs t with
    | ok acc' u' =>
      rw [Action.bind_of_ok htaken]
      exact many_outcome helement hseparator hc hstart (h.inSink hroom helement' hseparator' htaken)
    | error f u' =>
      rw [Action.bind_of_error htaken]
      obtain ⟨ws, hws⟩ := h.refusedInSink hroom helement' hseparator' htaken
      have hraised : GreedyRun element separator sink c c.pos false acc t ws
          ((Ending.raised f : Ending Unit).withAcc acc) u' := hws
      exact many_outcome helement hseparator hc hstart hraised

end Step

/-! ### Repetitions -/

namespace Parser

variable [Memory σ] {setting : Setting σ} {p : Parser σ} {separator : Option (Separator σ)}
  {atLeast : Nat}

/-- **All sinks see the same repetition.** Let the element and the separator ignore the user state
    and never go back.  Then there is a greedy run of them that leaves it as it is, and by its
    values and its end the repetition comes out in every sink: what it discards is the stretch that
    it consumed; a list has the values; a fold folds them; a fold into the user state changes it for
    each of them, also where the repetition fails in the end; and if the values are pairs with keys,
    a dictionary has them inserted one after the other, and in the end is sorted by key if it is to
    be and its keys are comparable. -/
theorem run_repeated_sinks (hp : (p.run setting).NeverGoesBack)
    (hseparator : ∀ r, separator = some r → (r.parser.run setting).NeverGoesBack) {c : Context}
    (hp' : (p.run setting).Ignores c)
    (hseparator' : ∀ r, separator = some r → (r.parser.run setting).Ignores c)
    (hc : c.pos ≤ c.items.size) (s : σ) :
    (∃ vs e, Step.GreedyRun (p.run setting) (separator.map (·.parser.run setting)) .list c c.pos
      false (#[] : Array Value) s vs e s) ∧
      ∀ vs e, Step.GreedyRun (p.run setting) (separator.map (·.parser.run setting)) .list c c.pos
        false (#[] : Array Value) s vs e s →
        let outcome (value : Nat → Action σ Value) : Action σ (Outcome Value) :=
          e.outcome (separator.all (·.allowTrailing)) atLeast vs.length value
        (repeated p .discard separator atLeast).run setting c s =
          outcome (fun q => Action.ofExcept (c.sliceTo q)) s ∧
          (repeated p .list separator atLeast).run setting c s =
            outcome (fun _ => return .list vs) s ∧
          (∀ init f, (repeated p (.fold init f) separator atLeast).run setting c s =
            (do
              let a ← init
              let w ← vs.foldlM f a
              outcome fun _ => return w : Action σ (Outcome Value)) s) ∧
          (∀ f read, (repeated p (.foldState f read) separator atLeast).run setting c s =
            (do
              vs.forM fun v => do let _ ← f v; pure ()
              outcome fun _ => return read (← get) : Action σ (Outcome Value)) s) ∧
          ∀ es, List.Forall₂ (fun v pair => Dict.pair (Memory.surface s v) = .ok pair ∧
            pair.1.isKey = true) vs es →
            (repeated p .dict separator atLeast).run setting c s =
                outcome (fun _ => return .dict (es.foldl (fun d e => Dict.insert e.1 e.2 d) [])) s ∧
              (Dict.Comparable (es.map Prod.fst) →
                ∃ sorted, Dict.Sorted sorted (es.foldl (fun d e => Dict.insert e.1 e.2 d) []) ∧
                  (repeated p .sortedDict separator atLeast).run setting c s =
                    outcome (fun _ => return .dict sorted) s) := by
  have hback := forall_separator (P := Step.NeverGoesBack) hseparator
  have hignores := forall_separator (P := fun next => next.Ignores c) hseparator'
  have hlist : (Sink.list : Sink σ).HasRoom := Sink.hasRoom_of_isUnbounded trivial
  refine ⟨?_, fun vs e hrun => ?_⟩
  · obtain ⟨vs, e, u, h⟩ :=
      Step.exists_greedyRun hlist hp hback _ hc rfl false (#[] : Array Value) s
    -- The parts leave the user state as it is, and so does the list.
    exact ⟨vs, _, h.inSink hlist hp' hignores (Sink.takeAll_list vs #[] s)⟩
  intro outcome
  have hmany (sink : Sink σ) (hroom : sink.HasRoom) :
      (repeated p sink separator atLeast).run setting c s = (do
        let acc ← sink.start
        let acc ← sink.takeAll acc vs
        outcome fun q => Step.valueAt sink c q acc : Action σ (Outcome Value)) s := by
    rw [run_repeated_eq]
    exact Step.many_eq_takeAll hroom hp hback hp' hignores hc hrun
  refine ⟨?_, ?_, fun init f => ?_, fun f read => ?_, fun es hes => ⟨?_, fun hkeys => ?_⟩⟩
  · rw [hmany .discard (Sink.hasRoom_of_isUnbounded trivial)]
    exact Action.bind_of_ok (Sink.takeAll_discard vs s)
  · rw [hmany .list hlist]
    exact Action.bind_of_ok (Sink.takeAll_list vs #[] s)
  · have htaken (a : Value) : (Sink.takeAll (.fold init f) a vs : Action σ Value) = vs.foldlM f a :=
      funext (Sink.takeAll_fold init f vs a)
    rw [hmany (.fold init f) (Sink.hasRoom_of_isUnbounded trivial)]
    show (init >>= fun a => (Sink.takeAll (.fold init f) a vs : Action σ Value) >>=
        fun w => outcome fun _ => pure w) s = _
    simp only [htaken]
    rfl
  · have htaken : (Sink.takeAll (.foldState f read) () vs : Action σ Unit) =
      vs.forM (fun v => do let _ ← f v; pure ()) :=
      funext (Sink.takeAll_foldState f read vs)
    rw [hmany (.foldState f read) (Sink.hasRoom_of_isUnbounded trivial)]
    show ((Sink.takeAll (.foldState f read) () vs : Action σ Unit) >>=
        fun _ => outcome fun _ => do return read (← get)) s = _
    rw [htaken]
    rfl
  · rw [hmany .dict (Sink.hasRoom_of_isUnbounded trivial), ← Dict.ofEntries_eq_foldl]
    exact Action.bind_of_ok (Sink.takeAll_dict hes .empty)
  · obtain ⟨sorted, hsorted, hin⟩ := Dict.sorted_foldl_insert es hkeys
    refine ⟨sorted, hin, ?_⟩
    have hvalue : (do return .dict (← Action.ofExcept (Dict.ofEntries es).sorted) : Action σ Value)
        = pure (.dict sorted) := by
      rw [Dict.ofEntries_eq_foldl, hsorted]
      rfl
    rw [hmany .sortedDict (Sink.hasRoom_of_isUnbounded trivial)]
    refine (Action.bind_of_ok
      ((Sink.takeAll_sortedDict vs .empty s).trans (Sink.takeAll_dict hes .empty))).trans ?_
    show outcome (fun _ => do return .dict (← Action.ofExcept (Dict.ofEntries es).sorted)) s = _
    rw [hvalue]

/-- Letters, each with a digit, between any items.  A letter that comes again takes the digit that
    it comes with last. -/
theorem run_repeated_sinks_pairs :
    let setting : Setting Session :=
      ⟨{}, { rule := fun _ _ => throw .missingKey, forward := fun _ => none }⟩
    let c := start (.sequence (.text #['b', '1', ',', 'a', '2', ',', 'b', '3'])) { levels := 50 }
    let pairs (sink : Sink Session) :=
      (repeated (.times 2 .anyItem) sink (some { parser := .anyItem }) 0).run setting c {}
    let noted : Value :=
      .tuple [.tuple [.tuple [.null, .text ['b', '1']], .text ['a', '2']], .text ['b', '3']]
    pairs .list = .ok (.success (.list [.text ['b', '1'], .text ['a', '2'], .text ['b', '3']]) 8)
      {} ∧ pairs (.foldState
        (fun v s => .ok .null { s with state := .tuple [s.state, v] }) (·.state)) =
          .ok (.success noted 8) { state := noted } ∧
      pairs .dict = .ok (.success
        (.dict [(.text ['b'], .text ['3']), (.text ['a'], .text ['2'])]) 8) {} ∧
      ∃ sorted, Dict.Sorted sorted [(.text ['b'], .text ['3']), (.text ['a'], .text ['2'])] ∧
        pairs .sortedDict = .ok (.success (.dict sorted) 8) {} := by
  intro setting c pairs noted
  have hsetting : setting.Each MovesForward := ⟨by rintro r s p t ⟨⟩, nofun⟩
  have hitem : (anyItem : Parser Session).Each MovesForward := .node trivial nofun
  have htimes : (times 2 anyItem : Parser Session).Each MovesForward :=
    hitem.of_part trivial fun q hq => by
    cases hq
    rfl
  have hitem' : ((anyItem : Parser Session).run setting).Ignores c := by
    rw [run_eq]
    exact Step.ignores_leaf Leaf.anyItem c
  have htimes' : ((times 2 anyItem : Parser Session).run setting).Ignores c := by
    rw [run_eq]
    exact (Step.ignores_leaf Leaf.anyItem c).times 2
  have hsinks := @run_repeated_sinks Session _ setting (times 2 anyItem)
    (some { parser := anyItem }) 0 (run_neverGoesBack hsetting htimes)
    (by rintro r ⟨⟩; exact run_neverGoesBack hsetting hitem) c htimes'
    (by rintro r ⟨⟩; exact hitem') (Nat.zero_le _) {}
  -- The run takes three pairs, and after the third one no item is left.
  have hrun : Step.GreedyRun ((times 2 anyItem).run setting) (some (anyItem.run setting)) .list c 0
      false (#[] : Array Value) {} [.text ['b', '1'], .text ['a', '2'], .text ['b', '3']]
      (.stopped 8 false #[.text ['b', '1'], .text ['a', '2'], .text ['b', '3']]) {} := by
    refine .separated (q := 2) ⟨by decide, {}, ?_, rfl⟩ rfl
      (?_ : _ = EStateM.Result.ok (Outcome.success (.ofChar ',') 3) {}) ?_
    · with_unfolding_all rfl
    · with_unfolding_all rfl
    refine .separated (q := 5) ⟨by decide, {}, ?_, rfl⟩ rfl
      (?_ : _ = EStateM.Result.ok (Outcome.success (.ofChar ',') 6) {}) ?_
    · with_unfolding_all rfl
    · with_unfolding_all rfl
    refine .noSeparator (q := 8) (x := .position 8) ⟨by decide, {}, ?_, rfl⟩ rfl ?_ rfl
    · with_unfolding_all rfl
    · with_unfolding_all rfl
  obtain ⟨-, hlist, -, hstate, hpairs⟩ := hsinks.2 _ _ hrun
  have hmade : [(.text ['b'], .text ['1']), (.text ['a'], .text ['2']),
      (.text ['b'], .text ['3'])].foldl (fun d e => Dict.insert e.1 e.2 d) [] =
        [(.text ['b'], .text ['3']), (.text ['a'], .text ['2'])] := by
    with_unfolding_all rfl
  obtain ⟨hdict, hsorted⟩ :=
    hpairs [(.text ['b'], .text ['1']), (.text ['a'], .text ['2']), (.text ['b'], .text ['3'])]
      (.cons ⟨rfl, rfl⟩ (.cons ⟨rfl, rfl⟩ (.cons ⟨rfl, rfl⟩ .nil)))
  rw [hmade] at hdict hsorted
  have htexts : Dict.Comparable [.text ['b'], .text ['a'], .text ['b']] :=
    Dict.comparable_of_texts (by simp)
  exact ⟨hlist, hstate _ _, hdict, hsorted htexts⟩

end Parser

end Itemwise
