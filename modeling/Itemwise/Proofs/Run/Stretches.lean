import Mathlib
import Itemwise.Proofs.Run.Sinks
import Itemwise.Proofs.Run.Sequences

namespace Itemwise

/-!
# What the parts of a run consume

The parts of a sequence or a repetition run one after the other, so what they consume lies end to
end: no item is left out, and none is consumed twice.  The stretch that is reported for all of them
is the stretches of the parts put together.

* `EndAlike`, `EndAlike.onSuccess` — results that differ in the values of their successes only, and
  what follows these;
* `Value.IsConcat`, `Items.Partitioned` — values put together, and ranges that lie end to end;
* `Step.Passes`, `Step.Passes.partitioned` — steps that succeed one after the other, and what they
  consume;
* `Step.collect_measure` — what the parts of a sequence consume, and what is reported of each of
  them;
* `Step.times_eq_measure` — a parser a number of times has the stretch of a sequence;
* `Step.GreedyRun.measured` — the run of a repetition, with what its elements and separators
  consume;
* `Parser.run_stretches` — the stretches of sequences and of repetitions.
-/

/-! ### Results that are alike -/

section Results

variable {σ α α' β β' : Type}

/-- Two results are alike: both are one fault, or failures at one place, or successes at one
    position with values that are related there; and the user state is one in the end. -/
def EndAlike (R : α → β → Nat → σ → Prop) :
    EStateM.Result Fault σ (Outcome α) → EStateM.Result Fault σ (Outcome β) → Prop
  | .ok (.success v q) t, r => ∃ w, r = .ok (.success w q) t ∧ R v w q t
  | .ok (.failure x) t, r => r = .ok (.failure x) t
  | .error f t, r => r = .error f t

variable {R : α → β → Nat → σ → Prop} {S : α' → β' → Nat → σ → Prop}

/-- Results that are alike with values in one relation are so in a wider one. -/
theorem EndAlike.imp {R' : α → β → Nat → σ → Prop} {r : EStateM.Result Fault σ (Outcome α)}
    {r' : EStateM.Result Fault σ (Outcome β)} (h : EndAlike R r r')
    (hR : ∀ v w q t, R v w q t → R' v w q t) :
    EndAlike R' r r' := by
  match r, h with
  | .ok (.success v q) t, ⟨w, hr, hw⟩ => exact ⟨w, hr, hR v w q t hw⟩
  | .ok (.failure x) t, h => exact h
  | .error f t, h => exact h

/-- What follows successes that are alike is alike if it is for the values that are related. -/
theorem EndAlike.onSuccess {a : Action σ (Outcome α)} {b : Action σ (Outcome β)} {s : σ}
    (h : EndAlike R (a s) (b s)) {k : α → Nat → Action σ (Outcome α')}
    {l : β → Nat → Action σ (Outcome β')}
    (hk : ∀ v w q t, R v w q t → EndAlike S (k v q t) (l w q t)) :
    EndAlike S ((a >>= Outcome.onSuccess k) s) ((b >>= Outcome.onSuccess l) s) := by
  cases ha : a s with
  | error f t =>
    rw [ha] at h
    rw [Action.bind_of_error ha, Action.bind_of_error h]
    rfl
  | ok o t =>
    rw [ha] at h
    cases o with
    | failure x =>
      rw [Action.bind_of_ok ha, Action.bind_of_ok h]
      rfl
    | success v q =>
      obtain ⟨w, hb, hw⟩ := h
      rw [Action.bind_of_ok ha, Action.bind_of_ok hb]
      exact hk v w q t hw

end Results

/-! ### Ranges that lie end to end -/

/-- The items of a value are those of others, one after the other. -/
def Value.IsConcat (w : Value) (vs : List Value) : Prop :=
  ∃ xss, List.Forall₂ (fun v xs => v.elements? = some xs) vs xss ∧ w.elements? = some xss.flatten

/-- Whether an offset is in a range. -/
def Span.covers (i : Nat) (span : Span) : Bool := span.start ≤ i && i < span.stop

namespace Items

variable {items : Items} {start mid stop : Nat} {spans : List Span} {w : Value}

/-- The items in a range, as a value of the input's kind. -/
def stretch (items : Items) (span : Span) : Value := items.slice span.start span.stop

/-- Ranges divide the items from one position to another, with their value: every item between is in
    one of them, no other is in any, and the value is the stretches put together. -/
structure Partitioned (items : Items) (start stop : Nat) (spans : List Span)
    (w : Value) : Prop where
  once : ∀ i, spans.countP (Span.covers i) = if start ≤ i ∧ i < stop then 1 else 0
  whole : w = items.slice start stop
  joined : w.IsConcat (spans.map items.stretch)

/-- Two stretches end to end are one. -/
theorem drop_take_append {α : Type} (xs : List α) (h : start ≤ mid) (h' : mid ≤ stop) :
    (xs.take mid).drop start ++ (xs.take stop).drop mid = (xs.take stop).drop start := by
  have hmid : xs.take mid = (xs.take stop).take mid := by rw [List.take_take, Nat.min_eq_left h']
  have hstart : (xs.take stop).drop mid = ((xs.take stop).drop start).drop (mid - start) := by
    rw [List.drop_drop, Nat.add_sub_cancel' h]
  rw [hmid, hstart, List.drop_take, List.take_append_drop]

/-- Between a position and itself there is nothing to divide. -/
theorem partitioned_nil (items : Items) (n : Nat) : items.Partitioned n n [] (items.slice n n) where
  once i := by
    have hnone : ¬ (n ≤ i ∧ i < n) := by omega
    rw [List.countP_nil, if_neg hnone]
  whole := rfl
  joined := by
    refine ⟨[], .nil, ?_⟩
    rw [elements?_slice, List.drop_eq_nil_of_le (List.length_take_le n _), List.flatten_nil]

/-- One more range in front divides one stretch more. -/
theorem Partitioned.cons (h : items.Partitioned mid stop spans w) (hstart : start ≤ mid)
    (hstop : mid ≤ stop) :
    items.Partitioned start stop (⟨start, mid, hstart⟩ :: spans) (items.slice start stop) where
  once i := by
    rw [List.countP_cons, h.once]
    -- an item is in the first range, or else in one of the others exactly if it is before the end
    by_cases hleft : i < mid
    · have hrest : ¬ (mid ≤ i ∧ i < stop) := by omega
      have hwhole : (start ≤ i ∧ i < stop) ↔ start ≤ i := by omega
      simp [Span.covers, hrest, hwhole, hleft]
    · have hrest : (mid ≤ i ∧ i < stop) ↔ i < stop := by omega
      have hwhole : (start ≤ i ∧ i < stop) ↔ i < stop := by omega
      simp [Span.covers, hrest, hwhole, hleft]
  whole := rfl
  joined := by
    obtain ⟨xss, hxss, hw⟩ := h.joined
    have hfirst : (items.stretch ⟨start, mid, hstart⟩).elements? =
        some ((items.toList.take mid).drop start) :=
      elements?_slice items start mid
    rw [h.whole, elements?_slice, Option.some.injEq] at hw
    refine ⟨_, .cons hfirst hxss, ?_⟩
    rw [elements?_slice, List.flatten_cons, ← hw, drop_take_append items.toList hstart hstop]

end Items

/-! ### Steps that succeed one after the other -/

namespace Step

variable {σ : Type} {c : Context} {items : Items}

/-- Steps succeed one after the other, each from where the one before it stopped: with the ranges
    that they consume, the position and the user state in the end. -/
inductive Passes (c : Context) :
    List (Step σ) → (pos : Nat) → σ → List Span → (stop : Nat) → σ → Prop
  | nil {pos s} : Passes c [] pos s [] pos s
  | cons {p ps pos s v mid t spans stop u} (h : p (c.moveTo pos) s = .ok (.success v mid) t)
      (hpos : pos ≤ mid) (hrest : Passes c ps mid t spans stop u) :
    Passes c (p :: ps) pos s (⟨pos, mid, hpos⟩ :: spans) stop u

variable {p : Step σ} {ps : List (Step σ)} {pos q stop : Nat} {s t u : σ} {v : Value}
  {spans : List Span}

/-- Steps one after the other stop no earlier than they start. -/
theorem Passes.le (h : Passes c ps pos s spans stop t) : pos ≤ stop := by
  induction h with
  | nil => exact Nat.le_refl _
  | cons _ hpos _ ih => exact Nat.le_trans hpos ih

/-- What steps consume one after the other lies end to end. -/
theorem Passes.partitioned (h : Passes c ps pos s spans stop t) (items : Items) :
    items.Partitioned pos stop spans (items.slice pos stop) := by
  induction h with
  | nil => exact items.partitioned_nil _
  | cons _ hpos hrest ih => exact ih.cons hpos hrest.le

end Step

/-! ### Reports -/

/-- What is reported of a value and the range that was consumed for it. -/
def Measure.reported (items : Items) (span : Span) (v : Value) : Measure → Value
  | .count => .tuple [.int span.length, v]
  | .stretchAndValue => .tuple [items.stretch span, v]
  | .stretch => items.stretch span
  | .span => .tuple [v, .span span]

/-- All reports are about the same range. -/
theorem Measure.report_eq {c : Context} {items : Items} (hitems : c.items = .sequence items)
    (m : Measure) (v : Value) {q : Nat} (hq : c.pos ≤ q) :
    m.report c v q = .ok (m.reported items ⟨c.pos, q, hq⟩ v) := by
  have hslice : c.sliceTo q = .ok (items.slice c.pos q) := by
    rw [Context.sliceTo, hitems, Input.slice_sequence]
  cases m with
  | count =>
    have hlength : ((Span.length ⟨c.pos, q, hq⟩ : Nat) : Int) = (q : Int) - c.pos :=
      Int.ofNat_sub hq
    rw [report, reported, hlength]
  | stretchAndValue =>
    rw [report, hslice]
    rfl
  | stretch => exact hslice
  | span =>
    rw [report, Span.ofBounds?_natCast hq]
    rfl

namespace Step

variable {σ : Type} {c : Context} {items : Items} {p : Step σ} {ps : List (Step σ)}
  {pos q stop : Nat} {s t u : σ} {v : Value}

section Measured

variable {x : Place} {f : Fault} (m : Measure)

/-- A measured parser runs the parser and reports on where it started and stopped. -/
theorem measure_eq (p : Step σ) (c : Context) :
    measure m p c = p c >>= Outcome.onSuccess fun v q =>
      do return .success (← Action.ofExcept (m.report c v q)) q :=
  congrArg (p c >>= ·) (Outcome.eq_onSuccess (fun _ => rfl) fun _ _ => rfl)

/-- It reports the stretch or the range that the parser has consumed. -/
theorem measure_of_success (hitems : c.items = .sequence items) (h : p c s = .ok (.success v q) t)
    (hq : c.pos ≤ q) :
    measure m p c s = .ok (.success (m.reported items ⟨c.pos, q, hq⟩ v) q) t := by
  rw [measure_eq, Action.bind_of_ok h, Outcome.onSuccess_success, Measure.report_eq hitems m v hq]
  rfl

/-- It fails where the parser does. -/
theorem measure_of_failure (h : p c s = .ok (.failure x) t) :
    measure m p c s = .ok (.failure x) t :=
  Action.bind_of_ok h

/-- It ends in the fault of the parser. -/
theorem measure_of_error (h : p c s = .error f t) : measure m p c s = .error f t :=
  Action.bind_of_error h

/-- With a report of what it consumes, a step ends as it does without, and the report is about the
    range from its start to its end. -/
theorem measure_endAlike (hitems : c.items = .sequence items) (hp : p.NeverGoesBack)
    (hc : c.pos ≤ items.size) (s : σ) :
    EndAlike (fun v w q t => p c s = .ok (.success v q) t ∧ q ≤ items.size ∧
        ∃ hq : c.pos ≤ q, w = m.reported items ⟨c.pos, q, hq⟩ v)
      (p c s) (measure m p c s) := by
  have hsize : c.items.size = items.size := congrArg Input.size hitems
  cases h : p c s with
  | error f t => exact measure_of_error m h
  | ok o t =>
    cases o with
    | failure x => exact measure_of_failure m h
    | success v q =>
      obtain ⟨hq, hend⟩ := hp c s v q t (hsize ▸ hc) h
      exact ⟨_, measure_of_success m hitems h hq, rfl, hsize ▸ hend, hq, rfl⟩

end Measured

/-- The parts of a sequence pass one after the other if the sequence succeeds, and then their
    stretches are what is reported of each of them.  With the reports or without, the parts end
    alike. -/
theorem collect_measure (hitems : c.items = .sequence items) (hps : ∀ p ∈ ps, p.NeverGoesBack)
    (hpos : pos ≤ items.size) (s : σ) :
    EndAlike (fun _ ws q t => ∃ spans, Passes c ps pos s spans q t ∧ ws = spans.map items.stretch)
      (collect ps (c.moveTo pos) s) (collect (ps.map (measure .stretch)) (c.moveTo pos) s) := by
  induction ps generalizing pos s with
  | nil => exact ⟨[], rfl, [], .nil, rfl⟩
  | cons p ps ih =>
    rw [List.map_cons, collect_cons, collect_cons]
    apply (measure_endAlike (c := c.moveTo pos) .stretch hitems (hps p List.mem_cons_self)
      hpos s).onSuccess
    rintro v w q t ⟨hp, hend, hq, rfl⟩
    -- the other parts go on from where this one stopped
    apply (ih (fun r hr => hps r (List.mem_cons_of_mem p hr)) hend t).onSuccess
    rintro vs ws r u ⟨spans, hpasses, rfl⟩
    exact ⟨_, rfl, ⟨pos, q, hq⟩ :: spans, .cons hp hq hpasses, rfl⟩

/-- A counted repetition runs its parser once and then one time less. -/
theorem again_succ (n : Nat) (p : Step σ) (c : Context) :
    again p (n + 1) c = p c >>= Outcome.onSuccess fun _ q => again p n (c.moveTo q) :=
  congrArg (p c >>= ·) (Outcome.eq_onSuccess (fun _ => rfl) fun _ _ => rfl)

/-- A step is run a number of times as so many steps in a sequence. -/
theorem again_eq_collect (n : Nat) (p : Step σ) (c : Context) :
    again p n c = collect (List.replicate n p) c >>= Outcome.onSuccess fun _ q =>
      pure (.success () q) := by
  induction n generalizing c with
  | zero => rfl
  | succ n ih =>
    rw [again_succ, List.replicate_succ, collect_cons, bind_assoc]
    simp only [ih, bind_assoc, Outcome.onSuccess_bind, pure_bind, Outcome.onSuccess_success]

/-- A step a number of times has the stretch of so many steps in a sequence. -/
theorem times_eq_measure (n : Nat) (p : Step σ) :
    times n p = measure .stretch (sequence .all (List.replicate n p)) := by
  funext c
  have htimes : times n p c = again p n c >>= Outcome.onSuccess fun _ q =>
      do return .success (← c.sliceTo q) q :=
    congrArg (again p n c >>= ·) (Outcome.eq_onSuccess (fun _ => rfl) fun _ _ => rfl)
  rw [htimes, measure_eq, again_eq_collect, sequence_all_eq]
  simp only [bind_assoc, Outcome.onSuccess_bind, pure_bind, Outcome.onSuccess_success]
  rfl

/-! ### Repetitions -/

/-- So many elements and separators in turns. -/
def inTurns (element : Step σ) (separator : Option (Step σ)) (elements gaps : Nat) :
    List (Step σ) :=
  (List.replicate elements element).interleave (separator.elim [] (List.replicate gaps))

/-- How many separators there are in a run of some elements, by whether there is one right before it
    and one at its end: if there are separators at all, one between every two elements and maybe one
    more. -/
def HasGaps (separator : Option (Step σ)) (before after : Bool) (elements gaps : Nat) : Prop :=
  match elements, separator with
  | 0, _ => gaps = 0 ∧ after = before
  | _ + 1, none => gaps = 0 ∧ after = false
  | elements + 1, some _ => gaps = elements + after.toNat

variable {element next : Step σ} {separator : Option (Step σ)} {d d' : Bool} {m n : Nat}

/-- No turns pass over nothing. -/
theorem passes_inTurns_nil (element : Step σ) (separator : Option (Step σ)) (pos : Nat) (s : σ) :
    Passes c (inTurns element separator 0 0) pos s (([] : List Span).interleave []) pos s := by
  have hnone : inTurns element separator 0 0 = [] := by cases separator <;> simp [inTurns]
  rw [hnone, List.interleave_nil]
  exact .nil

/-- Without separators the turns are the elements. -/
theorem inTurns_none (element : Step σ) (m n : Nat) :
    inTurns element none (m + 1) n = element :: inTurns element none m n := by
  simp [inTurns, List.replicate_succ]

/-- With them the turns are an element and a separator, by turns. -/
theorem inTurns_some (element next : Step σ) (m n : Nat) :
    inTurns element (some next) (m + 1) (n + 1) = element :: next ::
      inTurns element (some next) m n := by
  simp [inTurns, List.replicate_succ]

/-- Without separators there are none. -/
theorem HasGaps.eq_zero_of_none (h : HasGaps (none : Option (Step σ)) d d' m n) : n = 0 := by
  cases m with
  | zero => exact h.1
  | succ m => exact h.1

/-- Without separators, one element more is all there is more. -/
theorem HasGaps.further (h : HasGaps (none : Option (Step σ)) false d' m n) (d : Bool) :
    HasGaps (none : Option (Step σ)) d d' (m + 1) n := by
  cases m with
  | zero => exact h
  | succ m => exact h

/-- An element and the separator after it are one of each more. -/
theorem HasGaps.separated (h : HasGaps (some next) true d' m n) (d : Bool) :
    HasGaps (some next) d d' (m + 1) (n + 1) := by
  cases m with
  | zero =>
    obtain ⟨rfl, rfl⟩ := h
    rfl
  | succ m =>
    have hn : n = m + d'.toNat := h
    show n + 1 = m + 1 + d'.toNat
    omega

variable [Memory σ] {vs : List Value}

/-- A value that is not kept is the value of an element that counts. -/
theorem Counts.run_discard {acc acc' : (Sink.discard : Sink σ).Acc}
    (hv : Counts element .discard c pos acc s v q acc' t) :
    element (c.moveTo pos) s = .ok (.success v q) t := by
  obtain ⟨-, u, hrun, hpush⟩ := hv
  cases hpush
  exact hrun

/-- An element that counts does so with its stretch in a list. -/
theorem Counts.measured (hitems : c.items = .sequence items)
    {acc acc' : (Sink.discard : Sink σ).Acc} (hv : Counts element .discard c pos acc s v q acc' t)
    (xs : Array Value) :
    Counts (measure .stretch element) .list c pos (xs : (Sink.list : Sink σ).Acc) s
      (items.stretch ⟨pos, q, hv.further.le⟩) q
      (xs.push (items.stretch ⟨pos, q, hv.further.le⟩) : Array Value) t :=
  ⟨hv.further, t, measure_of_success (c := c.moveTo pos) .stretch hitems hv.run_discard
    hv.further.le, rfl⟩

/-- The run of a repetition is the same with the stretches of its elements in a list.  If it stops
    somewhere, it has passed elements and separators in turns up to there. -/
theorem GreedyRun.measured (hitems : c.items = .sequence items) (helement : element.NeverGoesBack)
    (hseparator : ∀ next, separator = some next → next.NeverGoesBack) (hpos : pos ≤ items.size)
    {acc : (Sink.discard : Sink σ).Acc} {e : Ending (Sink.discard : Sink σ).Acc}
    (h : GreedyRun element separator .discard c pos d acc s vs e u) (xs : Array Value) :
    ∃ (elements gaps : List Span) (xs' : Array Value), elements.length = vs.length ∧
      GreedyRun (measure .stretch element) separator .list c pos d (xs : (Sink.list : Sink σ).Acc) s
        (elements.map items.stretch) (e.withAcc (xs' : (Sink.list : Sink σ).Acc)) u ∧
      ∀ q d' acc', e = .stopped q d' acc' → HasGaps separator d d' elements.length gaps.length ∧
        ∃ t, Passes c (inTurns element separator elements.length gaps.length) pos s
          (elements.interleave gaps) q t := by
  have hsize : c.items.size = items.size := congrArg Input.size hitems
  -- On the run: where an element counts, its range is put in front, with that of the separator if
  -- there is one.
  induction h generalizing xs with
  | @further pos d acc s v q acc' t vs e u hv hnone _ ih =>
    subst hnone
    obtain ⟨elements, gaps, xs', hlength, hrest, hstopped⟩ :=
      ih (hsize ▸ hv.le_size helement (hsize ▸ hpos)) (xs.push _)
    refine ⟨⟨pos, q, hv.further.le⟩ :: elements, gaps, xs', by simp [hlength],
      .further (hv.measured hitems xs) rfl hrest, ?_⟩
    intro r d' acc'' he
    obtain ⟨hgaps, t', hpasses⟩ := hstopped r d' acc'' he
    obtain rfl : gaps = [] := List.length_eq_zero_iff.mp hgaps.eq_zero_of_none
    refine ⟨hgaps.further d, t', ?_⟩
    rw [List.interleave_nil] at hpasses ⊢
    rw [List.length_cons, inTurns_none]
    exact .cons hv.run_discard hv.further.le hpasses
  | @separated pos d acc s v q acc' t next w r t' vs e u hv hnext hr _ ih =>
    subst hnext
    have hq := hv.le_size helement (hsize ▸ hpos)
    have hback : q ≤ r ∧ r ≤ c.items.size := hseparator next rfl (c.moveTo q) t w r t' hq hr
    obtain ⟨elements, gaps, xs', hlength, hrest, hstopped⟩ := ih (hsize ▸ hback.2) (xs.push _)
    refine ⟨⟨pos, q, hv.further.le⟩ :: elements, ⟨q, r, hback.1⟩ :: gaps, xs', by simp [hlength],
      .separated (hv.measured hitems xs) rfl hr hrest, ?_⟩
    intro r' d' acc'' he
    obtain ⟨hgaps, t'', hpasses⟩ := hstopped r' d' acc'' he
    refine ⟨hgaps.separated d, t'', ?_⟩
    rw [List.cons_interleave, List.cons_interleave, List.length_cons,
      List.length_cons, inTurns_some]
    exact .cons hv.run_discard hv.further.le (.cons hr hback.1 hpasses)
  | @noElement pos d acc s x u h hx =>
    refine ⟨[], [], xs, rfl, .noElement (measure_of_failure .stretch h) hx, ?_⟩
    rintro q d' acc' ⟨⟩
    exact ⟨⟨rfl, rfl⟩, s, passes_inTurns_nil element separator pos s⟩
  | @emptyElement pos d acc s v u h =>
    have hempty := measure_of_success (c := c.moveTo pos) .stretch hitems h (Nat.le_refl pos)
    refine ⟨[], [], xs, rfl, .emptyElement hempty, ?_⟩
    rintro q d' acc' ⟨⟩
    exact ⟨⟨rfl, rfl⟩, s, passes_inTurns_nil element separator pos s⟩
  | @noSeparator pos d acc s v q acc' t next x u hv hnext h hx =>
    subst hnext
    refine ⟨[⟨pos, q, hv.further.le⟩], [], _, rfl,
      .noSeparator (hv.measured hitems xs) rfl h hx, ?_⟩
    rintro q d' acc' ⟨⟩
    have hone : inTurns element (some next) 1 0 = [element] := by simp [inTurns]
    refine ⟨rfl, t, ?_⟩
    rw [List.interleave_nil, List.length_singleton, List.length_nil, hone]
    exact .cons hv.run_discard hv.further.le .nil
  | brokenElement h hx =>
    refine ⟨[], [], xs, rfl, .brokenElement (measure_of_failure .stretch h) hx, ?_⟩
    rintro q d' acc' ⟨⟩
  | brokenSeparator hv hnext h hx =>
    refine ⟨[⟨_, _, hv.further.le⟩], [], xs, rfl,
      .brokenSeparator (hv.measured hitems xs) hnext h hx, ?_⟩
    rintro q d' acc' ⟨⟩
  | raisedElement h =>
    refine ⟨[], [], xs, rfl, .raisedElement (measure_of_error .stretch h), ?_⟩
    rintro q d' acc' ⟨⟩
  | raisedPush _ _ hpush => cases hpush
  | raisedSeparator hv hnext h =>
    refine ⟨[⟨_, _, hv.further.le⟩], [], xs, rfl,
      .raisedSeparator (hv.measured hitems xs) hnext h, ?_⟩
    rintro q d' acc' ⟨⟩

omit [Memory σ] in
/-- A step goes no further back if what it consumes is reported. -/
theorem NeverGoesBack.measure (h : p.NeverGoesBack) (m : Measure) :
    (Step.measure m p).NeverGoesBack := by
  intro c s v q t hc hmeasure
  cases hp : p c s with
  | error f u =>
    rw [measure_of_error m hp] at hmeasure
    cases hmeasure
  | ok o u =>
    cases o with
    | failure x =>
      rw [measure_of_failure m hp] at hmeasure
      cases hmeasure
    | success w r =>
      rw [measure_eq, Action.bind_of_ok hp, Outcome.onSuccess_success] at hmeasure
      -- the report may be refused, but does not move the cursor
      cases hreport : m.report c w r with
      | error f =>
        rw [hreport] at hmeasure
        cases hmeasure
      | ok w' =>
        rw [hreport] at hmeasure
        cases hmeasure
        exact h c s w q t hc hp

/-- A repetition that keeps no values has the stretches of its elements and separators, in turns;
    the stretches of its elements are what the same repetition collects in a list.  The two end
    alike. -/
theorem many_measured (hitems : c.items = .sequence items) (helement : element.NeverGoesBack)
    (hseparator : ∀ next, separator = some next → next.NeverGoesBack) (hc : c.pos ≤ items.size)
    (allowTrailing : Bool) (atLeast : Nat) (s : σ) :
    EndAlike (fun w v q _ => ∃ (elements gaps : List Span) (trailing : Bool) (u : σ),
        v = .list (elements.map items.stretch) ∧
        HasGaps separator false trailing elements.length gaps.length ∧
          (trailing = true → allowTrailing = true) ∧
        Passes c (inTurns element separator elements.length gaps.length) c.pos s
          (elements.interleave gaps) q u ∧
        w = items.slice c.pos q)
      (many element separator allowTrailing .discard atLeast c s)
      (many (measure .stretch element) separator allowTrailing .list atLeast c s) := by
  have hsize : c.items.size = items.size := congrArg Input.size hitems
  have hroom : (Sink.discard : Sink σ).HasRoom := Sink.hasRoom_of_isUnbounded trivial
  obtain ⟨vs, e, u, hrun⟩ :=
    exists_greedyRun hroom helement hseparator _ (hsize ▸ hc) rfl false () s
  obtain ⟨elements, gaps, xs, hlength, hmeasured, hstopped⟩ :=
    hrun.measured hitems helement hseparator hc #[]
  have hrun' : GreedyRun element separator .discard c c.pos false () s vs (e.withAcc ()) u := by
    cases e <;> exact hrun
  -- both repetitions come out by the same end
  have hdiscard : many element separator allowTrailing .discard atLeast c s =
      e.outcome allowTrailing atLeast elements.length (fun q => valueAt .discard c q ()) u := by
    rw [hlength]
    exact many_outcome helement hseparator (hsize ▸ hc) rfl hrun'
  have hlist : many (measure .stretch element) separator allowTrailing .list atLeast c s =
      e.outcome allowTrailing atLeast elements.length (fun q => valueAt .list c q xs) u := by
    rw [← List.length_map items.stretch]
    exact many_outcome (helement.measure .stretch) hseparator (hsize ▸ hc) rfl hmeasured
  rw [hdiscard, hlist]
  cases e with
  | raised f => rfl
  | broken x => rfl
  | stopped q d acc =>
    obtain ⟨hgaps, u', hpasses⟩ := hstopped q d acc rfl
    have hvalues : Array.toList xs = elements.map items.stretch := hmeasured.takes.list_eq
    have hslice : valueAt .discard c q () = (pure (items.slice c.pos q) : Action σ Value) := by
      show Action.ofExcept (c.sliceTo q) = _
      rw [Context.sliceTo, hitems, Input.slice_sequence]
      rfl
    simp only [Ending.outcome]
    by_cases hfails : (d = true ∧ allowTrailing = false) ∨ elements.length < atLeast
    · rw [if_pos hfails, if_pos hfails]
      rfl
    · rw [if_neg hfails, if_neg hfails, hslice]
      have hpermitted : d = true → allowTrailing = true := by
        intro hd
        simpa using fun hnot => hfails (.inl ⟨hd, hnot⟩)
      exact ⟨.list (Array.toList xs), rfl, elements, gaps, d, u', congrArg Value.list hvalues,
        hgaps, hpermitted, hpasses, rfl⟩

end Step

namespace Parser

variable {σ : Type} [Memory σ] {setting : Setting σ} {p : Parser σ} {ps : List (Parser σ)}
  {separator : Option (Separator σ)} {atLeast : Nat} {c : Context} {items : Items}

/-- A run of a measured parser, as a step. -/
theorem run_measure (m : Measure) (p : Parser σ) :
    (measure m p).run setting = Step.measure m (p.run setting) := by
  rw [run_eq, run_eq setting p]
  rfl

/-- A run of a counted repetition, as a step. -/
theorem run_times (n : Nat) (p : Parser σ) :
    (times n p).run setting = Step.times n (p.run setting) := by
  rw [run_eq, run_eq setting p]
  rfl

/-- The stretch of a sequence is the stretches of its parts put together. -/
theorem run_measure_seq (hitems : c.items = .sequence items) (hc : c.pos ≤ items.size)
    (hps : ∀ p ∈ ps, (p.run setting).NeverGoesBack) (s : σ) :
    EndAlike (fun w v q t => ∃ spans, Step.Passes c (ps.map (run setting)) c.pos s spans q t ∧
        items.Partitioned c.pos q spans w ∧
        v = .tuple (spans.map items.stretch))
      ((measure .stretch (seq ps)).run setting c s)
      ((seq (ps.map (measure .stretch))).run setting c s) := by
  have hsteps : ∀ r ∈ ps.map (run setting), r.NeverGoesBack := by
    intro r hr
    obtain ⟨p, hp, rfl⟩ := List.mem_map.mp hr
    exact hps p hp
  have hmeasured : (ps.map (measure .stretch)).map (run setting) =
      (ps.map (run setting)).map (Step.measure .stretch) := by
    rw [List.map_map, List.map_map]
    exact List.map_congr_left fun p _ => run_measure .stretch p
  have hslice (q : Nat) (v : Value) : Measure.stretch.report c v q = .ok (items.slice c.pos q) := by
    rw [Measure.report, Context.sliceTo, hitems, Input.slice_sequence]
  rw [run_measure, run_seq, run_seq, hmeasured, Step.measure_eq, Step.sequence_all_eq,
    Step.sequence_all_eq, bind_assoc]
  simp only [Outcome.onSuccess_bind, pure_bind, Outcome.onSuccess_success, hslice]
  -- what the parts do, and then what is made of it
  apply (Step.collect_measure hitems hsteps hc s).onSuccess
  rintro vs ws q t ⟨spans, hpasses, rfl⟩
  exact ⟨_, rfl, spans, hpasses, hpasses.partitioned items, rfl⟩

/-- **What is consumed lies end to end.** Let the parsers never go back, and the input be a sequence
    of any kind.  Then the stretch of a sequence is the stretches of its parts put together: each of
    them consumes its range from where the one before it stopped, every item of the whole is in one
    of the ranges, and no other item is in any.  A parser a number of times has the stretch of so
    many in a sequence.  The value of a repetition without a sink is the stretches put together that
    the same repetition of the element's stretches has in a list, with those of the separators in
    between, and one at the end if it may be there.  The number, the stretch and the span that are
    reported of a parser are those of one range. -/
theorem run_stretches (hitems : c.items = .sequence items) (hc : c.pos ≤ items.size)
    (hps : ∀ p ∈ ps, (p.run setting).NeverGoesBack) (hp : (p.run setting).NeverGoesBack)
    (hseparator : ∀ r, separator = some r → (r.parser.run setting).NeverGoesBack)
    (n : Nat) (s : σ) :
    let next := separator.map (·.parser.run setting)
    EndAlike (fun w v q t => ∃ spans, Step.Passes c (ps.map (run setting)) c.pos s spans q t ∧
          items.Partitioned c.pos q spans w ∧ v = .tuple (spans.map items.stretch))
        ((measure .stretch (seq ps)).run setting c s)
        ((seq (ps.map (measure .stretch))).run setting c s) ∧
      (times n p).run setting = (measure .stretch (seq (List.replicate n p))).run setting ∧
      EndAlike (fun w v q _ => ∃ (elements gaps : List Span) (trailing : Bool) (u : σ),
          v = .list (elements.map items.stretch) ∧
          Step.HasGaps next false trailing elements.length gaps.length ∧
          (trailing = true → separator.all (·.allowTrailing) = true) ∧
          Step.Passes c (Step.inTurns (p.run setting) next elements.length gaps.length) c.pos s
            (elements.interleave gaps) q u ∧
          items.Partitioned c.pos q (elements.interleave gaps) w ∧
          (separator = none → w.IsConcat (elements.map items.stretch)))
        ((repeated p .discard separator atLeast).run setting c s)
        ((repeated (measure .stretch p) .list separator atLeast).run setting c s) ∧
      ∀ m, EndAlike (fun v w q _ => ∃ hq : c.pos ≤ q, w = m.reported items ⟨c.pos, q, hq⟩ v)
        (p.run setting c s) ((measure m p).run setting c s) := by
  intro next
  refine ⟨run_measure_seq hitems hc hps s, ?_, ?_, fun m => ?_⟩
  · rw [run_times, run_measure, run_seq, List.map_replicate, Step.times_eq_measure]
  · rw [run_repeated_eq, run_repeated_eq, run_measure]
    apply (Step.many_measured hitems hp (forall_separator (P := Step.NeverGoesBack) hseparator) hc _
      atLeast s).imp
    rintro w v q t ⟨elements, gaps, trailing, u, hv, hgaps, hpermitted, hpasses, rfl⟩
    have hpartitioned := hpasses.partitioned items
    refine ⟨elements, gaps, trailing, u, hv, hgaps, hpermitted, hpasses, hpartitioned, ?_⟩
    -- without separators there are no gaps
    rintro rfl
    obtain rfl : gaps = [] := List.length_eq_zero_iff.mp hgaps.eq_zero_of_none
    rw [List.interleave_nil] at hpartitioned
    exact hpartitioned.joined
  · rw [run_measure]
    exact (Step.measure_endAlike m hitems hp hc s).imp fun v w q t h => h.2.2

/-- Letters with commas between them and one at the end: the commas are part of what is consumed,
    and not of the list. -/
theorem run_stretches_commas :
    let items : Items := .text #['a', ',', 'a', ',']
    let c := start (.sequence items) { levels := 50 }
    let p : Parser Unit := .char 'a'
    let r : Separator Unit := { parser := .char ',', allowTrailing := true }
    (repeated p .discard (some r) 0).run brackets c () =
      .ok (.success (.text ['a', ',', 'a', ',']) 4) () ∧
      (repeated (measure .stretch p) .list (some r) 0).run brackets c () =
        .ok (.success (.list [.ofChar 'a', .ofChar 'a']) 4) () ∧
      ∃ elements gaps : List Span, elements.map items.stretch = [.ofChar 'a', .ofChar 'a'] ∧
        items.Partitioned 0 4 (elements.interleave gaps) (.text ['a', ',', 'a', ',']) := by
  intro items c p r
  have hchar (x : Char) : ((Parser.char x).run brackets).NeverGoesBack :=
    run_neverGoesBack brackets_movesForward (.node trivial nofun)
  have hps : ∀ q ∈ [p, r.parser], (q.run brackets).NeverGoesBack := by
    intro q hq
    rcases List.mem_pair.mp hq with rfl | rfl
    · exact hchar 'a'
    · exact hchar ','
  have hseparator : ∀ q, some r = some q → (q.parser.run brackets).NeverGoesBack := by
    rintro q ⟨⟩
    exact hchar ','
  have hstretch : (repeated p .discard (some r) 0).run brackets c () =
      .ok (.success (.text ['a', ',', 'a', ',']) 4) () := by with_unfolding_all rfl
  have hlist : (repeated (measure .stretch p) .list (some r) 0).run brackets c () =
      .ok (.success (.list [.ofChar 'a', .ofChar 'a']) 4) () := by with_unfolding_all rfl
  obtain ⟨-, -, hmany, -⟩ :=
    @run_stretches Unit _ brackets p [p, r.parser] (some r) 0 c items rfl
      (Nat.zero_le 4) hps (hchar 'a')
    hseparator 2 ()
  rw [hstretch, hlist] at hmany
  obtain ⟨v, ⟨⟩, elements, gaps, -, -, hv, -, -, -, hpartitioned, -⟩ := hmany
  exact ⟨hstretch, hlist, elements, gaps, (Value.list.inj hv).symm, hpartitioned⟩

end Parser

end Itemwise
