import Itemwise.Proofs.Run.Turns

namespace Itemwise

/-!
# How often the parts of a repetition are applied

A repetition applies its element at most once more than there are items left, and its separator and
its sink at most as often as there are items left, also where its parts succeed without consuming
anything.  A counter in the user state shows it: parts that raise it whenever they are applied have
raised it no more often when the repetition has come to its outcome.

* `Part.total` — what parts come to that are applied, each at its rate;
* `Action.AddsAtMost` — an action adds at most some number to a counter in the user state;
* `Turn.Adds`, `Turn.Adds.next`, `Turn.Adds.run` — the parts add at most their rates, one turn what
  its part adds, and turns what the parts add that are applied in them;
* `Step.conclude`, `Step.many_eq_conclude` — what a repetition does when its loop is over;
* `Parser.run_repeated_applied` — repetitions are linear.
-/

/-! ### Counters in the user state -/

namespace Part

variable {rate : Part → Nat}

/-- What parts come to that are applied one after the other, each at its rate. -/
def total (rate : Part → Nat) : List Part → Nat
  | [] => 0
  | part :: parts => rate part + total rate parts

/-- No part comes to nothing. -/
@[simp] theorem total_nil : total rate [] = 0 := rfl

/-- The first part adds its own rate. -/
@[simp] theorem total_cons (part : Part) (parts : List Part) :
    total rate (part :: parts) = rate part + total rate parts :=
  rfl

/-- What parts come to in two lists is added. -/
theorem total_append (parts parts' : List Part) :
    total rate (parts ++ parts') = total rate parts + total rate parts' := by
  induction parts with
  | nil => simp
  | cons part parts ih => simp [ih, Nat.add_assoc]

/-- What parts come to is told by how often each of them is applied. -/
theorem total_eq (rate : Part → Nat) (parts : List Part) :
    total rate parts =
      parts.count .element * rate .element + parts.count .separator * rate .separator +
        parts.count .sink * rate .sink := by
  induction parts with
  | nil => simp
  | cons part parts ih => cases part <;> simp [ih, Nat.succ_mul] <;> omega

end Part

namespace Action

variable {σ α β : Type} {a : Action σ α} {k : α → Action σ β} {counter : σ → Nat} {m n : Nat}

/-- Whether or not an action ends in a fault, it adds at most some number to a counter in the user
    state. -/
def AddsAtMost (counter : σ → Nat) (n : Nat) (a : Action σ α) : Prop :=
  ∀ s, match a s with
    | .ok _ t | .error _ t => counter t ≤ counter s + n

/-- A result alone adds nothing. -/
theorem addsAtMost_pure (x : α) : AddsAtMost counter n (pure x : Action σ α) :=
  fun s => Nat.le_add_right (counter s) n

/-- A fault alone adds nothing. -/
theorem addsAtMost_throw (f : Fault) : AddsAtMost counter n (throw f : Action σ α) :=
  fun s => Nat.le_add_right (counter s) n

/-- A computation that does not touch the user state adds nothing. -/
theorem addsAtMost_ofExcept (r : Except Fault α) :
    AddsAtMost counter n (ofExcept r : Action σ α) := by
  cases r with
  | ok x => exact addsAtMost_pure x
  | error f => exact addsAtMost_throw f

/-- Two actions one after the other add at most what both may add. -/
theorem AddsAtMost.bind (ha : AddsAtMost counter m a) (hk : ∀ x, AddsAtMost counter n (k x)) :
    AddsAtMost counter (m + n) (a >>= k) := by
  intro s
  have hs := ha s
  cases h : a s with
  | ok x t =>
    rw [h] at hs
    rw [bind_of_ok h]
    have ht := hk x t
    cases hrest : k x t <;> simp only [hrest] at ht ⊢ <;> omega
  | error f t =>
    rw [h] at hs
    rw [bind_of_error h]
    simp only at hs ⊢
    omega

end Action

namespace Turn

variable {σ : Type} [Memory σ] {element : Step σ} {separator : Option (Step σ)}
  {sink : Sink σ} {c : Context} {turn : Turn σ sink.Acc} {counter : σ → Nat} {rate : Part → Nat}

/-- Each part adds at most its rate to a counter in the user state, wherever it is applied. -/
structure Adds (element : Step σ) (separator : Option (Step σ)) (sink : Sink σ) (counter : σ → Nat)
    (rate : Part → Nat) : Prop where
  element : ∀ c, (element c).AddsAtMost counter (rate .element)
  separator : ∀ next, separator = some next → ∀ c, (next c).AddsAtMost counter (rate .separator)
  sink : ∀ acc v, (sink.push acc v).AddsAtMost counter (rate .sink)

/-- A turn adds what its part adds. -/
theorem Adds.next (h : Adds element separator sink counter rate)
    (hstands : turn.Stands separator c.items.size) :
    (next element separator sink c turn).AddsAtMost counter
    (Part.total rate turn.part?.toList) := by
  cases turn with
  | element t =>
    apply (h.element (c.moveTo t.pos)).bind
    intro o
    cases o <;> exact Action.addsAtMost_pure _
  | sink t v q => exact (h.sink t.acc v).bind fun _ => Action.addsAtMost_pure _
  | separator r t =>
    apply (h.separator r hstands.1 (c.moveTo t.pos)).bind
    intro o
    cases o <;> exact Action.addsAtMost_pure _
  | ended g => exact Action.addsAtMost_pure _

/-- A number of turns adds what the parts add that are applied in them. -/
theorem Adds.run (h : Adds element separator sink counter rate) (helement : element.NeverGoesBack)
    (hseparator : ∀ next, separator = some next → next.NeverGoesBack)
    (hstands : turn.Stands separator c.items.size) (n : Nat) (s : σ) :
    match run element separator sink c n turn s with
    | .ok _ u | .error _ u =>
      counter u ≤ counter s + Part.total rate (applied element separator sink c n turn s) := by
  induction n generalizing turn s with
  | zero => exact Nat.le_add_right _ _
  | succ n ih =>
    -- what the first turn adds, and what the others do in the state that it leaves
    have hturn := h.next hstands s
    rw [applied, Part.total_append]
    show match (Turn.next element separator sink c turn >>= Turn.run element separator sink c n) s
        with
      | .ok _ u | .error _ u => _
    cases hnext : Turn.next element separator sink c turn s with
    | error f u =>
      rw [hnext] at hturn
      rw [Action.bind_of_error hnext]
      simpa using hturn
    | ok turn' t =>
      rw [hnext] at hturn
      rw [Action.bind_of_ok hnext]
      have hrest := ih (left_next helement hseparator hstands hnext).1 t
      cases hrun : Turn.run element separator sink c n turn' t <;> simp only [hrun]
        at hturn hrest ⊢ <;> omega

/-- The loop adds what the parts add as often as they can be applied in it. -/
theorem Adds.gather (h : Adds element separator sink counter rate)
    (helement : element.NeverGoesBack)
    (hseparator : ∀ next, separator = some next → next.NeverGoesBack) {t : Tally sink.Acc}
    (ht : t.pos ≤ c.items.size) {fuel : Nat} (hfuel : c.items.size - t.pos < fuel) :
    (Step.gather element separator sink fuel c t).AddsAtMost counter
      ((c.items.size - t.pos + 1) * rate .element + (c.items.size - t.pos) * rate .separator +
        (c.items.size - t.pos) * rate .sink) := by
  intro s
  have hstands : (Turn.element t : Turn σ sink.Acc).Stands separator c.items.size := ht
  obtain ⟨n, hn⟩ := gather_eq_run helement hseparator ht hfuel s
  have hcount (part : Part) :=
    Nat.mul_le_mul_right (rate part) (count_applied_le helement hseparator hstands n s part)
  have htotal : Part.total rate (applied element separator sink c n (.element t) s) ≤
      (c.items.size - t.pos + 1) * rate .element + (c.items.size - t.pos) * rate .separator +
        (c.items.size - t.pos) * rate .sink := by
    rw [Part.total_eq]
    exact Nat.add_le_add (Nat.add_le_add (hcount .element) (hcount .separator)) (hcount .sink)
  have hadds := h.run helement hseparator hstands n s
  -- the loop ends in the user state in which the turns end
  rcases hn with ⟨g, u, hrun, hgather⟩ | ⟨f, u, hrun, hgather⟩
  · rw [hrun] at hadds
    rw [hgather]
    exact Nat.le_trans hadds (Nat.add_le_add_left htotal _)
  · rw [hrun] at hadds
    rw [hgather]
    exact Nat.le_trans hadds (Nat.add_le_add_left htotal _)

end Turn

/-! ### Repetitions -/

/-- Finishing a collection calls no parser, so it adds nothing. -/
theorem Sink.finish_addsAtMost {σ : Type} {counter : σ → Nat} (sink : Sink σ) (acc : sink.Acc) :
    (sink.finish acc).AddsAtMost counter 0 := by
  cases sink with
  | sortedDict =>
    exact (Action.addsAtMost_ofExcept _).bind (n := 0) fun _ => Action.addsAtMost_pure _
  | foldState f read => exact fun s => Nat.le_refl (counter s)
  | own yieldsStretch start push finish =>
    exact fun s => Action.addsAtMost_ofExcept (finish acc s) s
  | _ => exact Action.addsAtMost_pure _

namespace Step

variable {σ : Type} [Memory σ] {element : Step σ} {separator : Option (Step σ)}
  {sink : Sink σ} {c : Context}

/-- The outcome of a repetition whose loop is over. -/
def conclude (sink : Sink σ) (c : Context) (allowTrailing : Bool) (atLeast : Nat) :
    Gathered sink.Acc → Action σ (Outcome Value)
  | .broken q => return .failure q
  | .stopped t =>
    if t.dangling && !allowTrailing then return .failure t.pos
    else if t.count < atLeast then return .failure t.pos
    else if sink.yieldsStretch then do return .success (← c.sliceTo t.pos) t.pos
    else do return .success (← sink.finish t.acc) t.pos

omit [Memory σ] in
/-- What a repetition does when its loop is over leaves the user state as it is. -/
theorem conclude_addsAtMost {counter : σ → Nat} (allowTrailing : Bool) (atLeast : Nat)
    (g : Gathered sink.Acc) :
    (conclude sink c allowTrailing atLeast g).AddsAtMost counter 0 := by
  cases g with
  | broken q => exact Action.addsAtMost_pure _
  | stopped t =>
    simp only [conclude]
    split_ifs
    · exact Action.addsAtMost_pure _
    · exact Action.addsAtMost_pure _
    · exact (Action.addsAtMost_ofExcept (c.sliceTo t.pos)).bind (n := 0) fun _ =>
        Action.addsAtMost_pure _
    · exact (sink.finish_addsAtMost t.acc).bind (n := 0) fun _ => Action.addsAtMost_pure _

/-- A repetition starts its sink, gathers, and concludes. -/
theorem many_eq_conclude (allowTrailing : Bool) (atLeast : Nat) :
    many element separator allowTrailing sink atLeast c = sink.start >>= fun acc =>
      gather element separator sink c.mostRounds c ⟨c.pos, 0, false, acc⟩ >>=
        conclude sink c allowTrailing atLeast := rfl

end Step

namespace Parser

variable {σ : Type} [Memory σ] {setting : Setting σ} {p : Parser σ} {sink : Sink σ}
  {separator : Option (Separator σ)} {atLeast : Nat} {c : Context}

/-- **Repetitions are linear.** Let the element and the separator never go back, whether or not they
    consume anything.  Then a repetition goes turn by turn until its loop is over, and is then
    concluded, or ends in the fault of a turn.  In any number of turns the element is applied at
    most once more than there are items left, and the separator and the sink at most as often as
    there are items left; and a counter in the user state to which each of them adds something has
    had so much added at most. -/
theorem run_repeated_applied (hp : (p.run setting).NeverGoesBack)
    (hseparator : ∀ r, separator = some r → (r.parser.run setting).NeverGoesBack)
    (hc : c.pos ≤ c.items.size) (s : σ) :
    let next := separator.map (·.parser.run setting)
    match sink.start s with
    | .error f t => (repeated p sink separator atLeast).run setting c s = .error f t
    | .ok acc t =>
      let first : Turn σ sink.Acc := .element ⟨c.pos, 0, false, acc⟩
      (∃ n, (∃ g u, Turn.run (p.run setting) next sink c n first t = .ok (.ended g) u ∧
          (repeated p sink separator atLeast).run setting c s =
            Step.conclude sink c (separator.all (·.allowTrailing)) atLeast g u) ∨
        ∃ f u, Turn.run (p.run setting) next sink c n first t = .error f u ∧
          (repeated p sink separator atLeast).run setting c s = .error f u) ∧
      (∀ n, let parts := Turn.applied (p.run setting) next sink c n first t
        parts.count .element ≤ c.remaining + 1 ∧ parts.count .separator ≤ c.remaining ∧
          parts.count .sink ≤ c.remaining) ∧
      ∀ counter rate, Turn.Adds (p.run setting) next sink counter rate →
        match (repeated p sink separator atLeast).run setting c s with
        | .ok _ u | .error _ u => counter u ≤ counter t +
            ((c.remaining + 1) * rate .element + c.remaining * rate .separator + c.remaining *
              rate .sink) := by
  intro next
  have hnext : ∀ r, next = some r → r.NeverGoesBack := forall_separator hseparator
  rw [run_repeated_eq, Step.many_eq_conclude]
  cases hstart : sink.start s with
  | error f t => exact Action.bind_of_error hstart
  | ok acc t =>
    let start : Tally sink.Acc := ⟨c.pos, 0, false, acc⟩
    have hstands : (.element start : Turn σ sink.Acc).Stands next c.items.size := hc
    have hcount := Turn.count_applied_le hp hnext hstands
    have hrounds := c.lt_mostRounds c.pos
    -- the loop has more rounds than it can have elements
    obtain ⟨n, h⟩ := Turn.gather_eq_run hp hnext (t := start) hc hrounds t
    rw [Action.bind_of_ok hstart]
    refine ⟨⟨n, h.imp ?_ ?_⟩, fun n => ?_, fun counter rate hadds => ?_⟩
    · rintro ⟨g, u, hrun, hgather⟩
      exact ⟨g, u, hrun, Action.bind_of_ok hgather⟩
    · rintro ⟨f, u, hrun, hgather⟩
      exact ⟨f, u, hrun, Action.bind_of_error hgather⟩
    · exact ⟨hcount n t .element, hcount n t .separator, hcount n t .sink⟩
    · have hloop := (hadds.gather hp hnext (t := start) hc hrounds).bind
        (Step.conclude_addsAtMost (c := c) (separator.all (·.allowTrailing)) atLeast) t
      generalize (Step.gather _ _ _ _ _ _ >>= Step.conclude _ _ _ _) t = r at hloop ⊢
      cases r <;> exact hloop

/-- Letters that need not be there, between commas that need not be there.  On two letters, each
    part is applied as often as it can be. -/
theorem run_repeated_applied_letters :
    let p : Parser Unit := .optional (.char 'a')
    let r : Separator Unit := { parser := .optional (.char ','), allowTrailing := true }
    let c := start (.sequence (.text #['a', 'a'])) { levels := 50 }
    let parts (n : Nat) := Turn.applied (p.run brackets) (some (r.parser.run brackets)) .list c n
      (.element ⟨0, 0, false, (#[] : Array Value)⟩) ()
    parts 8 = [.element, .sink, .separator, .element, .sink, .separator, .element] ∧
      ∀ n, (parts n).count .element ≤ 3 ∧ (parts n).count .separator ≤ 2 ∧
        (parts n).count .sink ≤ 2 := by
  intro p r c parts
  have hoptional (x : Char) : ((Parser.optional (.char x)).run brackets).NeverGoesBack := by
    apply run_neverGoesBack brackets_movesForward
    refine .node trivial ?_
    rintro _ ⟨⟩
    exact .node trivial nofun
  have hseparator : ∀ q, some r = some q → (q.parser.run brackets).NeverGoesBack := by
    rintro q ⟨⟩
    exact hoptional ','
  refine ⟨by with_unfolding_all rfl, ?_⟩
  exact (@run_repeated_applied Unit _ brackets p .list (some r) 0 c (hoptional 'a') hseparator
    (Nat.zero_le 2) ()).2.1

end Parser

end Itemwise
