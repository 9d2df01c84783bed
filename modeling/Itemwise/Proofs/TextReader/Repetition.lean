import Itemwise.Proofs.TextReader.Steps
import Itemwise.Step.Repeat

namespace Itemwise

/-!
# Repetitions on a text

A repetition is a loop over the tally of what it has collected.  On a text that loop comes to what
the reader over the same elements and separators comes to, whatever was collected before.

* `Step.Collects` — the sinks that take every value and always have room;
* `Step.Separates` — what may stand between the elements;
* `Step.Closes` — what the repetition makes of its elements when they end;
* `Step.gather_settle` — the loop, from any tally on, by induction on the rounds that are left;
* `Step.Reads.many`, `many_discard_atLeast`, `many_discard` — the repetition, for what the sink
  makes of the values and for the stretch alone.
-/

namespace Step

variable {σ α δ : Type} {T : TextRun} {p : Step σ} {enc : α → Value} {one : TextReader α}
  {sep : TextReader δ} {sink : Sink σ} {state : List α → sink.Acc} {trailing : Bool}

/-- A sink collects the values of a repetition one by one, and always has room for more. -/
structure Collects [Memory σ] (sink : Sink σ) (enc : α → Value)
    (state : List α → sink.Acc) : Prop where
  start : sink.start = pure (state [])
  push : ∀ as a, sink.push (state as) (enc a) = pure (state (as ++ [a]), true)

/-- What stands between the elements: a step, or nothing, which may as well come last. -/
inductive Separates (T : TextRun) (trailing : Bool) : Option (Step σ) → TextReader δ → Prop
  | nothing (d : δ) : trailing = true → Separates T trailing none fun cs => .read d cs
  | step {s : Step σ} {enc : δ → Value} {sep : TextReader δ} : Reads T s enc sep →
      Separates T trailing (some s) sep

/-- What stands between the elements leaves an end of the text. -/
theorem Separates.forward {s : Option (Step σ)} (h : Separates T trailing s sep) :
    sep.IsForward := by
  cases h with
  | nothing d _ => exact fun _ => List.suffix_rfl
  | step h => exact h.forward

/-- What a repetition of at least so many elements comes to after its last round. -/
def settle (sink : Sink σ) (trailing : Bool) (least : Nat) (c : Context) :
    Gathered sink.Acc → Action σ (Outcome Value)
  | .broken q => return .failure q
  | .stopped t =>
    if t.dangling && !trailing then return .failure t.pos
    else if t.count < least then return .failure t.pos
    else if sink.yieldsStretch then return .success (← c.sliceTo t.pos) t.pos
    else return .success (← sink.finish t.acc) t.pos

/-- What a repetition comes to with its elements, if no separator comes last that may not. -/
def Closes (T : TextRun) (sink : Sink σ) (trailing : Bool) (least : Nat) (state : List α → sink.Acc)
    (start : List Char) (close : List α → TextReader Value) : Prop :=
  ∀ as rest, rest <:+ start →
    settle sink trailing least (T.context start)
      (.stopped ⟨T.pos rest, as.length, false, state as⟩) = (close as rest).toAction T

/-- Whether a separator was last makes no difference but to what may not follow one. -/
theorem settle_stopped {least : Nat} {start cs : List Char}
    {dangling dangling' : Bool} {as : List α} {close : List α → TextReader Value}
    (hclose : Closes T sink trailing least state start close) (hcs : cs <:+ start)
    (hd : (dangling && !trailing) = (dangling' && !trailing)) :
    settle sink trailing least (T.context start)
      (.stopped ⟨T.pos cs, as.length, dangling, state as⟩) =
        ((TextReader.ended trailing dangling' cs).bind fun bs => close (as ++ bs)).toAction T := by
  have hend := hclose as cs hcs
  simp only [settle, Bool.false_and, Bool.false_eq_true, if_false] at hend
  unfold settle TextReader.ended
  simp only [hd]
  by_cases hfails : (dangling' && !trailing) = true
  · simp [hfails, TextOutcome.toAction]
  · simp only [hfails, hend, Bool.false_eq_true, if_false, TextOutcome.bind_read, List.append_nil]

/-- A repetition goes on as the reader does, whatever it has collected before. -/
theorem gather_settle [Memory σ] {s : Option (Step σ)} (h : Reads T p enc one)
    (hs : Separates T trailing s sep) (hcollects : Collects sink enc state) {least : Nat}
    {start : List Char} {close : List α → TextReader Value}
    (hclose : Closes T sink trailing least state start close) (hstart : start <:+ T.text)
    {cs : List Char} (hcs : cs <:+ start) {fuel : Nat} (hfuel : cs.length < fuel)
    {dangling dangling' : Bool} (hd : (dangling && !trailing) = (dangling' && !trailing))
    (as : List α) :
    (Step.gather p s sink fuel (T.context start) ⟨T.pos cs, as.length, dangling, state as⟩ >>=
        settle sink trailing least (T.context start)) =
      ((TextReader.separated one sep trailing dangling' cs).bind
        fun bs => close (as ++ bs)).toAction T := by
  -- by induction on the rounds that are left: every round but the last one leaves less of the text,
  -- so they suffice
  induction fuel generalizing cs dangling dangling' as with
  | zero => omega
  | succ fuel ih =>
    have htext := hcs.trans hstart
    rw [Step.gather, TextReader.separated, TextRun.context_moveTo, h.run cs htext]
    cases hone : one cs with
    | fault f => rfl
    | stuck rest =>
      have hrest := h.forward.suffix_of_stuck hone
      simp only [TextOutcome.map_stuck, TextOutcome.toAction, pure_bind, isAt_pos htext hrest]
      by_cases hsame : rest = cs
      · simp only [hsame, decide_true, if_true, pure_bind]
        exact settle_stopped hclose hcs hd
      · simp [hsame, settle]
    | read a rest =>
      have hsuf := h.forward.suffix_of_read hone
      have hrest := hsuf.trans htext
      have hle := hsuf.length_le
      simp only [TextOutcome.map_read, TextOutcome.toAction, pure_bind, TextRun.pos_inj hrest htext]
      -- an element that takes nothing is not counted, and the repetition stops
      by_cases hsame : rest = cs
      · simp only [hsame, if_true, pure_bind]
        exact settle_stopped hclose hcs hd
      have hshorter : rest.length < cs.length :=
        Nat.lt_of_le_of_ne hle fun heq => hsame (hsuf.eq_of_length heq)
      have hcount : as.length + 1 = (as ++ [a]).length := by simp
      simp only [hsame, if_false, hcollects.push, pure_bind, if_true, hcount]
      cases hs with
      | nothing d htrailing =>
        -- the reader has read a separator of no characters, which may come last
        have hdangling : (false && !trailing) = (true && !trailing) := by simp [htrailing]
        have hnext := ih (hsuf.trans hcs) (by omega) hdangling (as ++ [a])
        simp only [hshorter, if_true]
        rw [hnext]
        cases TextReader.separated one (fun cs => TextOutcome.read d cs) trailing true rest <;>
          simp [TextOutcome.toAction]
      | @step s enc' sep hs =>
        simp only [TextRun.context_moveTo, hs.run rest hrest]
        cases hsep : sep rest with
        | fault f => rfl
        | stuck rest' =>
          have hsuf' := hs.forward.suffix_of_stuck hsep
          simp only [TextOutcome.map_stuck, TextOutcome.toAction, pure_bind, isAt_pos hrest hsuf']
          by_cases hsame' : rest' = rest
          · simp only [hsame', decide_true, if_true, pure_bind]
            have hended : (false && !trailing) = (false && !trailing) := rfl
            rw [settle_stopped hclose (hsuf.trans hcs) hended]
            simp only [TextReader.ended, Bool.false_and, Bool.false_eq_true, if_false,
              TextOutcome.bind_read, List.append_nil]
            rfl
          · simp [hsame', settle]
        | read b rest' =>
          have hsuf' := hs.forward.suffix_of_read hsep
          have hlt : rest'.length < cs.length := by
            have := hsuf'.length_le
            omega
          have hdangling : (true && !trailing) = (true && !trailing) := rfl
          have hnext := ih (hsuf'.trans (hsuf.trans hcs)) (by omega) hdangling (as ++ [a])
          simp only [TextOutcome.map_read, TextOutcome.toAction, pure_bind, hlt, if_true]
          rw [hnext]
          cases TextReader.separated one sep trailing true rest' <;> simp [TextOutcome.toAction]

/-- There are rounds enough for every character and one more. -/
theorem length_lt_mostRounds {cs : List Char} (hcs : cs <:+ T.text) :
    cs.length < (T.context cs).mostRounds := by
  have hmost := (T.context cs).lt_mostRounds 0
  rw [Nat.sub_zero, TextRun.context_size] at hmost
  exact Nat.lt_of_le_of_lt hcs.length_le hmost

/-- A repetition gathers, and settles what it has gathered. -/
theorem many_eq [Memory σ] (s : Option (Step σ)) (least : Nat) (c : Context) :
    Step.many p s trailing sink least c = sink.start >>= fun acc =>
      Step.gather p s sink c.mostRounds c ⟨c.pos, 0, false, acc⟩ >>=
        settle sink trailing least c := rfl

/-- A repetition from its start. -/
theorem many_settle [Memory σ] {s : Option (Step σ)} (h : Reads T p enc one)
    (hs : Separates T trailing s sep) (hcollects : Collects sink enc state) {least : Nat}
    {cs : List Char} {close : List α → TextReader Value}
    (hclose : Closes T sink trailing least state cs close) (hcs : cs <:+ T.text) :
    Step.many p s trailing sink least (T.context cs) =
      ((TextReader.separated one sep trailing false cs).bind close).toAction T := by
  rw [many_eq, hcollects.start, pure_bind]
  exact gather_settle h hs hcollects hclose hcs List.suffix_rfl (length_lt_mostRounds hcs) rfl []

/-- A repetition into a sink comes to what the sink makes of the values that the reader gives. -/
theorem Reads.many [Memory σ] {s : Option (Step σ)} (h : Reads T p enc one)
    (hs : Separates T trailing s sep) (hcollects : Collects sink enc state)
    (hyields : sink.yieldsStretch = false) {encs : List α → Value}
    (hfinish : ∀ as, sink.finish (state as) = pure (encs as)) :
    Reads T (Step.many p s trailing sink 0) encs (TextReader.separated one sep trailing false) where
  forward := h.forward.separated hs.forward trailing false
  run := by
    intro cs hcs
    have hclose : Closes T sink trailing 0 state cs fun as rest => .read (encs as) rest := by
      intro as rest _
      simp [settle, hyields, hfinish, TextOutcome.toAction]
    rw [many_settle h hs hcollects hclose hcs]
    cases TextReader.separated one sep trailing false cs <;> rfl

/-- A repetition of at least so many elements whose values are dropped comes to the stretch that it
    took. -/
theorem Reads.many_discard_atLeast [Memory σ] {s : Option (Step σ)} (h : Reads T p enc one)
    (hs : Separates T trailing s sep) (least : Nat) :
    Reads T (Step.many p s trailing .discard least) (fun x => .text x.1)
      (TextReader.stretch ((TextReader.separated one sep trailing false).atLeast least)) where
  forward := ((h.forward.separated hs.forward trailing false).atLeast least).stretch
  run := by
    intro cs hcs
    obtain ⟨state, hcollects⟩ : ∃ state : List α → (Sink.discard : Sink σ).Acc,
      Collects .discard enc state :=
      ⟨fun _ => (), rfl, fun _ _ => rfl⟩
    have hclose : Closes T .discard trailing least state cs fun as rest =>
        if as.length < least then .stuck rest
        else .read (.text (cs.take (cs.length - rest.length))) rest := by
      intro as rest hrest
      have hslice := TextRun.context_sliceTo hcs hrest
      by_cases hfew : as.length < least
      · simp [settle, hfew, TextOutcome.toAction]
      · simp [settle, hfew, Sink.yieldsStretch, hslice, TextOutcome.toAction]
    rw [many_settle h hs hcollects hclose hcs]
    unfold TextReader.stretch TextReader.atLeast
    cases TextReader.separated one sep trailing false cs with
    | read as rest => by_cases hfew : as.length < least <;> simp [hfew]
    | stuck rest => rfl
    | fault f => rfl

/-- A repetition that discards its values reads the characters of all of it. -/
theorem Reads.many_discard [Memory σ] {s : Option (Step σ)} (h : Reads T p enc one)
    (hs : Separates T trailing s sep) :
    Reads T (Step.many p s trailing .discard 0) (fun x => .text x.1)
      (TextReader.stretch (TextReader.separated one sep trailing false)) := by
  have hmany := h.many_discard_atLeast hs 0
  rwa [TextReader.atLeast_zero] at hmany

end Step

end Itemwise
