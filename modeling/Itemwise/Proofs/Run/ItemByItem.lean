import Itemwise.Proofs.Run.Applications
import Itemwise.Proofs.Scan.Accepted
import Itemwise.Session

namespace Itemwise

/-!
# Stretches item by item

The stretch that a test accepts can be taken in one search or item by item, in a repetition of
single items.  The repetition counts as many elements as it has consumed items, so asking for one of
them at least is asking for a stretch that is not empty.

* `Leaf.stretchWhile` — the stretch that a test accepts, if it holds some number of items;
* `Tally.itemwise` — a repetition of single items that has come to a position;
* `Step.gather_satisfy_of_none`, `Step.gather_satisfy_of_some` — one round of such a repetition, by
  what stands there;
* `Step.gather_satisfy` — its loop comes to where the search does;
* `Step.many_satisfy`, `Step.seeing_itemWhile`, `Step.notEmpty_itemWhile` — what the repetition and
  the search take;
* `Parser.run_itemWhile` — both take the same.
-/

namespace Items

/-- A stretch of items is a value of its own and no object of the user state. -/
theorem slice_ne_shared (items : Items) (start stop place : Nat) :
    items.slice start stop ≠ .shared place := by
  cases items <;> nofun

end Items

variable {σ : Type} [Memory σ] {test : Value → Except Fault Bool} {items : Items} {c : Context}

namespace Leaf

variable {look : Value → Value} {stop : Nat}

/-- The stretch that a test accepts, if it holds at least so many items. -/
def stretchWhile (test : Value → Except Fault Bool) (atLeast : Nat) (look : Value → Value) : Leaf :=
  fun c => do
  let stop ← scanWhile c.items (fun v => test (look v)) c.remaining c.pos
  if stop - c.pos < atLeast then return .failure stop else return .success (← c.sliceTo stop) stop

/-- A stretch of items that pass a test, where the test comes to an answer for each. -/
theorem stretchWhile_of_ok (hitems : c.items = .sequence items) (atLeast : Nat)
    (h : scanWhile (.sequence items) (fun v => test (look v)) (items.size - c.pos)
      c.pos = .ok stop) :
    stretchWhile test atLeast look c =
      .ok (if stop - c.pos < atLeast then .failure stop
        else .success (items.slice c.pos stop) stop) := by
  unfold stretchWhile Context.remaining Context.sliceTo
  rw [hitems, Input.size_sequence, h]
  by_cases hfew : stop - c.pos < atLeast
  · exact (if_pos hfew).trans (congrArg Except.ok (if_pos hfew).symm)
  · exact (if_neg hfew).trans (congrArg Except.ok (if_neg hfew).symm)

/-- The same where the test ends in a fault. -/
theorem stretchWhile_of_error (hitems : c.items = .sequence items) (atLeast : Nat) {f : Fault}
    (h : scanWhile (.sequence items) (fun v => test (look v)) (items.size - c.pos)
      c.pos = .error f) :
    stretchWhile test atLeast look c = .error f := by
  unfold stretchWhile Context.remaining
  rw [hitems, Input.size_sequence, h]
  rfl

/-- The search neither goes back nor beyond the end. -/
theorem scanWhile_within (hc : c.pos ≤ items.size)
    (h : scanWhile (.sequence items) (fun v => test (look v)) (items.size - c.pos)
      c.pos = .ok stop) :
    c.pos ≤ stop ∧ stop ≤ items.size := by
  have htest (v : Value) : Raises (fun _ => True) (test (look v)) :=
    raises_iff.mpr fun _ _ => trivial
  have hyields := yields_scanWhile (fun _ _ => trivial) htest (.sequence items)
    (items.size - c.pos) c.pos
  rw [h] at hyields
  obtain ⟨hlow, hhigh⟩ := hyields
  exact ⟨hlow, by omega⟩

/-- One search takes the stretch of any number of items. -/
theorem itemWhile_eq_stretchWhile (hitems : c.items = .sequence items) (hc : c.pos ≤ items.size) :
    itemWhile test look c = stretchWhile test 0 look c := by
  cases h : scanWhile (.sequence items) (fun v => test (look v)) (items.size - c.pos) c.pos with
  | error f =>
    rw [stretchWhile_of_error hitems 0 h]
    unfold itemWhile Context.remaining
    rw [hitems, Input.size_sequence, h]
    rfl
  | ok stop =>
    have hstop : stop ≤ c.items.size := by
      rw [hitems]
      exact (scanWhile_within hc h).2
    rw [stretchWhile_of_ok hitems 0 h, if_neg (Nat.not_lt_zero _), ← accept_of_le _ hstop]
    unfold itemWhile Context.remaining Context.sliceTo
    rw [hitems, Input.size_sequence, h]
    rfl

end Leaf

/-- A repetition of single items that has come from `start` to `pos`, where the values are
    dropped. -/
def Tally.itemwise (start pos : Nat) : Tally (Sink.discard : Sink σ).Acc :=
  ⟨pos, pos - start, false, ()⟩

namespace Step

variable {fuel start pos : Nat} {s : σ}

/-- At the end of the input the rounds end. -/
theorem gather_satisfy_of_none (hitems : c.items = .sequence items) (h : items.get? pos = none) :
    gather (seeing (Leaf.satisfy test)) none .discard (fuel + 1) c (.itemwise start pos) s =
      .ok (.stopped (.itemwise start pos)) s := by
  have hend : (c.moveTo pos).items.size ≤ pos := by
    rw [Context.items_moveTo, hitems]
    exact (Items.get?_eq_none_iff items pos).mp h
  have hround : seeing (Leaf.satisfy test) (c.moveTo pos) s = .ok (.failure pos) s :=
    seeing_of_ok (Leaf.satisfy_of_size_le hend)
  have hhere : (Place.position pos).isAt pos = true := by simp
  exact (Action.bind_of_ok hround).trans (congrFun (if_pos hhere) s)

/-- A round consumes an item that the test accepts, and else it is the last. -/
theorem gather_satisfy_of_some {v : Value} (hitems : c.items = .sequence items)
    (hstart : start ≤ pos) (hv : items.get? pos = some v) :
    gather (seeing (Leaf.satisfy test)) none .discard (fuel + 1) c (.itemwise start pos) s =
      (Action.ofExcept (test (Memory.whole s v)) >>= fun b =>
        if b then gather (seeing (Leaf.satisfy test)) none .discard fuel c
          (.itemwise start (pos + 1))
        else pure (.stopped (.itemwise start pos))) s := by
  have hleaf : Leaf.satisfy test (Memory.whole s) (c.moveTo pos) =
      (test (Memory.whole s v)).map fun b => if b then .success v (pos + 1) else .failure pos :=
    Leaf.satisfy_of_get? (c := c.moveTo pos) hitems hv
  cases htest : test (Memory.whole s v) with
  | error f =>
    rw [htest] at hleaf
    exact Action.bind_of_error (seeing_of_error hleaf)
  | ok b =>
    rw [htest] at hleaf
    have hround := seeing_of_ok hleaf
    cases b with
    | false =>
      have hhere : (Place.position pos).isAt pos = true := by simp
      exact (Action.bind_of_ok hround).trans (congrFun (if_pos hhere) s)
    | true =>
      have hfurther : ¬ pos + 1 = pos := by omega
      have hcount : pos - start + 1 = pos + 1 - start := by omega
      refine ((Action.bind_of_ok hround).trans (congrFun (if_neg hfurther) s)).trans ?_
      show gather (seeing (Leaf.satisfy test)) none .discard fuel c
          ⟨pos + 1, pos - start + 1, false, ()⟩ s = _
      rw [hcount]
      rfl

/-- The rounds come to where the search does, or to its fault. -/
theorem gather_satisfy (hitems : c.items = .sequence items) (hstart : start ≤ pos)
    (hpos : pos ≤ items.size) (hfuel : items.size - pos < fuel) :
    gather (seeing (Leaf.satisfy test)) none .discard fuel c (.itemwise start pos) s =
      (Action.ofExcept (Leaf.scanWhile (.sequence items) (fun v => test (Memory.whole s v))
        (items.size - pos) pos) >>= fun stop =>
        pure (.stopped (.itemwise start stop))) s := by
  -- On the rounds: each of them puts the test to the item to which the search puts it.
  induction fuel generalizing pos with
  | zero => omega
  | succ fuel ih =>
    cases hv : items.get? pos with
    | none =>
      rw [gather_satisfy_of_none hitems hv, Leaf.scanWhile_of_none hv]
      rfl
    | some v =>
      have hlt := Items.lt_of_get? hv
      rw [gather_satisfy_of_some hitems hstart hv, Leaf.scanWhile_of_some hv]
      cases test (Memory.whole s v) with
      | error f => rfl
      | ok b =>
        cases b with
        | false => rfl
        | true => exact ih (by omega) (by omega) (by omega)

omit [Memory σ] in
/-- When the loop is over, the stretch is reported if enough items are counted. -/
theorem conclude_itemwise (hitems : c.items = .sequence items) (atLeast stop : Nat) :
    (conclude .discard c true atLeast (.stopped (.itemwise c.pos stop)) : Action σ
      (Outcome Value)) =
      pure (if stop - c.pos < atLeast then .failure stop
        else .success (items.slice c.pos stop) stop) := by
  have hslice : c.sliceTo stop = .ok (items.slice c.pos stop) := by
    rw [Context.sliceTo, hitems]
    rfl
  by_cases hfew : stop - c.pos < atLeast
  · simp only [conclude, Tally.itemwise, Bool.false_and, Bool.false_eq_true, if_false, if_pos hfew]
    exact if_pos hfew
  · simp only [conclude, Tally.itemwise, Bool.false_and, Bool.false_eq_true, if_false,
      if_neg hfew, hslice]
    rfl

/-- One search takes the stretch of any number of items. -/
theorem seeing_itemWhile (hitems : c.items = .sequence items) (hc : c.pos ≤ items.size) (s : σ) :
    seeing (Leaf.itemWhile test) c s = seeing (Leaf.stretchWhile test 0) c s := by
  show (Action.ofExcept (Leaf.itemWhile test (Memory.whole s) c) : Action σ (Outcome Value)) s = _
  rw [Leaf.itemWhile_eq_stretchWhile hitems hc]
  rfl

/-- A repetition of single items takes the stretch that their test accepts, if it holds as many
    items as the repetition needs. -/
theorem many_satisfy (hitems : c.items = .sequence items) (hc : c.pos ≤ items.size)
    (atLeast : Nat) (s : σ) :
    many (seeing (Leaf.satisfy test)) none true .discard atLeast c s =
      seeing (Leaf.stretchWhile test atLeast) c s := by
  have hrounds : items.size - c.pos < c.mostRounds := by
    have := c.lt_mostRounds c.pos
    rwa [hitems] at this
  have hloop : gather (seeing (Leaf.satisfy test)) none .discard c.mostRounds c
      (.itemwise c.pos c.pos) s = _ :=
    gather_satisfy hitems (Nat.le_refl c.pos) hc hrounds
  have hstart : (Sink.discard : Sink σ).start s = .ok () s := rfl
  have hfirst : (⟨c.pos, 0, false, ()⟩ : Tally (Sink.discard : Sink σ).Acc) =
      .itemwise c.pos c.pos := by
    rw [Tally.itemwise, Nat.sub_self]
  rw [many_eq_conclude, Action.bind_of_ok hstart, hfirst]
  cases h : Leaf.scanWhile (.sequence items) (fun v => test (Memory.whole s v))
    (items.size - c.pos) c.pos with
  | error f =>
    rw [h] at hloop
    rw [Action.bind_of_error hloop, seeing_of_error (Leaf.stretchWhile_of_error hitems atLeast h)]
  | ok stop =>
    rw [h] at hloop
    rw [Action.bind_of_ok hloop, seeing_of_ok (Leaf.stretchWhile_of_ok hitems atLeast h),
      conclude_itemwise hitems]
    rfl

/-- A value is kept if it has a length that is not zero, and else its step fails where it
    started. -/
theorem notEmpty_of_success {p : Step σ} {v : Value} {q n : Nat} {t : σ}
    (h : p c s = .ok (.success v q) t) (hlength : (Memory.surface t v).length = .ok n) :
    notEmpty p c s = .ok (if n = 0 then .failure c.pos else .success v q) t := by
  have hlook : (Action.lookAt v : Action σ Value) t = .ok (Memory.surface t v) t := rfl
  have hcount : (Action.ofExcept (Memory.surface t v).length : Action σ Nat) t = .ok n t := by
    rw [hlength]
    rfl
  refine (Action.bind_of_ok h).trans
    ((Action.bind_of_ok hlook).trans ((Action.bind_of_ok hcount).trans ?_))
  split <;> rfl

/-- A stretch that must not be empty holds at least one item. -/
theorem notEmpty_itemWhile [Memory.ShowsOwn σ] (hitems : c.items = .sequence items)
    (hc : c.pos ≤ items.size) (s : σ) :
    notEmpty (seeing (Leaf.itemWhile test)) c s = seeing (Leaf.stretchWhile test 1) c s := by
  have hwhile : seeing (Leaf.itemWhile test) c s = _ := seeing_itemWhile hitems hc s
  cases h : Leaf.scanWhile (.sequence items) (fun v => test (Memory.whole s v))
    (items.size - c.pos) c.pos with
  | error f =>
    rw [seeing_of_error (Leaf.stretchWhile_of_error hitems 0 h)] at hwhile
    rw [seeing_of_error (Leaf.stretchWhile_of_error hitems 1 h)]
    exact Action.bind_of_error hwhile
  | ok stop =>
    rw [seeing_of_ok (Leaf.stretchWhile_of_ok hitems 0 h), if_neg (Nat.not_lt_zero _)] at hwhile
    rw [seeing_of_ok (Leaf.stretchWhile_of_ok hitems 1 h)]
    obtain ⟨hlow, hhigh⟩ := Leaf.scanWhile_within hc h
    -- The stretch is empty just in case the search ends where it started.
    have hlength : (Memory.surface s (items.slice c.pos stop)).length = .ok (stop - c.pos) := by
      rw [Memory.ShowsOwn.surface_of_own s _ (items.slice_ne_shared c.pos stop), Value.length,
        Items.length?_slice, Nat.min_eq_left hhigh]
      rfl
    rw [notEmpty_of_success hwhile hlength]
    by_cases hstop : stop = c.pos
    · rw [hstop, Nat.sub_self, if_pos rfl, if_pos Nat.one_pos]
    · rw [if_neg (by omega), if_neg (by omega)]

end Step

namespace Parser

variable {setting : Setting σ} {p : Predicate}

/-- A run of a test on one item looks at the input and does nothing else. -/
theorem run_satisfy : (satisfy p).run setting = Step.seeing (Leaf.satisfy p.holds) :=
  run_eq setting _

/-- A run of a test on item after item does so too. -/
theorem run_itemWhile_eq : (itemWhile p).run setting = Step.seeing (Leaf.itemWhile p.holds) :=
  run_eq setting _

/-- A run of a parser of something that must not be empty, as a step. -/
theorem run_notEmpty (q : Parser σ) : (notEmpty q).run setting = Step.notEmpty (q.run setting) := by
  rw [run_eq setting (notEmpty q), run_eq setting q]
  rfl

/-- **One search takes what a repetition of single items takes.** From every start within a
    sequence, the search for the end of what a test accepts and the repetition of single items that
    it accepts come to the same outcome or fault; and so do the search that must not come to nothing
    and the repetition of at least one item.  If the test decides every item ahead, the stretch that
    it accepts ends at the first item that it does not accept or at the end of the input.  Wherever
    it ends, both succeed there with its items, unless there have to be some and there are none,
    which is a failure at the start. -/
theorem run_itemWhile [Memory.ShowsOwn σ] (hitems : c.items = .sequence items)
    (hc : c.pos ≤ items.size) (s : σ) :
    (itemWhile p).run setting c s = (repeated (satisfy p) .discard none 0).run setting c s ∧
      (notEmpty (itemWhile p)).run setting c s =
        (repeated (satisfy p) .discard none 1).run setting c s ∧
      ((∀ i v, c.pos ≤ i → items.get? i = some v → ∃ b, p.holds (Memory.whole s v) = .ok b) →
        ∃ stop, items.AcceptedUntil (fun v => p.holds (Memory.whole s v)) c.pos stop) ∧
      ∀ stop, items.AcceptedUntil (fun v => p.holds (Memory.whole s v)) c.pos stop →
        (itemWhile p).run setting c s = .ok (.success (items.slice c.pos stop) stop) s ∧
          (notEmpty (itemWhile p)).run setting c s =
            .ok (if c.pos < stop then .success (items.slice c.pos stop) stop
              else .failure c.pos) s := by
  have hwhile : (itemWhile p).run setting c s = Step.seeing (Leaf.stretchWhile p.holds 0) c s := by
    rw [run_itemWhile_eq, Step.seeing_itemWhile hitems hc]
  have hnonempty : (notEmpty (itemWhile p)).run setting c s =
      Step.seeing (Leaf.stretchWhile p.holds 1) c s := by
    rw [run_notEmpty, run_itemWhile_eq, Step.notEmpty_itemWhile hitems hc]
  have hmany (n : Nat) :
      (repeated (satisfy p) .discard none n).run setting c s =
        Step.seeing (Leaf.stretchWhile p.holds n) c s := by
    rw [run_repeated_eq, run_satisfy]
    exact Step.many_satisfy hitems hc n s
  refine ⟨hwhile.trans (hmany 0).symm, hnonempty.trans (hmany 1).symm,
    Items.exists_acceptedUntil hc, fun stop hstop => ?_⟩
  have hscan := Leaf.scanWhile_eq_ok hstop
  refine ⟨?_, ?_⟩
  · rw [hwhile, Step.seeing_of_ok (Leaf.stretchWhile_of_ok hitems 0 hscan),
      if_neg (Nat.not_lt_zero _)]
  · rw [hnonempty, Step.seeing_of_ok (Leaf.stretchWhile_of_ok hitems 1 hscan)]
    rcases Nat.eq_or_lt_of_le hstop.start_le with hsame | hlt
    · have hfew : stop - c.pos < 1 := by omega
      rw [if_pos hfew, if_neg (Nat.not_lt_of_le (Nat.le_of_eq hsame.symm)), hsame]
    · have henough : ¬ stop - c.pos < 1 := by omega
      rw [if_pos hlt, if_neg henough]

/-- Lists that are shared, of which the third has an item, and a test for lists without any.  From
    the first the stretch is two of them, in one search or item by item; from the third it is empty,
    and then asking for an item fails there. -/
theorem run_itemWhile_shared :
    let setting : Setting Session :=
      ⟨{}, { rule := fun _ _ => throw .missingKey, forward := fun _ => none }⟩
    let p : Predicate := ⟨"is_empty", fun v => v.length.map (· == 0)⟩
    let s : Session := ⟨.null, { containers := #[.list #[], .list #[.int 1]] }⟩
    let c (pos : Nat) :=
      (start (.sequence (.list #[.shared 0, .shared 0, .shared 1])) { levels := 50 }).moveTo pos
    (repeated (satisfy p) .discard none 0).run setting (c 0) s =
      .ok (.success (.list [.shared 0, .shared 0]) 2) s ∧
      (repeated (satisfy p) .discard none 1).run setting (c 2) s =
        .ok (.failure (.position 2)) s := by
  intro setting p s c
  let items : Items := .list #[.shared 0, .shared 0, .shared 1]
  have hfull : items.AcceptedUntil (fun v => p.holds (Memory.whole s v)) 0 2 := by
    refine ⟨by decide, by decide, fun j v _ hj hv => ?_, fun v hv => ?_⟩
    · obtain rfl | rfl : j = 0 ∨ j = 1 := by omega
      · obtain rfl := Option.some.inj hv
        with_unfolding_all rfl
      · obtain rfl := Option.some.inj hv
        with_unfolding_all rfl
    · obtain rfl := Option.some.inj hv
      with_unfolding_all rfl
  have hempty : items.AcceptedUntil (fun v => p.holds (Memory.whole s v)) 2 2 :=
    ⟨Nat.le_refl 2, by decide, fun j v hj hj' => by omega, hfull.ends⟩
  obtain ⟨hmany, -, -, hwhile⟩ :=
    @run_itemWhile Session _ items (c 0) setting p _ rfl (Nat.zero_le 3) s
  obtain ⟨-, hmany', -, hwhile'⟩ :=
    @run_itemWhile Session _ items (c 2) setting p _ rfl (by decide) s
  exact ⟨hmany.symm.trans (hwhile 2 hfull).1, hmany'.symm.trans (hwhile' 2 hempty).2⟩

end Parser

end Itemwise
