import Itemwise.Parser.Parse
import Itemwise.Proofs.Run.Greedy
import Itemwise.Proofs.Scan.Accepted

namespace Itemwise

/-!
# White space in arbitrary sequences

White space is looked up in a set of its characters, codes and bytes, so an item that cannot be a
member of a set ends the search in a fault.

* `Items.BlankUntil` — the stretch of white space from a position on, which is always there:
  `Items.exists_blankUntil`;
* `Leaf.isBlank_of_isKey`, `Leaf.isBlank_of_not_isKey` — what can be looked up is white space or is
  none, and the rest is refused;
* `Leaf.skipBlanks_eq_ok`, `Leaf.skipBlanks_eq_error` — the search comes to the end of the stretch,
  or to an item that cannot be looked up;
* `Outcome.afterBlanks`, `Step.eat_eq` — what an outcome comes to after white space, and a step
  after it;
* `Parser.run_whitespace` — so do the parser of white space and the parser after it.
-/

namespace Items

/-- From `start` to before `stop` every item is equal to a character of white space, to its code or
    to its byte, and the item at `stop` is not, if there is one. -/
structure BlankUntil (items : Items) (start stop : Nat) : Prop where
  start_le : start ≤ stop
  stop_le : stop ≤ items.size
  blank : ∀ j v, start ≤ j → j < stop → items.get? j = some v → v.isMember Leaf.blanks = true
  ends : ∀ v, items.get? stop = some v → v.isMember Leaf.blanks = false

variable {items : Items}

/-- From every position there is a stretch of blanks, which may have nothing in it. -/
theorem exists_blankUntil {start : Nat} (hstart : start ≤ items.size) :
    ∃ stop, items.BlankUntil start stop := by
  obtain ⟨stop, h⟩ : ∃ stop,
    items.AcceptedUntil (fun v => .ok (v.isMember Leaf.blanks)) start stop :=
    exists_acceptedUntil hstart fun _ _ _ _ => ⟨_, rfl⟩
  refine ⟨stop, h.start_le, h.stop_le, fun j v hj hj' hv => ?_, fun v hv => ?_⟩
  · exact Except.ok.inj (h.accepted j v hj hj' hv)
  · exact Except.ok.inj (h.ends v hv)

end Items

namespace Leaf

variable {items : Items}

/-- Whether a value that can be a key is blank is whether it is one of the blanks. -/
theorem isBlank_of_isKey {v : Value} (h : v.isKey = true) : isBlank v = .ok (v.isMember blanks) :=
  if_pos h

/-- A value that cannot be a key is turned down with a fault. -/
theorem isBlank_of_not_isKey {v : Value} (h : v.isKey = false) : isBlank v = .error .wrongKind :=
  if_neg (by simp [h])

/-- The search comes to the end of the stretch if everything up to there can be looked up. -/
theorem skipBlanks_eq_ok {start stop : Nat} (h : items.BlankUntil start stop)
    (hkey : ∀ j v, start ≤ j → j ≤ stop → items.get? j = some v → v.isKey = true) :
    skipBlanks (.sequence items) start = .ok stop := by
  refine scanWhile_eq_ok ⟨h.start_le, h.stop_le, fun j v hj hj' hv => ?_, fun v hv => ?_⟩
  · rw [isBlank_of_isKey (hkey j v hj (Nat.le_of_lt hj') hv), h.blank j v hj hj' hv]
  · rw [isBlank_of_isKey (hkey stop v h.start_le (Nat.le_refl _) hv), h.ends v hv]

/-- The search ends in a fault if something up to the end of the stretch cannot be looked up. -/
theorem skipBlanks_eq_error {start stop j : Nat} {v : Value} (h : items.BlankUntil start stop)
    (hj : start ≤ j) (hj' : j ≤ stop) (hv : items.get? j = some v) (hkey : v.isKey = false) :
    skipBlanks (.sequence items) start = .error .wrongKind := by
  refine scanWhile_eq_error hj hv (isBlank_of_not_isKey hkey) fun i w hi hi' hw => ?_
  cases hkey' : w.isKey with
  | true => exact .inl (by rw [isBlank_of_isKey hkey', h.blank i w hi (by omega) hw])
  | false => exact .inr (isBlank_of_not_isKey hkey')

end Leaf

/-- What an outcome comes to after white space: a failure right after it is one at the start. -/
def Outcome.afterBlanks (start stop : Nat) : Outcome Value → Outcome Value
  | .success v q => .success v q
  | .failure x => if stop ≠ start ∧ x.isAt stop = true then .failure start else .failure x

/-- Without white space an outcome stays what it is. -/
theorem Outcome.afterBlanks_self (start : Nat) (o : Outcome Value) :
    o.afterBlanks start start = o := by
  cases o with
  | success v q => rfl
  | failure x => exact if_neg fun h => h.1 rfl

namespace Step

variable {σ : Type} {p : Step σ} {c : Context} {stop : Nat}

/-- After white space a step is run where that ends. -/
theorem eat_eq (h : Leaf.skipBlanks c.items c.pos = .ok stop) (p : Step σ) :
    eat p c = p (c.moveTo stop) >>= fun o => pure (o.afterBlanks c.pos stop) := by
  show (Action.ofExcept (Leaf.skipBlanks c.items c.pos) >>= _) = _
  rw [h]
  show (if stop = c.pos then p c else p (c.moveTo stop) >>= _) = _
  by_cases hstop : stop = c.pos
  · subst hstop
    rw [if_pos rfl, Context.moveTo_pos,
      funext fun o => congrArg pure (Outcome.afterBlanks_self c.pos o), bind_pure]
  · rw [if_neg hstop]
    congr 1
    funext o
    cases o with
    | success v q => rfl
    | failure x => by_cases hx : x.isAt stop = true <;> simp [Outcome.afterBlanks, hx, hstop]

/-- After white space, a step raises what it raises there. -/
theorem eat_eq_error (h : Leaf.skipBlanks c.items c.pos = .ok stop) (s : σ) (f : Fault) (t : σ) :
    eat p c s = .error f t ↔ p (c.moveTo stop) s = .error f t := by
  rw [eat_eq h]
  cases hp : p (c.moveTo stop) s with
  | error f t => rw [Action.bind_of_error hp]
  | ok o t =>
    rw [Action.bind_of_ok hp]
    exact ⟨nofun, nofun⟩

end Step

namespace Parser

variable {σ : Type} [Memory σ] (setting : Setting σ) {c : Context} {items : Items}

/-- **White space is skipped up to the first item that is none**, and what comes after it runs
    there; but an item on the way that cannot be a member of a set is refused, and so is one right
    after the white space. -/
theorem run_whitespace (hitems : c.items = .sequence items) (hpos : c.pos ≤ items.size)
    (p : Parser σ) (s : σ) :
    (∃ stop, items.BlankUntil c.pos stop) ∧
      ∀ stop, items.BlankUntil c.pos stop →
        ((∃ j v, c.pos ≤ j ∧ j ≤ stop ∧ items.get? j = some v ∧ v.isKey = false) →
          whitespace.run setting c s = .error .wrongKind s ∧ (eat p).run setting c s =
            .error .wrongKind s) ∧
        ((∀ j v, c.pos ≤ j → j ≤ stop → items.get? j = some v → v.isKey = true) →
          whitespace.run setting c s = .ok (.success .null stop) s ∧
            ∀ f t, (eat p).run setting c s = .error f t ↔ p.run setting (c.moveTo stop) s =
              .error f t) := by
  have hwhitespace := run_leaf setting (p := whitespace) rfl c s
  have heat : (eat p).run setting = Step.eat (p.run setting) := by
    rw [run_eq setting (eat p), run_eq setting p]
    rfl
  refine ⟨Items.exists_blankUntil hpos, fun stop h => ⟨?_, fun hkey => ?_⟩⟩
  · rintro ⟨j, v, hj, hj', hv, hkey⟩
    have hblanks : Leaf.skipBlanks c.items c.pos = .error .wrongKind := by
      rw [hitems]
      exact Leaf.skipBlanks_eq_error h hj hj' hv hkey
    rw [hwhitespace, heat]
    unfold Leaf.whitespace Step.eat
    rw [hblanks]
    exact ⟨rfl, rfl⟩
  · have hblanks : Leaf.skipBlanks c.items c.pos = .ok stop := by
      rw [hitems]
      exact Leaf.skipBlanks_eq_ok h hkey
    rw [hwhitespace, heat]
    refine ⟨?_, Step.eat_eq_error hblanks s⟩
    have hstop : stop ≤ c.items.size := by
      rw [hitems]
      exact h.stop_le
    unfold Leaf.whitespace
    rw [hblanks, Step.ok_bind, Leaf.accept_of_le _ hstop]
    rfl

/-- A byte of white space counts as white space also in a byte sequence that can grow, but is
    refused there. -/
theorem run_whitespace_growable :
    whitespace.run brackets
      (start (.sequence (.list #[.ofChar ' ', .octets .growable [0x20], .null])) { levels := 50 })
      () = .error .wrongKind () := by
  have hstretch : (Items.list #[.ofChar ' ', .octets .growable [0x20], .null]).BlankUntil 0 2 := by
    refine ⟨by decide, by decide, fun j v _ hj hv => ?_, fun v hv => ?_⟩
    · obtain rfl | rfl : j = 0 ∨ j = 1 := by omega
      · obtain rfl := Option.some.inj hv
        with_unfolding_all rfl
      · obtain rfl := Option.some.inj hv
        with_unfolding_all rfl
    · obtain rfl := Option.some.inj hv
      with_unfolding_all rfl
  obtain ⟨-, hrun⟩ := run_whitespace brackets
    (c := start (.sequence (.list #[.ofChar ' ', .octets .growable [0x20], .null]))
      { levels := 50 }) rfl (Nat.zero_le _)
    .anyItem ()
  exact ((hrun 2 hstretch).1 ⟨1, _, by decide, by decide, rfl, rfl⟩).1

/-- A list is no white space, and a parser of any item takes it; but neither white space nor such a
    parser after it gets as far as that. -/
theorem run_whitespace_nested :
    (Items.list #[.list [.int 1]]).BlankUntil 0 0 ∧
      whitespace.run brackets (start (.sequence (.list #[.list [.int 1]])) { levels := 50 }) () =
        .error .wrongKind () ∧
      (eat .anyItem).run brackets (start (.sequence (.list #[.list [.int 1]])) { levels := 50 })
      () = .error .wrongKind () ∧
      anyItem.run brackets (start (.sequence (.list #[.list [.int 1]])) { levels := 50 }) () =
        .ok (.success (.list [.int 1]) 1) () := by
  refine ⟨⟨Nat.le_refl 0, by decide, fun j v _ hj => by omega, fun v hv => ?_⟩, ?_, ?_, ?_⟩
  · obtain rfl := Option.some.inj hv
    with_unfolding_all rfl
  · with_unfolding_all rfl
  · with_unfolding_all rfl
  · with_unfolding_all rfl

end Parser

end Itemwise
