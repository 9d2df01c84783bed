import Itemwise.Leaf.Stretch

namespace Itemwise

/-!
# The stretch that a test accepts

A search for the end of a stretch puts its test to one item after the other.  It comes to the first
item that the test does not accept, or to the end of the input, unless the test ends in a fault
before.

* `Items.AcceptedUntil` — the stretch that a test accepts from a position on, which is always there
  for a test that decides all items: `Items.exists_acceptedUntil`;
* `Leaf.scanWhile_of_none`, `Leaf.scanWhile_of_some` — what the end and what one item does to the
  search;
* `Leaf.scanWhile_eq_ok`, `Leaf.scanWhile_eq_error` — the search comes to the end of the stretch, or
  to a fault of the test.
-/

variable {test : Value → Except Fault Bool} {items : Items}

namespace Items

/-- From `start` to before `stop` a test accepts every item, and it does not accept the item at
    `stop`, if there is one. -/
structure AcceptedUntil (test : Value → Except Fault Bool) (items : Items)
    (start stop : Nat) : Prop where
  start_le : start ≤ stop
  stop_le : stop ≤ items.size
  accepted : ∀ j v, start ≤ j → j < stop → items.get? j = some v → test v = .ok true
  ends : ∀ v, items.get? stop = some v → test v = .ok false

/-- The stretch from the next item on, if there is an item in it. -/
theorem AcceptedUntil.next {start stop : Nat} (h : items.AcceptedUntil test start stop)
    (hlt : start < stop) :
    items.AcceptedUntil test (start + 1) stop :=
  ⟨hlt, h.stop_le, fun j v hj => h.accepted j v (by omega), h.ends⟩

/-- The stretch from an accepted item on, if there is one from the next item on. -/
theorem AcceptedUntil.cons {start stop : Nat} {v : Value}
    (h : items.AcceptedUntil test (start + 1) stop) (hv : items.get? start = some v)
    (haccepted : test v = .ok true) : items.AcceptedUntil test start stop where
  start_le := Nat.le_of_succ_le h.start_le
  stop_le := h.stop_le
  accepted j w hj hj' hw := by
    rcases Nat.eq_or_lt_of_le hj with rfl | hlt
    · rwa [← Option.some.inj (hv.symm.trans hw)]
    · exact h.accepted j w hlt hj' hw
  ends := h.ends

/-- A test that decides all items from a position on accepts some stretch there. -/
theorem exists_acceptedUntil {start : Nat} (hstart : start ≤ items.size)
    (hdecides : ∀ j v, start ≤ j → items.get? j = some v → ∃ b, test v = .ok b) :
    ∃ stop, items.AcceptedUntil test start stop := by
  -- On the items ahead.
  obtain ⟨left, hleft⟩ : ∃ left, items.size = start + left := ⟨items.size - start, by omega⟩
  induction left generalizing start with
  | zero =>
    have hnone : items.get? start = none := (get?_eq_none_iff items start).mpr (by omega)
    exact ⟨start, Nat.le_refl _, hstart, fun j v h h' => by omega, by simp [hnone]⟩
  | succ left ih =>
    obtain ⟨v, hv⟩ := exists_get? (show start < items.size by omega)
    obtain ⟨b, hb⟩ := hdecides start v (Nat.le_refl _) hv
    cases b with
    | false =>
      refine ⟨start, Nat.le_refl _, hstart, fun j w h h' => by omega, fun w hw => ?_⟩
      rwa [← Option.some.inj (hv.symm.trans hw)]
    | true =>
      obtain ⟨stop, h⟩ := ih (show start + 1 ≤ items.size by omega)
        (fun j w hj => hdecides j w (by omega)) (by omega)
      exact ⟨stop, h.cons hv hb⟩

end Items

namespace Leaf

/-- At the end of the input the search ends. -/
theorem scanWhile_of_none {pos : Nat} (h : items.get? pos = none) :
    scanWhile (.sequence items) test (items.size - pos) pos = .ok pos := by
  have hend : items.size - pos = 0 := by
    have := (Items.get?_eq_none_iff items pos).mp h
    omega
  rw [hend, scanWhile]

/-- An item is passed over if the test accepts it, and else the search ends there. -/
theorem scanWhile_of_some {pos : Nat} {v : Value} (h : items.get? pos = some v) :
    scanWhile (.sequence items) test (items.size - pos) pos =
      test v >>= fun b => if b then scanWhile (.sequence items) test (items.size - (pos + 1))
        (pos + 1) else .ok pos := by
  have hlt := Items.lt_of_get? h
  obtain ⟨left, hleft⟩ : ∃ left, items.size - pos = left + 1 := ⟨items.size - pos - 1, by omega⟩
  have hnext : items.size - (pos + 1) = left := by omega
  rw [hleft, hnext, scanWhile, Input.item?_sequence, h]
  rfl

/-- The search comes to the end of the stretch. -/
theorem scanWhile_eq_ok {start stop : Nat} (h : items.AcceptedUntil test start stop) :
    scanWhile (.sequence items) test (items.size - start) start = .ok stop := by
  obtain ⟨left, rfl⟩ : ∃ left, stop = start + left := ⟨stop - start, by have := h.start_le; omega⟩
  -- On the length of the stretch.
  induction left generalizing start with
  | zero =>
    cases hv : items.get? start with
    | none => exact scanWhile_of_none hv
    | some v =>
      rw [scanWhile_of_some hv, h.ends v hv]
      rfl
  | succ left ih =>
    have hstop := h.stop_le
    obtain ⟨v, hv⟩ := Items.exists_get? (show start < items.size by omega)
    have hshift : start + (left + 1) = start + 1 + left := by omega
    rw [scanWhile_of_some hv, h.accepted start v (Nat.le_refl _) (by omega) hv]
    rw [hshift] at h ⊢
    exact ih (h.next (by omega))

/-- The search ends in a fault if the test does so for an item, and each item before that is
    accepted or ends in the same fault. -/
theorem scanWhile_eq_error {start j : Nat} {v : Value} {f : Fault} (hj : start ≤ j)
    (hv : items.get? j = some v) (hfault : test v = .error f)
    (hbefore : ∀ i w, start ≤ i → i < j → items.get? i = some w → test w = .ok true ∨
      test w = .error f) :
    scanWhile (.sequence items) test (items.size - start) start = .error f := by
  obtain ⟨ahead, rfl⟩ : ∃ ahead, j = start + ahead := ⟨j - start, by omega⟩
  -- On how far ahead that is.
  induction ahead generalizing start with
  | zero =>
    rw [Nat.add_zero] at hv
    rw [scanWhile_of_some hv, hfault]
    rfl
  | succ ahead ih =>
    have hlt := Items.lt_of_get? hv
    obtain ⟨w, hw⟩ := Items.exists_get? (show start < items.size by omega)
    rw [scanWhile_of_some hw]
    rcases hbefore start w (Nat.le_refl _) (by omega) hw with haccepted | hfault'
    · have hshift : start + (ahead + 1) = start + 1 + ahead := by omega
      rw [hshift] at hv hbefore
      rw [haccepted]
      exact ih (by omega) hv fun i u hi => hbefore i u (by omega)
    · rw [hfault']
      rfl

end Leaf

end Itemwise
