import Itemwise.Proofs.FixedArray.Slices
import Itemwise.Proofs.Run.Arrays

namespace Itemwise

/-!
# Fixed arrays as bounded lists

A fixed array answers as a list would that takes no more items than there is room for.  The slots
that are not filled are never seen.

* `FixedArray.Operation`, `FixedArray.perform`, `FixedArray.run` — what is done with an array, one
  thing after the other;
* `FixedArray.stored` — the items that an array has taken, by its own answers;
* `FixedArray.Operation.onList` — what an operation comes to for a list of the items;
* `FixedArray.perform_eq_onList` — what one operation comes to for an array with those items;
* `FixedArray.toList_run` — the items after any number of them;
* `FixedArray.bounded_list` — what an array answers after any operations, told by the items that it
  has taken.
-/

namespace FixedArray

/-! ### Operations -/

/-- What is done with an array. -/
inductive Operation
  | append (v : Value)
  | get (i : Int)
  | slice (start stop step : Option Int)
  | length
  | items
  | capacity
  | isFull

/-- The answer to an operation, and the array after it: the same one if nothing is stored. -/
def perform (a : FixedArray) : Operation → Except Fault Value × FixedArray
  | .append v =>
    match a.append v with
    | .ok (b, room) => (.ok (.bool room), b)
    | .error f => (.error f, a)
  | .get i => (a.get i, a)
  | .slice start stop step => ((a.slice start stop step).map .list, a)
  | .length => (.ok (.int a.length), a)
  | .items => (.ok (.list a.toList), a)
  | .capacity => (.ok (.int a.capacity), a)
  | .isFull => (.ok (.bool a.isFull), a)

/-- The answers to some operations one after the other, and the array after them. -/
def run (a : FixedArray) : List Operation → List (Except Fault Value) × FixedArray
  | [] => ([], a)
  | op :: ops => ((a.perform op).1 :: ((a.perform op).2.run ops).1, ((a.perform op).2.run ops).2)

/-- The item that an operation has stored, if its answer is not a fault. -/
def taken? : Operation × Except Fault Value → Option Value
  | (.append v, .ok _) => some v
  | _ => none

/-- The items that some operations have stored, by their answers. -/
def stored (ops : List Operation) (answers : List (Except Fault Value)) : List Value :=
  (ops.zip answers).filterMap taken?

/-! ### Lists -/

/-- The item of a list at an index, which counts from the end if it is negative. -/
def nth? (xs : List Value) (i : Int) : Option Value :=
  if 0 ≤ i then xs[i.toNat]?
  else if -xs.length ≤ i then xs[(xs.length + i).toNat]?
  else none

/-- The answer to an operation on a list that takes no more than `c` items, and the list after
    it. -/
def Operation.onList (c : Nat) (xs : List Value) : Operation → Except Fault Value × List Value
  | .append v =>
    if xs.length < c then (.ok (.bool (decide (xs.length + 1 < c))), xs ++ [v])
  else (.error .badIndex, xs)
  | .get i => (Fault.attempt .arrayIndex (nth? xs i), xs)
  | .slice start stop step =>
    (if step = some 0 then .error .badValue
      else .ok (.list ((Slice.chosen xs.length start stop (step.getD 1)).filterMap (xs[·]?))), xs)
  | .length => (.ok (.int xs.length), xs)
  | .items => (.ok (.list xs), xs)
  | .capacity => (.ok (.int c), xs)
  | .isFull => (.ok (.bool (decide (xs.length = c))), xs)

variable {a : FixedArray} {c : Nat}

/-! ### One operation -/

/-- A filled slot has the item of that index. -/
theorem getElem?_slots {j : Nat} (hj : j < a.length) : a.slots[j]? = a.toList[j]? := by
  rw [toList, List.getElem?_take_of_lt hj, Vector.getElem?_toList]

/-- A full array takes no item. -/
theorem append_of_le (h : a.capacity ≤ a.length) (v : Value) : a.append v = .error .badIndex :=
  dif_neg (Nat.not_lt.mpr h)

/-- An index means a position of the sequence, or nothing. -/
theorem index?_eq (size : Nat) (i : Int) : Slice.index? size i =
    if 0 ≤ Slice.fromEnd size i ∧ Slice.fromEnd size i < size then some (Slice.fromEnd size i).toNat
    else none := rfl

/-- An index that is found lies within the size. -/
theorem index?_lt {size j : Nat} {i : Int} (h : Slice.index? size i = some j) : j < size := by
  rw [index?_eq] at h
  split at h
  case isTrue hbounds =>
    cases h
    omega
  case isFalse => cases h

/-- An item is found in the place of its index, also one that is counted from the end. -/
theorem index?_bind (xs : List Value) (i : Int) :
    (Slice.index? xs.length i).bind (xs[·]?) = nth? xs i := by
  rw [index?_eq, nth?, Slice.fromEnd]
  by_cases hi : 0 ≤ i
  · rw [if_neg (show ¬ i < 0 by omega), if_pos hi]
    by_cases hlt : i < xs.length
    · rw [if_pos ⟨hi, hlt⟩, Option.bind_some]
    · rw [if_neg fun h => hlt h.2, Option.bind_none, List.getElem?_eq_none (by omega)]
  · rw [if_pos (show i < 0 by omega), if_neg hi, Int.add_comm]
    by_cases hle : -xs.length ≤ i
    · rw [if_pos ⟨by omega, by omega⟩, if_pos hle, Option.bind_some]
    · rw [if_neg (by omega), if_neg hle, Option.bind_none]

/-- An array gives the items of its list, and refuses an index that is not there. -/
theorem get_eq_nth? (a : FixedArray) (i : Int) :
    a.get i = Fault.attempt .arrayIndex (nth? a.toList i) := by
  rw [get, ← index?_bind, length_toList]
  congr 1
  exact Option.bind_congr fun j hj => getElem?_slots (index?_lt hj)

/-- An array gives the slices of its list, and refuses a step of zero. -/
theorem slice_eq_chosen (a : FixedArray) (start stop step : Option Int) :
    a.slice start stop step = if step = some 0 then .error .badValue
      else .ok ((Slice.chosen a.toList.length start stop (step.getD 1)).filterMap
        (a.toList[·]?)) := by
  have hzero : step.getD 1 = 0 ↔ step = some 0 := by
    cases step <;> simp
  rw [slice]
  simp only [hzero]
  refine ite_congr rfl (fun _ => rfl) fun hstep => ?_
  rw [Slice.positions_eq_chosen fun h => hstep (hzero.mp h), length_toList]
  simp [Slice.pick]

/-- What an operation comes to for an array, is what it comes to for the list of the items. -/
theorem perform_eq_onList (a : FixedArray) (op : Operation) :
    (a.perform op).1 = (op.onList a.capacity a.toList).1 ∧
      (a.perform op).2.toList = (op.onList a.capacity a.toList).2 ∧
      (a.perform op).2.capacity = a.capacity := by
  cases op with
  | append v =>
    by_cases h : a.length < a.capacity
    · obtain ⟨b, happend, hextends⟩ := append_of_lt h v
      rw [perform, Operation.onList, happend, length_toList, if_pos h]
      exact ⟨rfl, hextends.toList_eq, hextends.capacity_eq⟩
    · rw [perform, Operation.onList, append_of_le (Nat.not_lt.mp h), length_toList, if_neg h]
      exact ⟨rfl, rfl, rfl⟩
  | get i => exact ⟨get_eq_nth? a i, rfl, rfl⟩
  | slice start stop step =>
    refine ⟨?_, rfl, rfl⟩
    rw [perform, Operation.onList, slice_eq_chosen]
    split <;> rfl
  | length => exact ⟨by rw [perform, Operation.onList, length_toList], rfl, rfl⟩
  | items => exact ⟨rfl, rfl, rfl⟩
  | capacity => exact ⟨rfl, rfl, rfl⟩
  | isFull =>
    refine ⟨?_, rfl, rfl⟩
    rw [perform, Operation.onList, length_toList, isFull, beq_eq_decide]

/-- A list is longer by the item that an operation has stored. -/
theorem Operation.onList_snd (c : Nat) (xs : List Value) (op : Operation) :
    (op.onList c xs).2 = xs ++ (taken? (op, (op.onList c xs).1)).toList := by
  cases op with
  | append v =>
    rw [onList]
    split
    · rfl
    · exact (List.append_nil xs).symm
  | get | slice | length | items | capacity | isFull => exact (List.append_nil xs).symm

/-- An operation changes an array by what it appends, if it appends anything. -/
theorem toList_perform (a : FixedArray) (op : Operation) :
    (a.perform op).2.toList = a.toList ++ (taken? (op, (a.perform op).1)).toList := by
  obtain ⟨hanswer, hitems, -⟩ := perform_eq_onList a op
  rw [hitems, hanswer, Operation.onList_snd]

/-- An operation that ends in a fault leaves the array as it was. -/
theorem perform_of_error {op : Operation} {f : Fault} (h : (a.perform op).1 = .error f) :
    (a.perform op).2 = a := by
  cases op with
  | append v =>
    rw [perform] at h ⊢
    cases happend : a.append v with
    | ok p =>
      rw [happend] at h
      cases h
    | error f' => rfl
  | get | slice | length | items | capacity | isFull => rfl

/-! ### Operations one after the other -/

/-- What several operations store is what the first stores, and then the others. -/
theorem stored_cons (op : Operation) (ops : List Operation) (answer : Except Fault Value)
    (answers : List (Except Fault Value)) :
    stored (op :: ops) (answer :: answers) = (taken? (op, answer)).toList ++
      stored ops answers := by
  rw [stored, List.zip_cons_cons, List.filterMap_cons]
  cases taken? (op, answer) <;> rfl

/-- An array has the items that it had, and behind them those that it has taken since. -/
theorem toList_run (a : FixedArray) (ops : List Operation) :
    (a.run ops).2.toList = a.toList ++ stored ops (a.run ops).1 ∧
      (a.run ops).2.capacity = a.capacity := by
  induction ops generalizing a with
  | nil => exact ⟨(List.append_nil _).symm, rfl⟩
  | cons op ops ih =>
    obtain ⟨hitems, hcapacity⟩ := ih (a.perform op).2
    rw [run]
    refine ⟨?_, hcapacity.trans (perform_eq_onList a op).2.2⟩
    rw [stored_cons, hitems, toList_perform, List.append_assoc]

/-- There can be an array with any capacity up to the number of items that there is room for. -/
theorem ofCapacity_of_le (h : c ≤ Room.mostItems) : ofCapacity c = .ok (empty c) := by
  have hword : c < Room.wordBound := Nat.lt_of_le_of_lt h Room.mostItems_lt_wordBound
  have hcheck : Room.check .outOfMemory c = .ok () := by
    rw [Room.check, if_neg (Nat.not_le.mpr hword), if_neg (Nat.not_lt.mpr h)]
  show (Room.count c >>= fun n => Room.check .outOfMemory n >>= fun _ => .ok (empty n)) =
      .ok (empty c)
  rw [Room.count_natCast hword]
  show (Room.check .outOfMemory c >>= fun _ => .ok (empty c)) = .ok (empty c)
  rw [hcheck]
  rfl

/-- **Bounded lists.** Let any operations be done with an array of any capacity that was empty at
    first.  The items that it has taken, those whose addition was no fault, are never more than
    there is room for, and they are what the array has.  Every further operation is answered as it
    is for the list of them: an addition succeeds if and only if there is room, and tells whether
    there is some left; all others, at whatever index and with whatever bounds and steps, see these
    items and no other slot.  An operation that ends in a fault leaves the array as it was. -/
theorem bounded_list (c : Nat) (ops : List Operation) :
    (c ≤ Room.mostItems → ofCapacity c = .ok (empty c)) ∧
      let a := ((empty c).run ops).2
      let xs := stored ops ((empty c).run ops).1
      xs.length ≤ c ∧ a.toList = xs ∧
        ∀ op : Operation,
          (a.perform op).1 = (op.onList c xs).1 ∧ (a.perform op).2.toList = (op.onList c xs).2 ∧
            ∀ f, (a.perform op).1 = .error f → (a.perform op).2 = a := by
  refine ⟨ofCapacity_of_le, ?_⟩
  intro a xs
  obtain ⟨hitems, hcapacity⟩ : a.toList = xs ∧ a.capacity = c := by
    have h := toList_run (empty c) ops
    rwa [toList_empty, List.nil_append] at h
  refine ⟨?_, hitems, fun op => ?_⟩
  · rw [← hitems, length_toList, ← hcapacity]
    exact a.length_le
  · obtain ⟨hanswer, hafter, -⟩ := perform_eq_onList a op
    rw [hitems, hcapacity] at hanswer hafter
    exact ⟨hanswer, hafter, fun f => perform_of_error⟩

/-- The third item does not fit; the array in reverse is that of the first two. -/
theorem bounded_list_full :
    let ops : List Operation := [.append (.int 1), .append (.int 2), .append (.int 3)]
    let a := ((empty 2).run ops).2
    ofCapacity 2 = .ok (empty 2) ∧ (a.perform (.append (.int 3))).1 = .error .badIndex ∧
      (a.perform (.get (-1))).1 = .ok (.int 2) ∧ (a.perform (.get (-3))).1 = .error .arrayIndex ∧
      (a.perform (.slice none none (some (-1)))).1 = .ok (.list [.int 2, .int 1]) := by
  intro ops a
  obtain ⟨hmade, -, -, hall⟩ := bounded_list 2 ops
  refine ⟨hmade (by decide), ?_, ?_, ?_, ?_⟩
  · exact (hall (.append (.int 3))).1
  · exact (hall (.get (-1))).1
  · exact (hall (.get (-3))).1
  · have hreverse : Slice.chosen 2 none none (-1) = [1, 0] := by decide
    rw [(hall _).1]
    show Except.ok (Value.list
        ((Slice.chosen 2 none none (-1)).filterMap ([Value.int 1, Value.int 2][·]?))) = _
    rw [hreverse]
    rfl

end FixedArray

end Itemwise
