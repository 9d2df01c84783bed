import Itemwise.Proofs.Run.Sinks

namespace Itemwise

/-!
# Repetitions into an array

A repetition into an array takes what one into a list takes, for as long as there is room.  When the
array is full, it stops right behind the element that filled it, whatever the list goes on to.

* `FixedArray.Extends` — an array with further items stored;
* `Step.Matches` — elements one after the other, with a separator between any two;
* `Step.GreedyRun.inArray` — a run with fewer elements than there is room for is the same in the
  array;
* `Step.GreedyRun.fillsArray` — and with no fewer, the loop stops as soon as the array is full;
* `Parser.run_repeated_array` — what a repetition into an array comes to beside the one into a list.
-/

/-! ### Arrays with further items -/

/-- An array is another one with further items stored. -/
structure FixedArray.Extends (b a : FixedArray) (vs : List Value) : Prop where
  capacity_eq : b.capacity = a.capacity
  toList_eq : b.toList = a.toList ++ vs

namespace FixedArray

variable {a b d : FixedArray} {vs ws : List Value}

/-- With no values put in, an array is as it was. -/
theorem extends_nil (a : FixedArray) : a.Extends a [] := ⟨rfl, (List.append_nil _).symm⟩

/-- An array that is longer by some values has that many more of them. -/
theorem Extends.length_eq (h : b.Extends a vs) : b.length = a.length + vs.length := by
  rw [← length_toList, h.toList_eq, List.length_append, length_toList]

/-- Values put in and then further ones are all of them put in. -/
theorem Extends.trans (h : b.Extends a vs) (h' : d.Extends b ws) : d.Extends a (vs ++ ws) :=
  ⟨h'.capacity_eq.trans h.capacity_eq, by rw [h'.toList_eq, h.toList_eq, List.append_assoc]⟩

/-- An array that is not full takes an item, and tells whether there is room for more. -/
theorem append_of_lt (h : a.length < a.capacity) (v : Value) :
    ∃ b, a.append v = .ok (b, decide (a.length + 1 < a.capacity)) ∧ b.Extends a [v] := by
  have happend : a.append v =
      .ok (⟨a.capacity, a.slots.set a.length v h, a.length + 1, h⟩,
        decide (a.length + 1 < a.capacity)) := dif_pos h
  exact ⟨_, happend, rfl, toList_append happend⟩

/-- If there can be an array, it is empty at first. -/
theorem ofCapacity_eq_ok {n : Nat} (h : ofCapacity n = .ok a) : a = empty n := by
  unfold ofCapacity Room.count at h
  split at h
  · change (Room.check .outOfMemory (n : Int).toNat >>= fun _ => .ok (empty (n : Int).toNat)) =
      .ok a at h
    cases hcheck : Room.check .outOfMemory (n : Int).toNat with
    | ok _ =>
      rw [hcheck] at h
      cases h
      rfl
    | error f =>
      rw [hcheck] at h
      cases h
  · cases h

/-- The value of an array with all its items is told by them. -/
theorem Extends.toValue_eq {n : Nat} (h : b.Extends (empty n) vs) : b.toValue = .array n vs := by
  rw [toValue, h.capacity_eq, h.toList_eq, toList_empty]
  rfl

end FixedArray

variable {σ : Type}

/-- A sink into an array starts with the array, if there can be one. -/
theorem Sink.start_array_of_ok [Memory σ] {n : Int} {a : FixedArray}
    (h : FixedArray.ofCapacity n = .ok a) (s : σ) :
    (Sink.array n : Sink σ).start s = .ok a s := by
  show (Action.ofExcept (FixedArray.ofCapacity n) : Action σ FixedArray) s = _
  rw [h]
  rfl

/-- A sink whose array cannot be made ends a repetition when it starts. -/
theorem Sink.start_array_of_error [Memory σ] {n : Int} {f : Fault}
    (h : FixedArray.ofCapacity n = .error f) (s : σ) :
    (Sink.array n : Sink σ).start s = .error f s := by
  show (Action.ofExcept (FixedArray.ofCapacity n) : Action σ FixedArray) s = _
  rw [h]
  rfl

namespace Step

/-! ### Elements and separators -/

/-- Elements succeed one after the other from a position on and each get further, with a separator
    between any two if there is one: their values, and where the last one ends. -/
inductive Matches (element : Step σ) (separator : Option (Step σ)) (c : Context) :
    Nat → σ → List Value → Nat → σ → Prop
  | last {pos s v q t} (h : element (c.moveTo pos) s = .ok (.success v q) t) (hq : pos < q) :
      Matches element separator c pos s [v] q t
  | further {pos s v q t vs r u} (h : element (c.moveTo pos) s = .ok (.success v q) t)
      (hq : pos < q) (hnone : separator = none) (hrest : Matches element separator c q t vs r u) :
      Matches element separator c pos s (v :: vs) r u
  | separated {pos s v q t next w m t' vs r u} (h : element (c.moveTo pos) s = .ok (.success v q) t)
      (hq : pos < q) (hnext : separator = some next)
      (hm : next (c.moveTo q) t = .ok (.success w m) t')
      (hrest : Matches element separator c m t' vs r u) :
        Matches element separator c pos s (v :: vs) r u

/-- Some elements have matched at least one. -/
theorem Matches.ne_nil {element : Step σ} {separator : Option (Step σ)} {c : Context} {pos q : Nat}
    {s t : σ} {vs : List Value} (h : Matches element separator c pos s vs q t) : vs ≠ [] := by
  cases h <;> exact List.cons_ne_nil _ _

/-- Where so many elements end is determined by where they start. -/
theorem Matches.unique {element : Step σ} {separator : Option (Step σ)} {c : Context}
    {pos q q' : Nat} {s t t' : σ} {vs vs' : List Value}
    (h : Matches element separator c pos s vs q t)
    (h' : Matches element separator c pos s vs' q' t') (hlength : vs.length = vs'.length) :
    vs = vs' ∧ q = q' ∧ t = t' := by
  induction h generalizing vs' with
  | last h _ =>
    cases h' with
    | last h' _ =>
      cases h.symm.trans h'
      exact ⟨rfl, rfl, rfl⟩
    | further _ _ _ hrest' | separated _ _ _ _ hrest' =>
      exact absurd (by simpa using hlength) hrest'.ne_nil
  | further h _ hnone hrest ih =>
    cases h' with
    | last h' _ => exact absurd (by simpa using hlength) hrest.ne_nil
    | further h' _ _ hrest' =>
      cases h.symm.trans h'
      obtain ⟨rfl, rfl, rfl⟩ := ih hrest' (by simpa using hlength)
      exact ⟨rfl, rfl, rfl⟩
    | separated _ _ hnext _ _ => cases hnone.symm.trans hnext
  | separated h _ hnext hm hrest ih =>
    cases h' with
    | last h' _ => exact absurd (by simpa using hlength) hrest.ne_nil
    | further _ _ hnone _ => cases hnone.symm.trans hnext
    | separated h' _ hnext' hm' hrest' =>
      cases h.symm.trans h'
      cases hnext.symm.trans hnext'
      cases hm.symm.trans hm'
      obtain ⟨rfl, rfl, rfl⟩ := ih hrest' (by simpa using hlength)
      exact ⟨rfl, rfl, rfl⟩

/-- Whatever the value is, an outcome that is a fault is so with every other value. -/
theorem Ending.outcome_eq_error {α : Type} {e : Ending α} {allowTrailing : Bool}
    {atLeast count : Nat} {v w : Value} {f : Fault} {s t : σ}
    (h : e.outcome allowTrailing atLeast count (fun _ => return v) s = .error f t) :
    e.outcome allowTrailing atLeast count (fun _ => return w) s = .error f t := by
  cases e with
  | raised f' => exact h
  | broken x => cases h
  | stopped q dangling acc =>
    simp only [Ending.outcome] at h
    split at h <;> cases h

variable [Memory σ] {element : Step σ} {separator : Option (Step σ)} {c : Context} {n : Int}
  {pos : Nat} {d : Bool} {xs xs' : (Sink.list : Sink σ).Acc} {s t u : σ} {v : Value} {q : Nat}
    {vs : List Value}
  {e : Ending (Sink.list : Sink σ).Acc} {a : FixedArray}

/-- A list takes every value, and leaves the user state as it is. -/
theorem Counts.run_list (hv : Counts element .list c pos xs s v q xs' t) :
    element (c.moveTo pos) s = .ok (.success v q) t := by
  obtain ⟨-, u, hrun, hlist⟩ := hv
  cases hlist
  exact hrun

/-- An element that counts for a list, counts for an array that is not full after it. -/
theorem Counts.inArray (hv : Counts element .list c pos xs s v q xs' t)
    (h : a.length + 1 < a.capacity) :
    ∃ b, FixedArray.Extends b a [v] ∧ Counts element (.array n) c pos a s v q b t := by
  obtain ⟨b, happend, hextends⟩ := FixedArray.append_of_lt (show a.length < a.capacity by omega) v
  refine ⟨b, hextends, hv.further, t, hv.run_list, ?_⟩
  show (Action.ofExcept (a.append v) : Action σ (FixedArray × Bool)) t = _
  rw [happend, decide_eq_true h]
  rfl

/-- The element that fills an array is the last one of its repetition. -/
theorem Counts.fillsArray (hv : Counts element .list c pos xs s v q xs' t)
    (h : a.length + 1 = a.capacity) (d : Bool) (vs : List Value) (count fuel : Nat) :
    ∃ b q t, FixedArray.Extends b a ((v :: vs).take 1) ∧
      Matches element separator c pos s ((v :: vs).take 1) q t ∧
      gather element separator (.array n) (fuel + 1) c ⟨pos, count, d, a⟩ s =
        .ok (.stopped ⟨q, count + 1, false, b⟩) t := by
  obtain ⟨b, happend, hextends⟩ := FixedArray.append_of_lt (show a.length < a.capacity by omega) v
  have hfurther := hv.further
  have hmoved : q ≠ pos := by omega
  have hpush : (Sink.array n : Sink σ).push a v t = .ok (b, false) t := by
    show (Action.ofExcept (a.append v) : Action σ (FixedArray × Bool)) t = _
    rw [happend, decide_eq_false (by omega)]
    rfl
  refine ⟨b, q, t, hextends, .last hv.run_list hfurther, ?_⟩
  show (element (c.moveTo pos) >>= _) s = _
  rw [Action.bind_of_ok hv.run_list]
  simp only [if_neg hmoved]
  rw [Action.bind_of_ok hpush]
  rfl

/-- A run with fewer elements than there is room for is the same in the array. -/
theorem GreedyRun.inArray (h : GreedyRun element separator .list c pos d xs s vs e u)
    (hroom : a.length + vs.length < a.capacity) :
    ∃ b, FixedArray.Extends b a vs ∧
      GreedyRun element separator (.array n) c pos d a s vs (e.withAcc b) u := by
  induction h generalizing a with
  | further hv hnone _ ih =>
    rw [List.length_cons] at hroom
    obtain ⟨b, hb, hcounts⟩ := hv.inArray (show a.length + 1 < a.capacity by omega)
    obtain ⟨b', hb', hrest⟩ :=
      ih (a := b) (by rw [hb.length_eq, hb.capacity_eq, List.length_singleton]; omega)
    exact ⟨b', hb.trans hb', .further hcounts hnone hrest⟩
  | separated hv hnext hr _ ih =>
    rw [List.length_cons] at hroom
    obtain ⟨b, hb, hcounts⟩ := hv.inArray (show a.length + 1 < a.capacity by omega)
    obtain ⟨b', hb', hrest⟩ :=
      ih (a := b) (by rw [hb.length_eq, hb.capacity_eq, List.length_singleton]; omega)
    exact ⟨b', hb.trans hb', .separated hcounts hnext hr hrest⟩
  | noElement h hx => exact ⟨a, a.extends_nil, .noElement h hx⟩
  | emptyElement h => exact ⟨a, a.extends_nil, .emptyElement h⟩
  | noSeparator hv hnext h hx =>
    obtain ⟨b, hb, hcounts⟩ := hv.inArray hroom
    exact ⟨b, hb, .noSeparator hcounts hnext h hx⟩
  | brokenElement h hx => exact ⟨a, a.extends_nil, .brokenElement h hx⟩
  | brokenSeparator hv hnext h hx =>
    obtain ⟨b, hb, hcounts⟩ := hv.inArray hroom
    exact ⟨b, hb, .brokenSeparator hcounts hnext h hx⟩
  | raisedElement h => exact ⟨a, a.extends_nil, .raisedElement h⟩
  | raisedPush _ _ hpush => cases hpush
  | raisedSeparator hv hnext h =>
    obtain ⟨b, hb, hcounts⟩ := hv.inArray hroom
    exact ⟨b, hb, .raisedSeparator hcounts hnext h⟩

/-- A run with no fewer elements than there is room for fills the array, and the loop stops behind
    the last one it has room for. -/
theorem GreedyRun.fillsArray (helement : element.NeverGoesBack)
    (hseparator : ∀ next, separator = some next → next.NeverGoesBack)
    (h : GreedyRun element separator .list c pos d xs s vs e u)
    (hpos : pos ≤ c.items.size) {left : Nat} (hleft : a.length + (left + 1) = a.capacity)
    (hfull : left + 1 ≤ vs.length) (count fuel : Nat) (hfuel : c.items.size - pos ≤ fuel) :
    ∃ b q t, FixedArray.Extends b a (vs.take (left + 1)) ∧
      Matches element separator c pos s (vs.take (left + 1)) q t ∧
      gather element separator (.array n) (fuel + 1) c ⟨pos, count, d, a⟩ s =
        .ok (.stopped ⟨q, count + (left + 1), false, b⟩) t := by
  -- On the run: an element fills the array, or there is room for one item less.
  induction h generalizing a left count fuel with
  | @further pos d xs s v q xs' t vs e u hv hnone _ ih =>
    cases left with
    | zero => exact hv.fillsArray hleft d vs count fuel
    | succ left =>
      obtain ⟨b, hb, hcounts⟩ := hv.inArray (n := n) (show a.length + 1 < a.capacity by omega)
      have hlength : b.length = a.length + 1 := hb.length_eq
      have hcapacity := hb.capacity_eq
      have hfurther := hv.further
      have hsize := hv.le_size helement hpos
      rw [List.length_cons] at hfull
      obtain ⟨fuel, rfl⟩ : ∃ fuel', fuel = fuel' + 1 := ⟨fuel - 1, by omega⟩
      obtain ⟨b', r, t', hb', hmatches, hgather⟩ :=
        ih hsize (show b.length + (left + 1) = b.capacity by omega) (by omega)
          (count + 1) fuel (by omega)
      refine ⟨b', r, t', hb.trans hb', .further hv.run_list hfurther hnone hmatches, ?_⟩
      subst hnone
      rw [hcounts.gather_succ, show count + (left + 1 + 1) = count + 1 + (left + 1) by omega]
      exact hgather
  | @separated pos d xs s v q xs' t next w r t' vs e u hv hnext hr _ ih =>
    cases left with
    | zero => exact hv.fillsArray hleft d vs count fuel
    | succ left =>
      obtain ⟨b, hb, hcounts⟩ := hv.inArray (n := n) (show a.length + 1 < a.capacity by omega)
      have hlength : b.length = a.length + 1 := hb.length_eq
      have hcapacity := hb.capacity_eq
      have hfurther := hv.further
      have hsize := hv.le_size helement hpos
      have hback : q ≤ r := (hseparator next hnext (c.moveTo q) t w r t' hsize hr).1
      have hsize' : r ≤ c.items.size := (hseparator next hnext (c.moveTo q) t w r t' hsize hr).2
      rw [List.length_cons] at hfull
      obtain ⟨fuel, rfl⟩ : ∃ fuel', fuel = fuel' + 1 := ⟨fuel - 1, by omega⟩
      obtain ⟨b', r', t'', hb', hmatches, hgather⟩ :=
        ih hsize' (show b.length + (left + 1) = b.capacity by omega) (by omega)
          (count + 1) fuel (by omega)
      refine ⟨b', r', t'', hb.trans hb', .separated hv.run_list hfurther hnext hr hmatches, ?_⟩
      subst hnext
      rw [hcounts.gather_succ, show count + (left + 1 + 1) = count + 1 + (left + 1) by omega]
      show (next (c.moveTo q) >>= _) t = _
      rw [Action.bind_of_ok hr]
      exact hgather
  | noSeparator hv | brokenSeparator hv | raisedSeparator hv =>
    obtain rfl : left = 0 := by simpa using hfull
    exact hv.fillsArray hleft _ [] count fuel
  | _ => exact absurd hfull (by simp)

/-- A list that has taken the values of a run holds them. -/
theorem GreedyRun.withAcc_list
    (h : GreedyRun element separator .list c pos d (#[] : Array Value) s vs e u) :
    e.withAcc (vs.toArray : (Sink.list : Sink σ).Acc) = e := by
  cases e with
  | stopped q dangling acc =>
    have hacc : Array.toList acc = vs := h.takes.list_eq
    subst hacc
    exact congrArg (Ending.stopped q dangling) Array.toArray_toList
  | broken x => rfl
  | raised f => rfl

/-- A repetition whose run has no fewer elements than there is room for succeeds when the array is
    full. -/
theorem GreedyRun.many_fillsArray (helement : element.NeverGoesBack)
    (hseparator : ∀ next, separator = some next → next.NeverGoesBack) (hc : c.pos ≤ c.items.size)
    (h : GreedyRun element separator .list c c.pos false (#[] : Array Value) s vs e u)
    {n atLeast : Nat} {allowTrailing : Bool} (hstart : FixedArray.ofCapacity n = .ok (.empty n))
    (hn : 0 < n) (hleast : atLeast ≤ n) (hfull : n ≤ vs.length) :
    ∃ q t, Matches element separator c c.pos s (vs.take n) q t ∧
      many element separator allowTrailing (.array n) atLeast c s =
        .ok (.success (.array n (vs.take n)) q) t := by
  obtain ⟨left, rfl⟩ : ∃ left, n = left + 1 := ⟨n - 1, by omega⟩
  have hrounds := c.lt_mostRounds c.pos
  have hleft : (FixedArray.empty (left + 1)).length + (left + 1) =
      (FixedArray.empty (left + 1)).capacity := Nat.zero_add _
  obtain ⟨b, q, t, hb, hmatches, hgather⟩ :=
    h.fillsArray (n := ((left + 1 : Nat) : Int)) helement hseparator hc hleft hfull 0
      (c.mostRounds - 1) (by omega)
  rw [Nat.sub_add_cancel (by omega)] at hgather
  refine ⟨q, t, hmatches, ?_⟩
  have hfew : ¬ 0 + (left + 1) < atLeast := by omega
  show ((Sink.array ((left + 1 : Nat) : Int) : Sink σ).start >>= _) s = _
  rw [Action.bind_of_ok (Sink.start_array_of_ok hstart s)]
  show (gather element separator (.array ((left + 1 : Nat) : Int)) c.mostRounds c
      ⟨c.pos, 0, false, FixedArray.empty (left + 1)⟩ >>= _) s = _
  rw [Action.bind_of_ok hgather]
  simp only [Bool.false_and, Bool.false_eq_true, if_false, if_neg hfew]
  show EStateM.Result.ok (Outcome.success b.toValue q) t = _
  rw [hb.toValue_eq]

end Step

/-! ### Repetitions -/

namespace Parser

variable [Memory σ] {setting : Setting σ} {p : Parser σ} {separator : Option (Separator σ)}
  {atLeast : Nat}

/-- A repetition into a list comes out by the end of its run, with the values of that. -/
theorem run_repeated_list (hp : (p.run setting).NeverGoesBack)
    (hseparator : ∀ r, separator = some r → (r.parser.run setting).NeverGoesBack) {c : Context}
    (hc : c.pos ≤ c.items.size) {s u : σ} {vs : List Value} {e : Step.Ending (Array Value)}
    (h : Step.GreedyRun (p.run setting) (separator.map (·.parser.run setting)) .list c c.pos false
      (#[] : Array Value) s vs e u) :
    (repeated p .list separator atLeast).run setting c s =
      e.outcome (separator.all (·.allowTrailing)) atLeast vs.length
        (fun _ => return .list vs) u := by
  have hrun := h
  rw [← h.withAcc_list] at hrun
  rw [run_repeated_eq]
  exact Step.many_outcome hp (forall_separator (P := Step.NeverGoesBack) hseparator) hc rfl hrun

/-- **A repetition into an array.** Let the element and the separator never go back, and let the
    array have room for one item and for as many as there have to be: repetitions are written to
    need none or one.  There is a greedy run into a list, by which the repetition into a list comes
    out.  If there can be no such array, the repetition into it ends in that fault at once.
    Otherwise, if the run has fewer elements than there is room for, the repetition into the array
    comes out as that into the list, with the same items; and if not, it succeeds with as many of
    the first ones as there is room for, right behind the last of them.  It ends in no fault in
    which the repetition into the list does not. -/
theorem run_repeated_array (hp : (p.run setting).NeverGoesBack)
    (hseparator : ∀ r, separator = some r → (r.parser.run setting).NeverGoesBack) {c : Context}
    (hc : c.pos ≤ c.items.size) {n : Nat} (hn : 0 < n) (hleast : atLeast ≤ n) (s : σ) :
    (∃ vs e u, Step.GreedyRun (p.run setting) (separator.map (·.parser.run setting)) .list c c.pos
      false (#[] : Array Value) s vs e u) ∧
      ∀ vs e u, Step.GreedyRun (p.run setting) (separator.map (·.parser.run setting)) .list c c.pos
        false (#[] : Array Value) s vs e u →
        (repeated p .list separator atLeast).run setting c s =
            e.outcome (separator.all (·.allowTrailing)) atLeast vs.length
              (fun _ => return .list vs) u ∧
          match FixedArray.ofCapacity n with
          | .error f => (repeated p (.array n) separator atLeast).run setting c s = .error f s
          | .ok _ =>
            (vs.length < n → (repeated p (.array n) separator atLeast).run setting c s =
              e.outcome (separator.all (·.allowTrailing)) atLeast vs.length
                (fun _ => return .array n vs) u) ∧
            (n ≤ vs.length → ∃ q t,
              Step.Matches (p.run setting) (separator.map (·.parser.run setting)) c c.pos s
                (vs.take n) q t ∧ (repeated p (.array n) separator atLeast).run setting c s =
                  .ok (.success (.array n (vs.take n)) q) t) ∧
            ∀ f t, (repeated p (.array n) separator atLeast).run setting c s = .error f t →
              (repeated p .list separator atLeast).run setting c s = .error f t := by
  have hback := forall_separator (P := Step.NeverGoesBack) hseparator
  have hroom : (Sink.list : Sink σ).HasRoom := Sink.hasRoom_of_isUnbounded trivial
  refine ⟨Step.exists_greedyRun hroom hp hback _ hc rfl false (#[] : Array Value) s,
    fun vs e u h => ?_⟩
  have hlist : (repeated p .list separator atLeast).run setting c s =
      e.outcome (separator.all (·.allowTrailing)) atLeast vs.length (fun _ => return .list vs) u :=
    run_repeated_list hp hseparator hc h
  refine ⟨hlist, ?_⟩
  cases hstart : FixedArray.ofCapacity n with
  | error f =>
    show (repeated p (.array n) separator atLeast).run setting c s = _
    rw [run_repeated_eq]
    exact Action.bind_of_error (Sink.start_array_of_error hstart s)
  | ok a =>
    obtain rfl := FixedArray.ofCapacity_eq_ok hstart
    have hfew (h' : vs.length < n) : (repeated p (.array n) separator atLeast).run setting c s =
        e.outcome (separator.all (·.allowTrailing)) atLeast vs.length
          (fun _ => return .array n vs) u := by
      obtain ⟨b, hb, hrun⟩ :=
        h.inArray (n := (n : Int)) (a := .empty n) (show 0 + vs.length < n by omega)
      rw [run_repeated_eq, Step.many_outcome hp hback hc (Sink.start_array_of_ok hstart s) hrun]
      show e.outcome _ atLeast vs.length (fun _ => return b.toValue) u = _
      rw [hb.toValue_eq]
    have hmany (h' : n ≤ vs.length) : ∃ q t,
        Step.Matches (p.run setting) (separator.map (·.parser.run setting)) c c.pos s
          (vs.take n) q t ∧ (repeated p (.array n) separator atLeast).run setting c s =
            .ok (.success (.array n (vs.take n)) q) t := by
      rw [run_repeated_eq]
      exact h.many_fillsArray hp hback hc hstart hn hleast h'
    refine ⟨hfew, hmany, fun f t hraised => ?_⟩
    by_cases h' : vs.length < n
    · rw [hfew h'] at hraised
      rw [hlist]
      exact Step.Ending.outcome_eq_error hraised
    · obtain ⟨q, t', -, hfull⟩ := hmany (by omega)
      rw [hfull] at hraised
      cases hraised

/-- Letters between commas, with a comma too many at the end: the list fails there, while the array
    is full before. -/
theorem run_repeated_array_full :
    let c := start (.sequence (.text #['a', ',', 'a', ',', 'a', ','])) { levels := 50 }
    let letters (sink : Sink Unit) :=
      (repeated (.char 'a') sink (some { parser := .char ',' }) 1).run brackets c ()
    letters .list = .ok (.failure (.position 6)) () ∧
      letters (.array 2) = .ok (.success (.array 2 [.ofChar 'a', .ofChar 'a']) 3) () := by
  intro c letters
  have hchar (x : Char) : ((Parser.char x).run brackets).NeverGoesBack := by
    have heach : (Parser.char x : Parser Unit).Each MovesForward := .node trivial nofun
    exact run_neverGoesBack brackets_movesForward heach
  have hletter₀ : (Parser.char 'a').run brackets (c.moveTo 0) () =
      .ok (.success (.ofChar 'a') 1) () := by with_unfolding_all rfl
  have hcomma₁ : (Parser.char ',').run brackets (c.moveTo 1) () =
      .ok (.success (.ofChar ',') 2) () := by with_unfolding_all rfl
  have hletter₂ : (Parser.char 'a').run brackets (c.moveTo 2) () =
      .ok (.success (.ofChar 'a') 3) () := by with_unfolding_all rfl
  have hcomma₃ : (Parser.char ',').run brackets (c.moveTo 3) () =
      .ok (.success (.ofChar ',') 4) () := by with_unfolding_all rfl
  have hletter₄ : (Parser.char 'a').run brackets (c.moveTo 4) () =
      .ok (.success (.ofChar 'a') 5) () := by with_unfolding_all rfl
  have hcomma₅ : (Parser.char ',').run brackets (c.moveTo 5) () =
      .ok (.success (.ofChar ',') 6) () := by with_unfolding_all rfl
  have hend : (Parser.char 'a').run brackets (c.moveTo 6) () = .ok (.failure (.position 6)) () := by
    with_unfolding_all rfl
  have hrun : Step.GreedyRun ((Parser.char 'a').run brackets)
      (some ((Parser.char ',').run brackets)) .list c 0 false (#[] : Array Value) ()
        [.ofChar 'a', .ofChar 'a', .ofChar 'a']
      (.stopped 6 true #[.ofChar 'a', .ofChar 'a', .ofChar 'a']) () := by
    refine .separated ⟨by decide, (), hletter₀, rfl⟩ rfl hcomma₁ ?_
    refine .separated ⟨by decide, (), hletter₂, rfl⟩ rfl hcomma₃ ?_
    refine .separated ⟨by decide, (), hletter₄, rfl⟩ rfl hcomma₅ ?_
    exact .noElement hend rfl
  obtain ⟨-, hall⟩ := @run_repeated_array Unit _ brackets (.char 'a')
    (some { parser := .char ',' }) 1 (hchar 'a') (by rintro r ⟨⟩; exact hchar ',') c
    (Nat.zero_le _) 2 (by decide) (by decide) ()
  obtain ⟨hlist, -, hmany, -⟩ := hall _ _ _ hrun
  obtain ⟨q, t, hmatches, harray⟩ := hmany (by decide)
  have hsecond : Step.Matches ((Parser.char 'a').run brackets)
      (some ((Parser.char ',').run brackets)) c 0 () [.ofChar 'a', .ofChar 'a'] 3 () :=
        .separated hletter₀ (by decide) rfl hcomma₁ (.last hletter₂ (by decide))
  obtain ⟨-, rfl, rfl⟩ := hmatches.unique hsecond rfl
  exact ⟨hlist, harray⟩

/-- There can be no array with room for so many items, but a list need not have them. -/
theorem run_repeated_array_tooLarge :
    let c := start (.sequence (.text #['a', 'b'])) { levels := 50 }
    let items (sink : Sink Unit) := (repeated .anyItem sink none 0).run brackets c ()
    items .list = .ok (.success (.list [.ofChar 'a', .ofChar 'b']) 2) () ∧
      items (.array 100000000000000000000) = .error .tooLarge () := by
  intro c items
  have hitem : ((anyItem : Parser Unit).run brackets).NeverGoesBack := by
    have heach : (anyItem : Parser Unit).Each MovesForward := .node trivial nofun
    exact run_neverGoesBack brackets_movesForward heach
  have hrun : Step.GreedyRun ((anyItem : Parser Unit).run brackets) none .list c 0 false
      (#[] : Array Value) () [.ofChar 'a', .ofChar 'b']
      (.stopped 2 false #[.ofChar 'a', .ofChar 'b']) () := by
    refine .further (q := 1) ⟨by decide, (), ?_, rfl⟩ rfl ?_
    · with_unfolding_all rfl
    refine .further (q := 2) ⟨by decide, (), ?_, rfl⟩ rfl ?_
    · with_unfolding_all rfl
    refine .noElement (x := .position 2) ?_ rfl
    with_unfolding_all rfl
  refine ⟨?_, ?_⟩
  · exact @run_repeated_list Unit _ brackets .anyItem none 0 hitem nofun c (Nat.zero_le _)
      () () _ _ hrun
  · have hrefused : FixedArray.ofCapacity 100000000000000000000 = .error .tooLarge := by rfl
    show (repeated .anyItem (.array 100000000000000000000) none 0).run brackets c () = _
    rw [run_repeated_eq]
    exact Action.bind_of_error (Sink.start_array_of_error hrefused ())

end Parser

end Itemwise
