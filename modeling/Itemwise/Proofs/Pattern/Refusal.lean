import Itemwise.Parser.Parse
import Itemwise.Proofs.Pattern.Acceptance

namespace Itemwise

/-!
# What patterns refuse

The literals of patterns are looked up in a set if they form one, and a tuple that holds a list
cannot be looked up.  Patterns end in a fault on such items and on no others.

* `Pattern.settles` — whether a pattern alone decides about a value, by taking or by refusing it;
* `Step.select_patterns` — the first arm that does decides a choice by value;
* `Parser.refuses_iff` — where an item that some patterns fit, and a choice by value with patterns,
  end in such a fault.
-/

/-- Whether a pattern alone decides about a value: it takes it, or it ends in a fault. -/
def Pattern.settles (p : Pattern) (v : Value) : Bool := p.refuses v || p.takes v

/-- What a pattern does with a value, told by whether it decides about it. -/
theorem Compiled.accepts_settles (p : Pattern) (v : Value) :
    (union [p]).accepts v =
      if p.settles v then if p.refuses v then .error .wrongKind else .ok true else .ok false := by
  rw [accepts_single, Pattern.settles]
  cases p.refuses v <;> cases p.takes v <;> rfl

/-! ### Choices by value -/

/-- What is bound succeeds if both parts do. -/
theorem Fault.bind_eq_ok {α β : Type} {a : Except Fault α} {k : α → Except Fault β} {y : β}
    (h : (a >>= k) = .ok y) :
    ∃ x, a = .ok x ∧ k x = .ok y := by
  cases a with
  | error f => cases h
  | ok x => exact ⟨x, rfl, h⟩

/-- The first arm that decides about the value is selected, or ends the choice. -/
theorem Step.select_patterns {σ : Type} (arms : List (Pattern × Step σ))
    (default : Option (Step σ)) (v : Value) :
    select (arms.map fun arm => ((Compiled.union [arm.1]).accepts, arm.2)) default v =
      match arms.find? fun arm => arm.1.settles v with
      | some arm => if arm.1.refuses v then .error .wrongKind else .ok (some arm.2)
      | none => .ok default := by
  induction arms with
  | nil => rfl
  | cons arm arms ih =>
    rw [List.map_cons, select, Compiled.accepts_settles, List.find?_cons]
    cases arm.1.settles v with
    | false => exact ih
    | true =>
      cases hrefuses : arm.1.refuses v with
      | false => simp only [if_true, Bool.false_eq_true, if_false, hrefuses]
      | true => simp only [if_true, hrefuses]

namespace Parser

variable {σ : Type}

/-- The test of a pattern is that of the union of it alone. -/
theorem Selector.eq_of_toTest {p : Pattern} {test : Test}
    (h : (Selector.pattern p).toTest = .ok test) :
    test = (Compiled.union [p]).accepts := by
  have h : (Compiled.ofPatterns [p]).map Compiled.accepts = .ok test := h
  cases hcompiled : Compiled.ofPatterns [p] with
  | error f =>
    rw [hcompiled] at h
    cases h
  | ok compiled =>
    rw [hcompiled, Compiled.ofPatterns_eq_ok _ hcompiled] at h
    exact (Except.ok.inj h).symm

/-- The arms of a choice by value with patterns are tested by the compiled forms of these. -/
theorem eq_of_choose? {p chooser : Parser σ} {arms : List (Pattern × Parser σ)}
    {default : Option (Parser σ)}
    (h : choose? p (arms.map fun arm => (.pattern arm.1, arm.2)) default = .ok chooser) :
    chooser = .choose p (arms.map fun arm => ((Compiled.union [arm.1]).accepts, arm.2))
      default := by
  have harms (arms : List (Pattern × Parser σ)) (tests : List (Test × Parser σ))
      (h : (arms.map fun arm => (Selector.pattern arm.1, arm.2)).mapM
        (fun arm => do return (← arm.1.toTest, arm.2)) = (.ok tests : Except Fault _)) :
          tests = arms.map fun arm => ((Compiled.union [arm.1]).accepts, arm.2) := by
    induction arms generalizing tests with
    | nil => exact (Except.ok.inj h).symm
    | cons arm arms ih =>
      rw [List.map_cons, List.mapM_cons] at h
      -- the pattern of the first arm is compiled, and then those of the others
      obtain ⟨built, hbuilt, h⟩ := Fault.bind_eq_ok h
      obtain ⟨test, htest, hbuilt⟩ := Fault.bind_eq_ok hbuilt
      obtain ⟨rest, hrest, h⟩ := Fault.bind_eq_ok h
      rw [← Except.ok.inj h, ← Except.ok.inj hbuilt, Selector.eq_of_toTest htest, ih rest hrest,
        List.map_cons]
  unfold choose? at h
  split at h
  · cases h
  · obtain ⟨tests, htests, h⟩ := Fault.bind_eq_ok h
    rw [← Except.ok.inj h, harms arms tests htests]

variable [Memory σ] (setting : Setting σ)

/-- A choice by value with patterns, after the value has been read. -/
theorem run_choose {p : Parser σ} {arms : List (Pattern × Parser σ)} {default : Option (Parser σ)}
    {c : Context} {s t : σ} {v : Value} {q : Nat} (hp : p.run setting c s = .ok (.success v q) t) :
    (choose p (arms.map fun arm => ((Compiled.union [arm.1]).accepts, arm.2)) default).run setting c
      s =
      match arms.find? fun arm => arm.1.settles (Memory.whole t v) with
      | some arm =>
        if arm.1.refuses (Memory.whole t v) then .error .wrongKind t
      else arm.2.run setting (c.moveTo q) t
      | none => default.elim (.ok (.failure c.pos) t) fun d => d.run setting (c.moveTo q) t := by
  have hrun : (choose p (arms.map fun arm => ((Compiled.union [arm.1]).accepts, arm.2)) default).run
      setting = Step.choose (p.run setting)
        ((arms.map fun arm => (arm.1, arm.2.run setting)).map
          fun arm => ((Compiled.union [arm.1]).accepts, arm.2))
        (default.map (run setting)) := by
    rw [run_eq]
    show Step.choose (eval setting _ p) (evalArms setting _ _) (evalOption setting _ default) = _
    rw [eval_run, evalArms_run, evalOption_run, List.map_map, List.map_map]
    rfl
  rw [hrun]
  show (p.run setting c >>= _) s = _
  rw [Action.bind_of_ok hp]
  -- the value is looked at in the state in which it has been read
  show (Action.ofExcept (Step.select _ _ (Memory.whole t v)) >>= _) t = _
  rw [Step.select_patterns, List.find?_map]
  -- whether an arm decides does not depend on its parser
  have hfirst : ((fun arm : Pattern × Step σ => arm.1.settles (Memory.whole t v)) ∘
      fun arm => (arm.1, arm.2.run setting)) = fun arm : Pattern × Parser σ =>
        arm.1.settles (Memory.whole t v) := rfl
  rw [hfirst]
  cases arms.find? fun arm => arm.1.settles (Memory.whole t v) with
  | none => cases default <;> rfl
  | some arm =>
    show (Action.ofExcept (if arm.1.refuses (Memory.whole t v) then _ else _) >>= _) t =
      if arm.1.refuses (Memory.whole t v) then _ else _
    cases arm.1.refuses (Memory.whole t v) <;> rfl

/-- **What patterns refuse.** Compiled patterns end in a fault on the values that seem to be keys
    and are none, if all their literals are keys, and on no others.  So does the parser of an item
    that one of them fits.  In a choice by value with patterns the first arm that takes or refuses
    the value decides: if it refuses it, the choice ends in a fault in the state in which the value
    has been read, and otherwise an arm, the default or a failure is what it comes to. -/
theorem refuses_iff {ps : List Pattern} {compiled : Compiled}
    (hcompiled : Compiled.ofPatterns ps = .ok compiled) {p chooser : Parser σ}
    {arms : List (Pattern × Parser σ)} {default : Option (Parser σ)}
    (hchooser : choose? p (arms.map fun arm => (.pattern arm.1, arm.2)) default = .ok chooser)
    {c : Context} {items : Items} (hitems : c.items = .sequence items) (s : σ) :
    (∀ v f, compiled.accepts v = .error f ↔ f = .wrongKind ∧ ps.all Pattern.isHashed = true ∧
      v.isFalseKey = true) ∧
    (∀ f t, (oneOf ps compiled).run setting c s = .error f t ↔
      f = .wrongKind ∧ t = s ∧ ps.all Pattern.isHashed = true ∧
        ∃ v, items.get? c.pos = some v ∧ (Memory.whole s v).isFalseKey = true) ∧
    ∀ v q t, p.run setting c s = .ok (.success v q) t →
      chooser.run setting c s =
        match arms.find? fun arm => arm.1.settles (Memory.whole t v) with
        | some arm =>
          if arm.1.refuses (Memory.whole t v) then .error .wrongKind t
        else arm.2.run setting (c.moveTo q) t
        | none => default.elim (.ok (.failure c.pos) t) fun d => d.run setting (c.moveTo q) t := by
  obtain rfl := Compiled.ofPatterns_eq_ok ps hcompiled
  have haccepts (v : Value) (f : Fault) : (Compiled.union ps).accepts v = .error f ↔
      f = .wrongKind ∧ ps.all Pattern.isHashed = true ∧ v.isFalseKey = true := by
    rw [Compiled.accepts_union, ← Bool.and_eq_true]
    split
    · next h => simp [h, eq_comm]
    · next h => simp [h]
  refine ⟨haccepts, fun f t => ?_, fun v q t hp => ?_⟩
  · cases hv : items.get? c.pos with
    | none =>
      rw [run_oneOf_of_none setting hitems _ _ hv]
      simp
    | some v =>
      have htested : Outcome.tested c s v ((Compiled.union ps).accepts (Memory.whole s v)) =
          .error f t ↔ (Compiled.union ps).accepts (Memory.whole s v) = .error f ∧ t = s := by
        rcases (Compiled.union ps).accepts (Memory.whole s v)
          with g | _ | _ <;> simp [Outcome.tested, eq_comm]
      rw [run_oneOf_of_some setting hitems _ _ hv, htested, haccepts]
      constructor
      · rintro ⟨⟨hf, hhashed, hfalse⟩, ht⟩
        exact ⟨hf, ht, hhashed, v, rfl, hfalse⟩
      · rintro ⟨hf, ht, hhashed, w, hw, hfalse⟩
        obtain rfl := Option.some.inj hw
        exact ⟨⟨hf, hhashed, hfalse⟩, ht⟩
  · rw [eq_of_choose? hchooser]
    exact run_choose setting hp

/-- A tuple that holds a list is no member of a pattern of one list, and is refused by the pattern
    after it. -/
theorem refuses_iff_tuple :
    (choose .anyItem [((Compiled.union [.item (.list [])]).accepts, .failure),
        ((Compiled.union [.item (.int 1)]).accepts, .rest)] (some .rest)).run brackets
          (start (.sequence (.list #[.tuple [.int 1, .list [.int 2]]])) { levels := 50 }) () =
      .error .wrongKind () := by
  have hcompiled : Compiled.ofPatterns [.item (.int 1)] = .ok (Compiled.union [.item (.int 1)]) :=
    rfl
  have hchooser : choose? .anyItem
      ([(Pattern.item (.list []), .failure), (.item (.int 1), .rest)].map
        fun arm => (Selector.pattern arm.1, arm.2)) (some .rest) =
      .ok (choose .anyItem
        [((Compiled.union [.item (.list [])]).accepts, .failure),
          ((Compiled.union [.item (.int 1)]).accepts, .rest)]
        (some .rest) : Parser Unit) := rfl
  obtain ⟨-, -, hchoose⟩ := refuses_iff brackets hcompiled hchooser
    (c := start (.sequence (.list #[.tuple [.int 1, .list [.int 2]]])) { levels := 50 }) rfl ()
  have hread : (anyItem : Parser Unit).run brackets
      (start (.sequence (.list #[.tuple [.int 1, .list [.int 2]]])) { levels := 50 }) () =
        .ok (.success (.tuple [.int 1, .list [.int 2]]) 1) () := by with_unfolding_all rfl
  refine (hchoose _ _ _ hread).trans ?_
  with_unfolding_all rfl

/-- A tuple that holds a list is not equal to the number one; but a pattern of that number does not
    pass it over. -/
theorem accepts_nested :
    Compiled.ofPatterns [.item (.int 1)] = .ok (Compiled.union [.item (.int 1)]) ∧
      (Compiled.union [.item (.int 1)]).accepts (.tuple [.int 1, .list [.int 2]]) =
        .error .wrongKind ∧
      (oneOf [.item (.int 1)] (Compiled.union [.item (.int 1)])).run brackets
          (start (.sequence (.list #[.tuple [.int 1, .list [.int 2]]])) { levels := 50 }) () =
            .error .wrongKind () ∧
      (Value.tuple [.int 1, .list [.int 2]]).isMember (Value.int 1).equivalents = false := by
  refine ⟨rfl, ?_, ?_, ?_⟩
  · with_unfolding_all rfl
  · with_unfolding_all rfl
  · with_unfolding_all rfl

end Parser

end Itemwise
