import Itemwise.Proofs.Run.Greedy

namespace Itemwise

/-!
# What patterns accept

The literals of some patterns form a set if all of them can be members of one, and then only items
that can be members too are looked up in it.  So whether an item is found depends on more than
whether it equals a literal.

* `Value.isFalseKey` — a tuple or a set that holds something that can change, which seems to be a
  key and is none;
* `Pattern.fits` — what a pattern means: an item equals one of its literals or lies within its
  bounds;
* `Pattern.isHashed`, `Pattern.takes`, `Pattern.refuses` — what the pattern alone does with an item:
  take it, or end in a fault;
* `Compiled.accepts_union`, `Compiled.accepts_single` — what some patterns do together, and what
  each does alone;
* `Parser.run_oneOf_of_some` — so does the parser of an item that one of them fits.
-/

/-- Two tests of which one passes. -/
theorem any_or_any {α : Type} (f g : α → Bool) (xs : List α) :
    (xs.any f || xs.any g) = xs.any fun x => f x || g x := by
  rw [Bool.eq_iff_iff]
  simp only [Bool.or_eq_true, List.any_eq_true, and_or_left, exists_or]

namespace Value

/-- What has a hash cannot be changed. -/
theorem isFrozen_of_isKey {v : Value} (h : v.isKey = true) : v.isFrozen = true := by
  cases v with
  | octets k bs => cases k <;> simp_all [isKey, isFrozen]
  | _ => simp_all [isKey, isFrozen]

/-- Values are all keys if each of them is one. -/
theorem areKeys_eq_all (vs : List Value) : areKeys vs = vs.all isKey := by
  induction vs with
  | nil => rfl
  | cons v vs ih => rw [areKeys, ih, List.all_cons]

/-- Whether a value is of a kind that cannot change and yet holds something that can. -/
def isFalseKey (v : Value) : Bool := v.isFrozen && !v.isKey

/-- Only a tuple or a set can be such a value. -/
theorem isFalseKey_iff {v : Value} :
    v.isFalseKey = true ↔ ∃ vs, (v = .tuple vs ∨ ∃ spots, v = .set vs spots) ∧
      ∃ w ∈ vs, w.isKey = false := by
  cases v with
  | tuple vs => simp [isFalseKey, isFrozen, isKey, areKeys_eq_all]
  | set vs spots => simp [isFalseKey, isFrozen, isKey, areKeys_eq_all]
  | octets k bs => cases k <;> simp [isFalseKey, isFrozen, isKey]
  | _ => simp [isFalseKey, isFrozen, isKey]

end Value

namespace Pattern

/-- Whether the literals of a pattern can be members of a set. -/
def isHashed (p : Pattern) : Bool := Value.areKeys (Compiled.literalsOf p)

/-- Whether an item equals one of the literals of a pattern or lies within its bounds. -/
def fits (p : Pattern) (v : Value) : Bool :=
  v.isMember (Compiled.literalsOf p) || (Compiled.boundsOf p).any (Compiled.isWithin v)

/-- Whether a pattern takes an item when it is compiled alone: literals that form a set are found by
    keys only. -/
def takes (p : Pattern) (v : Value) : Bool :=
  (!p.isHashed || v.isKey) && v.isMember (Compiled.literalsOf p) ||
  (Compiled.boundsOf p).any (Compiled.isWithin v)

/-- Whether a pattern refuses an item when it is compiled alone: it is looked up in a set and cannot
    be. -/
def refuses (p : Pattern) (v : Value) : Bool := p.isHashed && v.isFalseKey

variable {p : Pattern} {v : Value}

/-- A pattern takes what has a hash if it fits it. -/
theorem takes_of_isKey (h : v.isKey = true) : p.takes v = p.fits v := by
  rw [takes, fits, h, Bool.or_true, Bool.true_and]

/-- A pattern that is not hashed takes what it fits. -/
theorem takes_of_not_isHashed (h : p.isHashed = false) : p.takes v = p.fits v := by
  rw [takes, fits, h, Bool.not_false, Bool.true_or, Bool.true_and]

/-- What a pattern takes, it fits. -/
theorem fits_of_takes (h : p.takes v = true) : p.fits v = true := by
  simp only [takes, Bool.or_eq_true, Bool.and_eq_true] at h
  simp only [fits, Bool.or_eq_true]
  exact h.imp_left And.right

end Pattern

namespace Compiled

/-- What is accepted, and what is refused. -/
theorem accepts_eq_ite (c : Compiled) (v : Value) :
    c.accepts v = if c.asSet && v.isFalseKey then .error .wrongKind
      else .ok ((!c.asSet || v.isKey) && v.isMember c.literals || c.ranges.any (isWithin v)) := by
  unfold accepts isLiteral Value.isFalseKey
  cases c.asSet with
  | false => cases v.isMember c.literals <;> rfl
  | true =>
    cases hfrozen : v.isFrozen with
    | true => cases v.isKey <;> cases v.isMember c.literals <;> rfl
    | false =>
      -- what is not frozen is no key either
      have hkey : v.isKey = false := by
        rw [← Bool.not_eq_true]
        intro hkey
        rw [Value.isFrozen_of_isKey hkey] at hfrozen
        cases hfrozen
      rw [hkey]
      rfl

variable (ps : List Pattern)

/-- The literals of patterns are keys if all patterns are hashed. -/
theorem areKeys_literals : Value.areKeys (ps.flatMap literalsOf) = ps.all Pattern.isHashed := by
  rw [Value.areKeys_eq_all, List.all_flatMap]
  exact List.all_congr rfl fun p => (Value.areKeys_eq_all (literalsOf p)).symm

/-- Some patterns together refuse an item only if all of them are hashed; otherwise each takes what
    it fits, hashed or not. -/
theorem accepts_union (v : Value) :
    (union ps).accepts v = if ps.all Pattern.isHashed && v.isFalseKey then .error .wrongKind
      else .ok (ps.any fun p => if ps.all Pattern.isHashed then p.takes v else p.fits v) := by
  have hset : (union ps).asSet = ps.all Pattern.isHashed := areKeys_literals ps
  have hfound : ((!(union ps).asSet || v.isKey) && v.isMember (union ps).literals ||
      (union ps).ranges.any (isWithin v)) = ps.any fun p => if ps.all Pattern.isHashed then
        p.takes v else p.fits v := by
    show (_ && (ps.flatMap literalsOf).any v.same || (ps.flatMap boundsOf).any (isWithin v)) = _
    rw [hset, List.any_flatMap, List.any_flatMap, List.and_any_distrib_left, any_or_any,
      Bool.eq_iff_iff, List.any_eq_true, List.any_eq_true]
    -- what decides is whether this pattern is found among all literals, and all are hashed only if
    -- it is
    refine exists_congr fun p => and_congr_right fun hp => ?_
    cases hall : ps.all Pattern.isHashed with
    | true =>
      rw [if_pos rfl, Pattern.takes, List.all_eq_true.mp hall p hp]
      rfl
    | false =>
      rw [if_neg Bool.false_ne_true, Pattern.fits, Bool.not_false, Bool.true_or, Bool.true_and]
      rfl
  rw [accepts_eq_ite, hfound, hset]

/-- What a pattern does when it is compiled alone. -/
theorem accepts_single (p : Pattern) (v : Value) :
    (union [p]).accepts v = if p.refuses v then .error .wrongKind else .ok (p.takes v) := by
  rw [accepts_union, List.all_cons, List.all_nil, Bool.and_true, List.any_cons, List.any_nil,
    Bool.or_false, ← Pattern.refuses]
  congr 2
  split
  · rfl
  · next h => rw [Pattern.takes_of_not_isHashed (by simpa using h)]

/-- Patterns that are not all empty are compiled to their union. -/
theorem ofPatterns_eq_ok {compiled : Compiled} (h : ofPatterns ps = .ok compiled) :
    compiled = union ps := by
  simp only [ofPatterns] at h
  split at h
  · cases h
  · exact (Except.ok.inj h).symm

end Compiled

/-! ### The parser of an item that fits -/

/-- The result of a test of an item: the item is taken, or the parser fails where it is, or the test
    ends in a fault. -/
def Outcome.tested {σ : Type} (c : Context) (s : σ) (v : Value) :
    Except Fault Bool → EStateM.Result Fault σ (Outcome Value)
  | .error f => .error f s
  | .ok true => .ok (.success v (c.pos + 1)) s
  | .ok false => .ok (.failure c.pos) s

/-- Different results of a test show in the outcome. -/
theorem Outcome.tested_inj {σ : Type} {c : Context} {s : σ} {v : Value} {a b : Except Fault Bool} :
    tested c s v a = tested c s v b ↔ a = b := by
  constructor
  · intro h
    rcases a with f | _ | _ <;> rcases b with g | _ | _ <;> cases h <;> rfl
  · rintro rfl
    rfl

namespace Parser

variable {σ : Type} [Memory σ] (setting : Setting σ) {c : Context} {items : Items}
  (hitems : c.items = .sequence items)
include hitems

/-- At the end of the input nothing fits. -/
theorem run_oneOf_of_none (ps : List Pattern) (compiled : Compiled) {s : σ}
    (h : items.get? c.pos = none) :
    (oneOf ps compiled).run setting c s = .ok (.failure c.pos) s := by
  rw [run_leaf setting rfl]
  unfold Leaf.oneOf Leaf.satisfy Context.item?
  rw [hitems, Input.item?_sequence, h]
  rfl

/-- An item is tested as it is in the user state, and nothing else decides. -/
theorem run_oneOf_of_some (ps : List Pattern) (compiled : Compiled) {s : σ} {v : Value}
    (h : items.get? c.pos = some v) :
    (oneOf ps compiled).run setting c s =
      Outcome.tested c s v (compiled.accepts (Memory.whole s v)) := by
  have hnext : c.pos + 1 ≤ c.items.size := by
    rw [hitems]
    exact Items.lt_of_get? h
  rw [run_leaf setting rfl]
  unfold Leaf.oneOf Leaf.satisfy Context.item?
  rw [hitems, Input.item?_sequence, h, Step.ok_bind]
  simp only [Leaf.accept_of_le v hnext]
  rcases compiled.accepts (Memory.whole s v) with f | _ | _ <;> rfl

end Parser

end Itemwise
