import Itemwise.Parser.Parse
import Itemwise.Proofs.Pattern.Refusal
import Itemwise.Proofs.Run.Alternatives

namespace Itemwise

/-!
# Patterns together and apart

Some patterns are compiled together into one, and each of them can be compiled alone and be an
alternative of a choice.  This is not always the same: one pattern whose literals form no set makes
the literals of the others be found among all items.

* `Pattern.Divide` — the items about which the two differ;
* `Pattern.accepts_eq_anyM` — on all other items, and only on them, patterns accept together what
  they accept one by one;
* `Parser.run_union` — so do the parser of the patterns together and the choice between the parsers
  of each.
-/

namespace Pattern

/-- Patterns differ about an item if some of them are hashed and some are not, and the item is no
    key: either it seems to be one, and the first pattern that is hashed or fits it is hashed; or it
    does not, and it fits hashed patterns by their literals only. -/
def Divide (ps : List Pattern) (v : Value) : Prop :=
  ps.all isHashed = false ∧ v.isKey = false ∧
    if v.isFrozen then ∃ p, ps.find? (fun p => p.isHashed || p.fits v) = some p ∧ p.isHashed = true
    else ps.any (·.fits v) = true ∧ ps.any (·.takes v) = false

variable {ps : List Pattern} {v : Value}

/-- Compiled alone and tried in order, the first pattern that takes or refuses an item decides. -/
theorem anyM_accepts (ps : List Pattern) (v : Value) :
    (ps.anyM fun p => (Compiled.union [p]).accepts v) =
      match ps.find? (·.settles v) with
      | some p => if p.refuses v then .error .wrongKind else .ok true
      | none => .ok false := by
  induction ps with
  | nil => rfl
  | cons p ps ih =>
    rw [List.anyM_cons, Compiled.accepts_settles, List.find?_cons]
    cases p.settles v with
    | false => exact ih
    | true =>
      show ((if p.refuses v then .error .wrongKind else .ok true : Except Fault Bool) >>= _) =
        if p.refuses v then .error .wrongKind else .ok true
      cases p.refuses v <;> rfl

/-- Where no pattern refuses, one of them takes the item or none does. -/
theorem anyM_accepts_of_not_refuses (h : v.isFalseKey = false) :
    (ps.anyM fun p => (Compiled.union [p]).accepts v) = .ok (ps.any (·.takes v)) := by
  have haccepts (p : Pattern) : (Compiled.union [p]).accepts v = pure (p.takes v) := by
    rw [Compiled.accepts_single, refuses, h, Bool.and_false]
    rfl
  simp only [haccepts, List.anyM_pure]
  rfl

/-- What has a hash is taken by one of some patterns if one of them fits it. -/
theorem any_takes_of_isKey (h : v.isKey = true) : ps.any (·.takes v) = ps.any (·.fits v) :=
  List.any_congr rfl fun _ => takes_of_isKey h

/-- A value that seems to be a key is decided about by the patterns that are hashed, and by those
    that fit it. -/
theorem settles_of_isFalseKey (h : v.isFalseKey = true) (p : Pattern) :
    p.settles v = (p.isHashed || p.fits v) := by
  rw [settles, refuses, h, Bool.and_true]
  cases hhashed : p.isHashed with
  | true => rfl
  | false => rw [takes_of_not_isHashed hhashed]

/-- What some pattern takes alone, some pattern fits. -/
theorem any_fits_of_any_takes (h : ps.any (·.takes v) = true) : ps.any (·.fits v) = true := by
  obtain ⟨p, hp, htakes⟩ := List.any_eq_true.mp h
  exact List.any_eq_true.mpr ⟨p, hp, fits_of_takes htakes⟩

/-- Where no pattern refuses, together and apart differ about an item that patterns fit and that
    none of them takes alone. -/
theorem accepts_eq_anyM_of_not_refuses (h : v.isFalseKey = false) :
    (Compiled.union ps).accepts v = (ps.anyM fun p => (Compiled.union [p]).accepts v) ↔
      ¬ Divide ps v := by
  rw [Compiled.accepts_union, anyM_accepts_of_not_refuses h, h, Bool.and_false,
    if_neg Bool.false_ne_true, Except.ok.injEq, Divide]
  cases ps.all isHashed with
  | true => simp
  | false =>
    -- together, all patterns take what they fit; apart, the hashed ones take keys only
    simp only [Bool.false_eq_true, if_false, true_and]
    cases hkey : v.isKey with
    | true => simp [any_takes_of_isKey hkey]
    | false =>
      have hfrozen : v.isFrozen = false := by
        rwa [Value.isFalseKey, hkey, Bool.not_false, Bool.and_true] at h
      have hfits : ps.any (·.takes v) = true → ps.any (·.fits v) = true := any_fits_of_any_takes
      rw [hfrozen, if_neg Bool.false_ne_true]
      cases htakes : ps.any (·.takes v) with
      | true => simp [hfits htakes]
      | false => simp

/-- An item that seems to be a key is refused by all hashed patterns together, and by the first one
    apart. -/
theorem accepts_eq_anyM_of_refuses (hne : ps ≠ []) (h : v.isFalseKey = true) :
    (Compiled.union ps).accepts v = (ps.anyM fun p => (Compiled.union [p]).accepts v) ↔
      ¬ Divide ps v := by
  obtain ⟨hfrozen, hkey⟩ : v.isFrozen = true ∧ v.isKey = false := by
    simpa [Value.isFalseKey] using h
  have hsettles : (fun p : Pattern => p.settles v) = fun p => p.isHashed || p.fits v :=
    funext (settles_of_isFalseKey h)
  have hrefuses (p : Pattern) : p.refuses v = p.isHashed := by rw [refuses, h, Bool.and_true]
  rw [Compiled.accepts_union, anyM_accepts, hsettles, h, Bool.and_true, Divide, hfrozen,
    hkey, if_pos rfl]
  cases hall : ps.all isHashed with
  | true =>
    -- the first pattern is hashed
    cases ps with
    | nil => exact absurd rfl hne
    | cons p ps =>
      have hp : p.isHashed = true := List.all_eq_true.mp hall p List.mem_cons_self
      simp [hp, hrefuses]
  | false =>
    -- together, nothing is refused; apart, the first pattern that is hashed or fits the item
    -- decides
    rw [if_neg Bool.false_ne_true]
    simp only [Bool.false_eq_true, if_false, true_and, hrefuses]
    cases hfind : ps.find? fun p => p.isHashed || p.fits v with
    | none =>
      have hnone : ps.any (·.fits v) = false := by
        rw [List.any_eq_false]
        intro p hp hfits
        exact List.find?_eq_none.mp hfind p hp (by rw [hfits, Bool.or_true])
      simp [hnone]
    | some p =>
      cases hhashed : p.isHashed with
      | true => simp [hhashed]
      | false =>
        have hfits : p.fits v = true := by simpa [hhashed] using List.find?_some hfind
        have hany : ps.any (·.fits v) = true :=
          List.any_eq_true.mpr ⟨p, List.mem_of_find?_eq_some hfind, hfits⟩
        simp [hhashed, hany]

/-- **Patterns accept together what they accept one by one**, except where they differ. -/
theorem accepts_eq_anyM (hne : ps ≠ []) :
    (Compiled.union ps).accepts v = (ps.anyM fun p => (Compiled.union [p]).accepts v) ↔
      ¬ Divide ps v := by
  cases h : v.isFalseKey with
  | false => exact accepts_eq_anyM_of_not_refuses h
  | true => exact accepts_eq_anyM_of_refuses hne h

/-- What one pattern accepts alone is accepted by all of them together. -/
theorem accepts_union_of_single {p : Pattern} (hp : p ∈ ps)
    (h : (Compiled.union [p]).accepts v = .ok true) :
    (Compiled.union ps).accepts v = .ok true := by
  rw [Compiled.accepts_single] at h
  cases hrefuses : p.refuses v with
  | true =>
    rw [hrefuses] at h
    cases h
  | false =>
    rw [hrefuses] at h
    have htakes : p.takes v = true := Except.ok.inj h
    -- if all of them are hashed then this one is, and would refuse what they refuse
    have hlookup : (ps.all isHashed && v.isFalseKey) = false := by
      rw [Bool.and_eq_false_imp]
      intro hall
      rwa [refuses, List.all_eq_true.mp hall p hp, Bool.true_and] at hrefuses
    rw [Compiled.accepts_union, hlookup, if_neg Bool.false_ne_true]
    refine congrArg Except.ok (List.any_eq_true.mpr ⟨p, hp, ?_⟩)
    split
    · exact htakes
    · exact fits_of_takes htakes

end Pattern

namespace Compiled

variable {ps : List Pattern}

/-- Patterns are compiled unless all of them are empty. -/
theorem ofPatterns_of_nonempty {p : Pattern} (hp : p ∈ ps) {compiled : Compiled}
    (h : ofPatterns [p] = .ok compiled) :
    ofPatterns ps = .ok (union ps) := by
  have hempty (ps : List Pattern) : ofPatterns ps =
      if (ps.flatMap literalsOf).isEmpty && (ps.flatMap boundsOf).isEmpty then
        .error (.emptyPatternSet "item_matches")
      else .ok (union ps) := rfl
  rw [hempty] at h ⊢
  split at h
  · cases h
  · next hsome =>
    refine if_neg fun hnone => hsome ?_
    simp only [Bool.and_eq_true, List.isEmpty_iff, List.flatMap_eq_nil_iff, List.mem_singleton,
      forall_eq] at hnone ⊢
    exact ⟨hnone.1 p hp, hnone.2 p hp⟩

end Compiled

/-! ### Alternatives -/

namespace Parser

variable {σ : Type} [Memory σ] (setting : Setting σ)

section Alternatives

variable {c : Context} {items : Items} (hitems : c.items = .sequence items)
include hitems

/-- At the end of the input no pattern has an item to fit. -/
theorem choice_matching_of_none (ps : List Pattern) {s : σ} (h : items.get? c.pos = none) :
    Step.choice (ps.map fun p => (matching [p]).run setting) c s = .ok (.failure c.pos) s := by
  induction ps with
  | nil => rfl
  | cons p ps ih =>
    exact (Step.choice_cons_of_failure (run_oneOf_of_none setting hitems _ _ h)).trans ih

/-- A choice between patterns tests them in order. -/
theorem choice_matching_of_some (ps : List Pattern) {s : σ} {v : Value}
    (h : items.get? c.pos = some v) :
    Step.choice (ps.map fun p => (matching [p]).run setting) c s =
      Outcome.tested c s v (ps.anyM fun p => (Compiled.union [p]).accepts (Memory.whole s v)) := by
  induction ps with
  | nil => rfl
  | cons p ps ih =>
    have hp : (matching [p]).run setting c s =
        Outcome.tested c s v ((Compiled.union [p]).accepts (Memory.whole s v)) :=
      run_oneOf_of_some setting hitems _ _ h
    simp only [List.anyM_cons]
    rcases haccepts : (Compiled.union [p]).accepts (Memory.whole s v) with f | _ | _
    · rw [haccepts] at hp
      exact Step.choice_cons_of_error hp
    · rw [haccepts] at hp
      exact (Step.choice_cons_of_failure hp).trans ih
    · rw [haccepts] at hp
      exact Step.choice_cons_of_success hp

end Alternatives

/-- **Patterns together are the choice between them, except where they differ.** For patterns of
    which each can be compiled alone, they can be compiled together, and the parser of an item that
    one of them fits does the same as the choice between the parsers of each, from everywhere but
    before an item about which the patterns differ; there it never does the same.  An item that one
    pattern takes alone is always taken by all of them together. -/
theorem run_union {ps : List Pattern} (hne : ps ≠ [])
    (hps : ∀ p ∈ ps, ∃ q, (oneOf? [p] : Except Fault (Parser σ)) = .ok q) :
    (oneOf? ps : Except Fault (Parser σ)) = .ok (matching ps) ∧
      (∀ p ∈ ps, (oneOf? [p] : Except Fault (Parser σ)) = .ok (matching [p])) ∧
      ∀ c items s, c.items = .sequence items →
        ((matching ps).run setting c s = (anyOf (ps.map fun p => matching [p])).run setting c s ↔
          ∀ v, items.get? c.pos = some v → ¬ Pattern.Divide ps (Memory.whole s v)) ∧
        ∀ p ∈ ps, ∀ v q t, (matching [p]).run setting c s = .ok (.success v q) t →
          (matching ps).run setting c s = .ok (.success v q) t := by
  have hcompiled (p : Pattern) (hp : p ∈ ps) :
      ∃ compiled, Compiled.ofPatterns [p] = .ok compiled := by
    obtain ⟨q, hq⟩ := hps p hp
    cases hcompiled : Compiled.ofPatterns [p] with
    | ok compiled => exact ⟨compiled, rfl⟩
    | error f =>
      rw [oneOf?, hcompiled] at hq
      cases hq
  refine ⟨?_, fun p hp => ?_, fun c items s hitems => ⟨?_, fun p hp v q t h => ?_⟩⟩
  · obtain ⟨p, hp⟩ := List.exists_mem_of_ne_nil ps hne
    obtain ⟨compiled, h⟩ := hcompiled p hp
    rw [oneOf?, Compiled.ofPatterns_of_nonempty hp h]
    rfl
  · obtain ⟨compiled, h⟩ := hcompiled p hp
    rw [oneOf?, h, Compiled.ofPatterns_eq_ok _ h]
    rfl
  · rw [run_anyOf, List.map_map]
    show _ = Step.choice (ps.map fun p => (matching [p]).run setting) c s ↔ _
    cases hv : items.get? c.pos with
    | none =>
      rw [choice_matching_of_none setting hitems ps hv, matching,
        run_oneOf_of_none setting hitems _ _ hv]
      simp
    | some v =>
      rw [choice_matching_of_some setting hitems ps hv, matching,
        run_oneOf_of_some setting hitems _ _ hv, Outcome.tested_inj, Pattern.accepts_eq_anyM hne]
      simp
  · cases hv : items.get? c.pos with
    | none =>
      rw [matching, run_oneOf_of_none setting hitems _ _ hv] at h
      cases h
    | some w =>
      rw [matching, run_oneOf_of_some setting hitems _ _ hv] at h ⊢
      rcases haccepts : (Compiled.union [p]).accepts (Memory.whole s w) with f | _ | _
      · rw [haccepts] at h
        cases h
      · rw [haccepts] at h
        cases h
      · rw [haccepts] at h
        rw [Pattern.accepts_union_of_single hp haccepts]
        exact h

/-- A byte is a key, so it makes no difference for it that a list is none. -/
theorem run_union_octet :
    (matching [.item (.octets .fixed [0x61]), .item (.list [.int 1])]).run brackets
        (start (.sequence (.list #[.octets .fixed [0x61]])) { levels := 50 }) () =
      (anyOf [matching [.item (.octets .fixed [0x61])], matching [.item (.list [.int 1])]]).run
        brackets (start (.sequence (.list #[.octets .fixed [0x61]])) { levels := 50 }) () := by
  have hps : ∀ p ∈ [Pattern.item (.octets .fixed [0x61]), .item (.list [.int 1])],
      ∃ q, (oneOf? [p] : Except Fault (Parser Unit)) = .ok q := by
    intro p hp
    obtain rfl | rfl : p = .item (.octets .fixed [0x61]) ∨ p = .item (.list [.int 1]) := by
      simpa using hp
    · exact ⟨_, rfl⟩
    · exact ⟨_, rfl⟩
  obtain ⟨-, -, hrun⟩ := run_union brackets (by simp) hps
  refine (hrun (start (.sequence (.list #[.octets .fixed [0x61]])) { levels := 50 }) _ () rfl).1.mpr
    fun v hv h => ?_
  obtain rfl := Option.some.inj hv
  cases h.2.1

/-- A byte sequence that can grow is no key, and is taken only if a list is expected beside its
    byte. -/
theorem run_union_growable :
    (oneOf? [.item (.octets .fixed [0x61])] : Except Fault (Parser Unit)) =
      .ok (matching [.item (.octets .fixed [0x61])]) ∧
      (oneOf? [.item (.list [.int 1])] : Except Fault (Parser Unit)) =
        .ok (matching [.item (.list [.int 1])]) ∧
      (matching [.item (.octets .fixed [0x61]), .item (.list [.int 1])]).run brackets
          (start (.sequence (.list #[.octets .growable [0x61]])) { levels := 50 }) () =
        .ok (.success (.octets .growable [0x61]) 1) () ∧
      (anyOf [matching [.item (.octets .fixed [0x61])], matching [.item (.list [.int 1])]]).run
          brackets (start (.sequence (.list #[.octets .growable [0x61]])) { levels := 50 }) () =
            .ok (.failure (.position 0)) () := by
  refine ⟨rfl, rfl, ?_, ?_⟩
  · with_unfolding_all rfl
  · with_unfolding_all rfl

end Parser

end Itemwise
