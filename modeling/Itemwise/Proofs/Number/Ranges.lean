import Itemwise.Proofs.Number.Decimals

namespace Itemwise

/-!
# Numbers that fit a type

A parser of the numbers of a type reads the same number as the one without a bound, and then fails
unless it fits.

* `IntKind.InRange` — the range of a type, with `IntKind.fits_iff`;
* `bounded_eq_success_iff` — a number is accepted where it is in range;
* `Parser.run_integer_or`, `Parser.run_decimal_or` — what stands at a position decides the outcomes
  for all types there;
* `Parser.run_inRange` — a number is accepted if and only if it is without a bound and is in range.
-/

namespace IntKind

/-- The values of a type with `w` bits: those from zero to `2 ^ w - 1`, or from `-2 ^ (w - 1)` to
    `2 ^ (w - 1) - 1` if it is signed. -/
def InRange (k : IntKind) (n : Int) : Prop :=
  if k.signed then -Int.pow 2 (k.bits - 1) ≤ n ∧ n ≤ Int.pow 2 (k.bits - 1) - 1 else 0 ≤ n ∧
    n ≤ Int.pow 2 k.bits - 1

/-- An integer fits a kind if it is in its range. -/
theorem fits_iff {k : IntKind} {n : Int} : k.fits n = true ↔ k.InRange n := by
  have hpow (w : Nat) : ((Nat.pow 2 w : Nat) : Int) = Int.pow 2 w := Int.natCast_pow 2 w
  rw [fits, Bool.and_eq_true, decide_eq_true_eq, decide_eq_true_eq, least, greatest, InRange]
  split <;> simp only [hpow]

instance (k : IntKind) (n : Int) : Decidable (k.InRange n) := decidable_of_iff _ fits_iff

end IntKind

section Bounded

variable {k : IntKind} {n : Int} {v : Value} {start stop : Nat}

/-- An integer in range is yielded as it is. -/
theorem bounded_of_inRange (h : k.InRange n) : bounded n v start stop (some k) = .success v stop :=
  if_pos (IntKind.fits_iff.mpr h)

/-- An integer out of range is a failure at the start. -/
theorem bounded_of_not_inRange (h : ¬ k.InRange n) :
    bounded n v start stop (some k) = .failure start :=
  if_neg fun hfits => h (IntKind.fits_iff.mp hfits)

/-- A success of the checked kind is one of the unchecked kind in range. -/
theorem bounded_eq_success_iff {w : Value} {q : Nat} :
    bounded n v start stop (some k) = .success w q ↔ k.InRange n ∧ w = v ∧ q = stop := by
  by_cases h : k.InRange n
  · rw [bounded_of_inRange h, Outcome.success.injEq, eq_comm, eq_comm (a := stop)]
    exact (and_iff_right h).symm
  · rw [bounded_of_not_inRange h]
    exact iff_of_false nofun fun hw => h hw.1

end Bounded

namespace Parser

open Leaf Value

variable {σ : Type} [Memory σ] (setting : Setting σ) {c : Context} {items : Items}

/-- An integer stands at a position for all types, or for none. -/
theorem run_integer_or (hitems : c.items = .sequence items) (signed : Bool) (s : σ) :
    (∀ kind, (Parser.integer signed kind).run setting c s = .ok (.failure c.pos) s) ∨
    ∃ n q, ∀ kind, (Parser.integer signed kind).run setting c s =
      .ok (bounded n (.int n) c.pos q kind) s := by
  obtain ⟨negative, vs, hsign⟩ :=
    exists_sign (IsMinus (Memory.whole s)) signed (items.toList.drop c.pos)
  obtain ⟨ds, rest, hrun⟩ := exists_digitRun vs
  have heq (kind : Option IntKind) := integer_eq hitems kind hsign hrun
  by_cases hds : ds = []
  · left
    intro kind
    rw [run_leaf setting rfl, heq kind, if_pos hds]
    rfl
  · right
    refine ⟨signedValue negative ds, c.pos + (signText negative ++ ds).length, fun kind => ?_⟩
    rw [run_leaf setting rfl, heq kind, if_neg hds]
    rfl

/-- A decimal number stands at a position for all types, or for none, and an integer with it: its
    sign and digits. -/
theorem run_decimal_or (hitems : c.items = .sequence items) (s : σ) :
    (∀ kind, (Parser.decimal kind).run setting c s = .ok (.failure c.pos) s ∧
      (Parser.integer true kind).run setting c s = .ok (.failure c.pos) s) ∨
    ∃ negative ds f, (∀ d ∈ ds, d.isDigit = true) ∧ (∀ d ∈ f.head?, d = '.') ∧ ∀ kind,
      (Parser.decimal kind).run setting c s = .ok (bounded (signedValue negative ds)
        (.float (Reading.float (signText negative ++ ds ++ f))) c.pos
        (c.pos + (signText negative ++ ds ++ f).length) kind) s ∧
      (Parser.integer true kind).run setting c s = .ok (bounded (signedValue negative ds)
        (.int (signedValue negative ds)) c.pos (c.pos + (signText negative ++ ds).length) kind)
          s := by
  obtain ⟨negative, vs, hsign⟩ :=
    exists_sign (IsMinus (Memory.whole s)) true (items.toList.drop c.pos)
  obtain ⟨ds, rest, hrun⟩ := exists_digitRun vs
  obtain ⟨f, hfraction⟩ := exists_fraction (IsPoint (Memory.whole s)) rest
  have hdecimal (kind : Option IntKind) := decimal_eq hitems kind hsign hrun hfraction
  have hinteger (kind : Option IntKind) := integer_eq hitems kind hsign hrun
  by_cases hds : ds = []
  · left
    intro kind
    rw [run_leaf setting rfl, run_leaf setting rfl, hdecimal kind, hinteger kind,
      if_pos hds, if_pos hds]
    exact ⟨rfl, rfl⟩
  · right
    refine ⟨negative, ds, f, hrun.isDigit, hfraction.eq_of_mem_head?, fun kind => ?_⟩
    rw [run_leaf setting rfl, run_leaf setting rfl, hdecimal kind, hinteger kind,
      if_neg hds, if_neg hds]
    exact ⟨rfl, rfl⟩

/-- **Parsers of the numbers of a type accept what those without a bound accept and is in range**,
    with the same value and position, and fail at the start otherwise.  For a decimal number it is
    the integer before the point that has to be in range: that of the digits before the point with
    their sign. -/
theorem run_inRange (hitems : c.items = .sequence items) (k : IntKind) (s : σ) :
    (∀ signed,
      (∀ v q, (Parser.integer signed (some k)).run setting c s = .ok (.success v q) s ↔
        ∃ n, v = .int n ∧ k.InRange n ∧ (Parser.integer signed none).run setting c s =
          .ok (.success (.int n) q) s) ∧
      ((∀ n q, k.InRange n → (Parser.integer signed none).run setting c s ≠
        .ok (.success (.int n) q) s) →
        (Parser.integer signed (some k)).run setting c s = .ok (.failure c.pos) s)) ∧
    (∀ v q, (Parser.decimal (some k)).run setting c s = .ok (.success v q) s ↔
      (Parser.decimal none).run setting c s = .ok (.success v q) s ∧
        ∃ n q', k.InRange n ∧ (Parser.integer true none).run setting c s =
          .ok (.success (.int n) q') s) ∧
    ((∀ n q, k.InRange n → (Parser.integer true none).run setting c s ≠
      .ok (.success (.int n) q) s) →
      (Parser.decimal (some k)).run setting c s = .ok (.failure c.pos) s) ∧
    ∀ v q, (Parser.decimal none).run setting c s = .ok (.success v q) s →
      ∃ negative ds f, (∀ d ∈ ds, d.isDigit = true) ∧ (∀ d ∈ f.head?, d = '.') ∧
        v = .float (Reading.float (signText negative ++ ds ++ f)) ∧
        q = c.pos + (signText negative ++ ds ++ f).length ∧
        (Parser.integer true none).run setting c s =
          .ok (.success (.int (signedValue negative ds)) (c.pos + (signText negative ++ ds).length))
            s := by
  refine ⟨fun signed => ?_, ?_⟩
  -- in either part, nothing stands there for any type, or one number for all of them
  · rcases run_integer_or setting hitems signed s with hnone | ⟨n, stop, hsome⟩
    · refine ⟨fun v q => ?_, fun _ => hnone _⟩
      rw [hnone, hnone]
      exact iff_of_false nofun fun ⟨n, _, _, h⟩ => nomatch h
    · have hplain := hsome none
      rw [bounded_none] at hplain
      constructor
      · intro v q
        rw [hsome (some k), hplain, EStateM.Result.ok.injEq, bounded_eq_success_iff]
        constructor
        · rintro ⟨⟨hk, rfl, rfl⟩, -⟩
          exact ⟨n, rfl, hk, rfl⟩
        · rintro ⟨m, rfl, hk, ⟨⟩⟩
          exact ⟨⟨hk, rfl, rfl⟩, rfl⟩
      · intro hno
        rw [hsome (some k), bounded_of_not_inRange fun hk => hno n stop hk hplain]
  · rcases run_decimal_or setting hitems s with hnone | ⟨negative, ds, f, hdigits, hpoint, hsome⟩
    · obtain ⟨hdecimal, hinteger⟩ := hnone none
      refine ⟨fun v q => ?_, fun _ => (hnone _).1, fun v q h => ?_⟩
      · rw [(hnone (some k)).1, hdecimal]
        exact iff_of_false nofun fun h => nomatch h.1
      · rw [hdecimal] at h
        cases h
    · obtain ⟨hdecimal, hinteger⟩ := hsome none
      rw [bounded_none] at hdecimal hinteger
      refine ⟨fun v q => ?_, fun hno => ?_, fun v q h => ?_⟩
      · rw [(hsome (some k)).1, hdecimal, hinteger, EStateM.Result.ok.injEq, bounded_eq_success_iff]
        constructor
        · rintro ⟨⟨hk, rfl, rfl⟩, -⟩
          exact ⟨rfl, _, _, hk, rfl⟩
        · rintro ⟨⟨⟩, n, q', hk, ⟨⟩⟩
          exact ⟨⟨hk, rfl, rfl⟩, rfl⟩
      · rw [(hsome (some k)).1, bounded_of_not_inRange fun hk => hno _ _ hk hinteger]
      · rw [hdecimal] at h
        cases h
        exact ⟨negative, ds, f, hdigits, hpoint, rfl, rfl, hinteger⟩

/-- The least number that is out of range of a byte, and in range of two with a sign. -/
theorem run_inRange_byte :
    (Parser.integer true (some ⟨true, 16⟩)).run brackets
    ⟨.sequence (.text #['2', '5', '6']), 0, 0, { levels := 50 }⟩ () =
      .ok (.success (.int 256) 3) () ∧
    (Parser.integer true (some ⟨false, 8⟩)).run brackets
    ⟨.sequence (.text #['2', '5', '6']), 0, 0, { levels := 50 }⟩ () =
      .ok (.failure (0 : Nat)) () ∧
    (Parser.decimal (some ⟨false, 8⟩)).run brackets
    ⟨.sequence (.text #['2', '5', '6']), 0, 0, { levels := 50 }⟩ () =
      .ok (.failure (0 : Nat)) () := by
  have hread : (Parser.integer true none).run brackets
      ⟨.sequence (.text #['2', '5', '6']), 0, 0, { levels := 50 }⟩ () =
        .ok (.success (.int 256) 3) () := by
    have hsign : Sign (IsMinus (Memory.whole ())) true false [.ofChar '2', .ofChar '5', .ofChar '6']
        [.ofChar '2', .ofChar '5', .ofChar '6'] := by
      refine .plain fun _ v hv => not_isMinus_of_isDigit (Memory.whole_of_isPlain ()) ?_
      obtain rfl := Option.mem_some_iff.mp hv
      exact ⟨'2', rfl, .char '2'⟩
    have hrun : DigitRun ['2', '5', '6'] [.ofChar '2', .ofChar '5', .ofChar '6'] [] :=
      .digit rfl (.char '2') (.digit rfl (.char '5') (.digit rfl (.char '6') (.stop nofun)))
    rw [run_leaf brackets rfl, integer_eq rfl none hsign hrun]
    rfl
  have hout (n : Int) (q : Nat) (hn : IntKind.InRange ⟨false, 8⟩ n)
      (h : (Parser.integer true none).run brackets
        ⟨.sequence (.text #['2', '5', '6']), 0, 0, { levels := 50 }⟩ () =
          .ok (.success (.int n) q) ()) : False := by
    cases hread.symm.trans h
    exact absurd hn (by decide)
  have hrange (k : IntKind) :=
    run_inRange brackets
      (c := ⟨.sequence (.text #['2', '5', '6']), 0, 0, { levels := 50 }⟩) rfl k ()
  exact ⟨(((hrange ⟨true, 16⟩).1 true).1 _ _).mpr ⟨256, rfl, by decide, hread⟩,
    ((hrange ⟨false, 8⟩).1 true).2 hout, (hrange ⟨false, 8⟩).2.2.1 hout⟩

end Parser

end Itemwise
