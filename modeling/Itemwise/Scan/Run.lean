namespace Itemwise

/-!
# Searching for a run

A **run** is some members in a row, of which each fits some items and not others.

* `Run.misfit?` — the first member of a run that does not fit when the run begins at a position;
* `Run.firstWhere` — the first position that passes a test;
* `Run.find?` — the first position at which the run fits;
* `Run.findArray?` — the same for a run of members that are each equal to one item.

The member that did not fit at one position is looked at first at the next one, so a run with a
member that is rare among the items is found without comparing all of it everywhere.  This changes
nothing in what is found: `find?_eq_firstWhere`.
-/

namespace Run

/-- The first of `left` members from `j` on that does not fit, for a run that begins at `pos`. -/
@[specialize]
def misfitFrom (fits : (member pos : Nat) → Bool) (pos : Nat) : (left j : Nat) → Option Nat
  | 0, _ => none
  | left + 1, j => if fits j (pos + j) then misfitFrom fits pos left (j + 1) else some j

/-- The first member of a run of some width that does not fit when the run begins at `pos`. -/
@[specialize]
def misfit? (fits : (member pos : Nat) → Bool) (width pos : Nat) : Option Nat :=
  misfitFrom fits pos width 0

/-- The first of `count` positions from `pos` on that passes a test. -/
@[specialize]
def firstWhere (test : Nat → Bool) : (count pos : Nat) → Option Nat
  | 0, _ => none
  | count + 1, pos => if test pos then some pos else firstWhere test count (pos + 1)

/-- The first of `count` positions from `pos` on at which a run of some width fits; the member
    `suspect` is looked at before the others. -/
@[specialize]
def search (fits : (member pos : Nat) → Bool) (width : Nat) : (count pos suspect : Nat) → Option Nat
  | 0, _, _ => none
  | count + 1, pos, suspect =>
    if suspect < width && !fits suspect (pos + suspect) then
      search fits width count (pos + 1) suspect
    else
      match misfit? fits width pos with
      | none => some pos
      | some j => search fits width count (pos + 1) j

/-- The first of `count` positions from `pos` on at which a run of some width fits. -/
@[specialize]
def find? (fits : (member pos : Nat) → Bool) (width count pos : Nat) : Option Nat :=
  search fits width count pos 0

/-- No place is found if all fail the test, and only then. -/
theorem firstWhere_eq_none_iff {test : Nat → Bool} {count pos : Nat} :
    firstWhere test count pos = none ↔ ∀ j, pos ≤ j → j < pos + count → test j = false := by
  induction count generalizing pos with
  | zero =>
    rw [firstWhere]
    exact iff_of_true rfl fun j hj hj' => by omega
  | succ count ih =>
    rw [firstWhere]
    cases hpos : test pos with
    | true =>
      rw [if_pos rfl]
      refine iff_of_false nofun fun hall => ?_
      rw [hall pos (Nat.le_refl pos) (by omega)] at hpos
      cases hpos
    | false =>
      rw [if_neg Bool.false_ne_true, ih]
      constructor
      · intro hall j hj hj'
        rcases Nat.eq_or_lt_of_le hj with rfl | hlt
        · exact hpos
        · exact hall j hlt (by omega)
      · exact fun hall j hj hj' => hall j (by omega) (by omega)

/-- What is found passes, and what stands before it does not. -/
theorem firstWhere_eq_some_iff {test : Nat → Bool} {count pos i : Nat} :
    firstWhere test count pos = some i ↔
      pos ≤ i ∧ i < pos + count ∧ test i = true ∧ ∀ j, pos ≤ j → j < i → test j = false := by
  induction count generalizing pos with
  | zero =>
    rw [firstWhere]
    exact iff_of_false nofun fun h => by omega
  | succ count ih =>
    rw [firstWhere]
    cases hpos : test pos with
    | true =>
      rw [if_pos rfl, Option.some.injEq]
      constructor
      · rintro rfl
        exact ⟨Nat.le_refl _, by omega, hpos, fun j hj hj' => by omega⟩
      · rintro ⟨hle, -, -, hbefore⟩
        rcases Nat.eq_or_lt_of_le hle with heq | hlt
        · exact heq
        · rw [hbefore pos (Nat.le_refl pos) hlt] at hpos
          cases hpos
    | false =>
      rw [if_neg Bool.false_ne_true, ih]
      constructor
      · rintro ⟨hle, hlt, hi, hbefore⟩
        refine ⟨by omega, by omega, hi, fun j hj hj' => ?_⟩
        rcases Nat.eq_or_lt_of_le hj with rfl | hj
        · exact hpos
        · exact hbefore j hj hj'
      · rintro ⟨hle, hlt, hi, hbefore⟩
        have hne : pos ≠ i := by
          rintro rfl
          rw [hpos] at hi
          cases hi
        exact ⟨by omega, by omega, hi, fun j hj hj' => hbefore j (by omega) hj'⟩

/-- No misfit is found if all that is left fits, and only then. -/
theorem misfitFrom_eq_none_iff (fits : Nat → Nat → Bool) (pos left j : Nat) :
    misfitFrom fits pos left j = none ↔ ∀ i, j ≤ i → i < j + left → fits i (pos + i) = true := by
  induction left generalizing j with
  | zero => simp only [misfitFrom, true_iff]; omega
  | succ left ih =>
    unfold misfitFrom
    split
    · next h =>
      rw [ih]
      constructor
      · intro all i hj hi
        rcases Nat.eq_or_lt_of_le hj with rfl | hj
        · exact h
        · exact all i hj (by omega)
      · intro all i hj hi
        exact all i (by omega) (by omega)
    · next h =>
      simp only [reduceCtorEq, false_iff]
      exact fun all => h (all j (Nat.le_refl j) (by omega))

/-- A run fits where each of its members does. -/
theorem misfit?_eq_none_iff (fits : Nat → Nat → Bool) (width pos : Nat) :
    misfit? fits width pos = none ↔ ∀ j < width, fits j (pos + j) = true := by
  simp [misfit?, misfitFrom_eq_none_iff]

/-- A search that begins with what did not fit last finds the same first place as one without
    that. -/
theorem search_eq_firstWhere (fits : Nat → Nat → Bool) (width count pos suspect : Nat) :
    search fits width count pos suspect =
      firstWhere (fun p => (misfit? fits width p).isNone) count pos := by
  induction count generalizing pos suspect with
  | zero => rfl
  | succ count ih =>
    unfold search firstWhere
    split
    · next h =>
      have some_misfit : (misfit? fits width pos).isNone = false := by
        rw [Bool.eq_false_iff, Ne, Option.isNone_iff_eq_none, misfit?_eq_none_iff]
        simp only [Bool.and_eq_true, decide_eq_true_eq, Bool.not_eq_true'] at h
        intro all
        simp [all suspect h.1] at h
      simp [some_misfit, ih]
    · split
      · next h => simp [h]
      · next h => simp [h, ih]

/-- What is found is the first position at which no member of the run is a misfit. -/
theorem find?_eq_firstWhere (fits : Nat → Nat → Bool) (width count pos : Nat) :
    find? fits width count pos = firstWhere (fun p => (misfit? fits width p).isNone) count pos :=
  search_eq_firstWhere fits width count pos 0

/-- The first position from `start` on at which an array holds a run of items with given keys. -/
@[specialize]
def findArray? {α : Type} (key : α → Nat) (xs : Array α) (run : Array Nat)
    (start : Nat) : Option Nat :=
  find? (fun j p => match run[j]?, xs[p]? with
    | some k, some x => key x == k
    | _, _ => false) run.size (xs.size + 1 - run.size - start) start

end Run

end Itemwise
