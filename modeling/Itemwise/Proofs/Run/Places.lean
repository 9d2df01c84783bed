import Itemwise.Step.Basic
import Mathlib.Algebra.Order.Field.Power
import Mathlib.Algebra.Order.Ring.Rat
import Mathlib.Order.Compare
import Mathlib.Order.WithBot

namespace Itemwise

/-!
# Places as numbers

Exact forms are compared by their mantissas and exponents.  That is the order of the numbers that
they denote, two of which are infinite.  So what is known of that order is known of places too,
which may be fractions.

* `Binary64.Extended` — rational and infinite numbers;
* `Binary64.value` — the number that an exact form denotes, if it denotes one;
* `Binary64.compare_eq` — exact forms are compared as these numbers;
* `Place.value` — the number that a place is;
* `Place.Same` — two places are one number, however they are written;
* `Place.From` — a place is a position or comes after it.
-/

/-! ### Exact forms -/

namespace Binary64

/-- The rational numbers with two infinite ones, one below and one above all others. -/
abbrev Extended := WithBot (WithTop ℚ)

/-- A rational number as one of them. -/
def Extended.of (x : ℚ) : Extended := (x : WithTop ℚ)

/-- The number that an exact form denotes, if it denotes one. -/
def value : Binary64 → Option Extended
  | .finite negative m q => some (.of (signed negative m * 2 ^ q))
  | .infinite negative => some (if negative then ⊥ else ⊤)
  | .notNumber => none

/-- Rational numbers are in the order that they had. -/
theorem Extended.of_lt_of {x y : ℚ} : Extended.of x < .of y ↔ x < y := by simp [Extended.of]

/-- Different rational numbers stay different. -/
theorem Extended.of_injective : Function.Injective Extended.of := fun x y h => by
  simpa [Extended.of] using h

/-- Below every rational number there is minus infinity. -/
theorem Extended.bot_lt_of (x : ℚ) : ⊥ < Extended.of x := WithBot.bot_lt_coe _

/-- Above it there is infinity. -/
theorem Extended.of_lt_top (x : ℚ) : Extended.of x < ⊤ :=
  WithBot.coe_lt_coe.mpr (WithTop.coe_lt_top x)

/-- A mantissa at a lower exponent. -/
theorem signed_mul_zpow (negative : Bool) (m : Nat) {l q : Int} (h : l ≤ q) :
    (signed negative m : ℚ) * 2 ^ q =
      (signed negative (m * Nat.pow 2 (q - l).toNat) : ℚ) * 2 ^ l := by
  have hq : q = ((q - l).toNat : Int) + l := by omega
  have hpow : (2 : ℚ) ^ q = 2 ^ (q - l).toNat * 2 ^ l := by
    rw [← zpow_natCast, ← zpow_add₀ (by decide), ← hq]
  rw [hpow, signed_mul, ← mul_assoc]
  push_cast [Nat.pow_eq]
  rfl

/-- Mantissas at one exponent have the order of the numbers. -/
theorem compare_zpow (m n l : Int) :
    Ord.compare m n = Ord.compare (Extended.of (m * 2 ^ l)) (.of (n * 2 ^ l)) := by
  have hlt {m n : Int} (h : m < n) : Extended.of (m * 2 ^ l) < .of (n * 2 ^ l) :=
    Extended.of_lt_of.mpr (mul_lt_mul_of_pos_right (Int.cast_lt.mpr h) (zpow_pos (by decide) l))
  rcases lt_trichotomy m n with h | rfl | h
  · rw [compare_lt_iff_lt.mpr h, compare_lt_iff_lt.mpr (hlt h)]
  · rw [compare_eq_iff_eq.mpr rfl, compare_eq_iff_eq.mpr rfl]
  · rw [compare_gt_iff_gt.mpr h, compare_gt_iff_gt.mpr (hlt h)]

/-- **The order of exact forms.** They are compared as the numbers that they denote. -/
theorem compare_eq (x y : Binary64) :
    compare x y = x.value.bind fun a => y.value.map (Ord.compare a) := by
  cases x with
  | notNumber => rfl
  | infinite a =>
    cases y with
    | notNumber => rfl
    | infinite b => cases a <;> cases b <;> decide
    | finite b n q =>
      cases a with
      | true => exact congrArg some (compare_lt_iff_lt.mpr (Extended.bot_lt_of _)).symm
      | false => exact congrArg some (compare_gt_iff_gt.mpr (Extended.of_lt_top _)).symm
  | finite a m p =>
    cases y with
    | notNumber => rfl
    | infinite b =>
      cases b with
      | true => exact congrArg some (compare_gt_iff_gt.mpr (Extended.bot_lt_of _)).symm
      | false => exact congrArg some (compare_lt_iff_lt.mpr (Extended.of_lt_top _)).symm
    | finite b n q =>
      show _ = some (Ord.compare (Extended.of (signed a m * 2 ^ p)) (.of (signed b n * 2 ^ q)))
      rw [signed_mul_zpow a m (min_le_left p q), signed_mul_zpow b n (min_le_right p q),
        ← compare_zpow]
      rfl

/-- One exact form comes before another if both denote numbers, the first a smaller one. -/
theorem compare_eq_lt {x y : Binary64} :
    compare x y = some .lt ↔ ∃ a b, x.value = some a ∧ y.value = some b ∧ a < b := by
  simp [compare_eq, Option.bind_eq_some_iff, compare_lt_iff_lt]

/-- Two are equal if they denote one number. -/
theorem compare_eq_eq {x y : Binary64} :
    compare x y = some .eq ↔ ∃ a, x.value = some a ∧ y.value = some a := by
  simp [compare_eq, Option.bind_eq_some_iff]

/-- An integer denotes itself. -/
@[simp] theorem value_ofInt (n : Int) : (ofInt n).value = some (.of n) := by
  show some (Extended.of (signed (n < 0) n.natAbs * 2 ^ (0 : Int))) = _
  rw [signed_natAbs, zpow_zero, mul_one]

end Binary64

/-! ### Places -/

namespace Place

open Binary64 (Extended)

/-- The number that a place is, if it is one. -/
def value (x : Place) : Option Extended := x.number.value

/-- Two places are the same if they are one number, as a caller may write a position as a fraction,
    or if neither is one. -/
def Same (x y : Place) : Prop := x.value = y.value

/-- A place is a position or comes after it. -/
def From (n : Nat) (x : Place) : Prop := x.isAt n = true ∨ precedes n x = true

variable {x y z : Place} {m n : Nat}

/-- A position denotes itself. -/
@[simp] theorem value_position (n : Nat) : value (.position n) = some (.of n) :=
  Binary64.value_ofInt n

/-- Two positions are the same only if they are equal. -/
theorem same_position : Same (.position m) (.position n) ↔ m = n := by
  simp [Same, Extended.of_injective.eq_iff]

/-- Places are the same in either order. -/
theorem Same.symm (h : x.Same y) : y.Same x := Eq.symm h

/-- Places that are both the same as a third are the same. -/
theorem Same.trans (h : x.Same y) (h' : y.Same z) : x.Same z := Eq.trans h h'

/-- A place is at a position if it is the same as that position. -/
theorem isAt_iff : x.isAt n = true ↔ x.Same n := by
  cases x with
  | position m => rw [isAt_position, beq_iff_eq, same_position]
  | fraction x =>
    show (Binary64.compare (.ofFloat x) (.ofInt n) == some .eq) = true ↔
        Binary64.value (.ofFloat x) = Binary64.value (.ofInt n)
    simp [Binary64.compare_eq_eq]

/-- The same places are at the same positions. -/
theorem Same.isAt_eq (h : x.Same y) (n : Nat) : x.isAt n = y.isAt n := by
  rw [Bool.eq_iff_iff, isAt_iff, isAt_iff, Same, Same, h]

/-- All places at a position are the same. -/
theorem same_of_isAt (hx : x.isAt n = true) (hy : y.isAt n = true) : x.Same y :=
  (isAt_iff.mp hx).trans (isAt_iff.mp hy).symm

/-- A place before another one is the lesser number. -/
theorem precedes_iff :
    x.precedes y = true ↔ ∃ a b, x.value = some a ∧ y.value = some b ∧ a < b := by
  have hcompare : x.precedes y = (Binary64.compare x.number y.number == some .lt) := by
    cases x with
    | fraction x => rfl
    | position m =>
      cases y with
      | fraction y => rfl
      | position n => exact precedes_position_iff m n
  rw [hcompare, beq_iff_eq, Binary64.compare_eq_lt]
  rfl

/-- No place precedes itself. -/
theorem not_precedes_self (x : Place) : ¬ x.precedes x = true := by
  rw [precedes_iff]
  rintro ⟨a, b, ha, hb, hlt⟩
  rw [ha, Option.some.injEq] at hb
  exact absurd hlt (hb ▸ lt_irrefl a)

/-- What precedes a place precedes all that come after it. -/
theorem precedes_trans (h : x.precedes y = true) (h' : y.precedes z = true) :
    x.precedes z = true := by
  rw [precedes_iff] at *
  obtain ⟨a, b, ha, hb, hlt⟩ := h
  obtain ⟨b', d, hb', hd, hlt'⟩ := h'
  obtain rfl : b = b' := Option.some.inj (hb.symm.trans hb')
  exact ⟨a, d, ha, hd, hlt.trans hlt'⟩

/-- Numbers of which neither is before the other are the same. -/
theorem same_of_not_precedes (hx : x.value ≠ none) (hy : y.value ≠ none)
    (hxy : ¬ x.precedes y = true) (hyx : ¬ y.precedes x = true) : x.Same y := by
  obtain ⟨a, ha⟩ := Option.ne_none_iff_exists'.mp hx
  obtain ⟨b, hb⟩ := Option.ne_none_iff_exists'.mp hy
  rw [precedes_iff] at hxy hyx
  have hle : b ≤ a := le_of_not_gt fun hlt => hxy ⟨a, b, ha, hb, hlt⟩
  have hge : a ≤ b := le_of_not_gt fun hlt => hyx ⟨b, a, hb, ha, hlt⟩
  rw [Same, ha, hb, le_antisymm hle hge]

/-- The same places precede the same ones. -/
theorem Same.precedes_eq (h : x.Same y) (z : Place) : x.precedes z = y.precedes z := by
  rw [Bool.eq_iff_iff, precedes_iff, precedes_iff, h]

/-- A place from some position on is a number. -/
theorem From.value_ne_none (h : x.From n) : x.value ≠ none := by
  rcases h with h | h
  · rw [isAt_iff.mp h]
    simp
  · obtain ⟨-, b, -, hb, -⟩ := precedes_iff.mp h
    simp [hb]

/-- A place that is a position or comes after it is at no position before that. -/
theorem From.isAt_eq_false (h : x.From n) (hmn : m < n) : x.isAt m = false := by
  rw [Bool.eq_false_iff, Ne, isAt_iff]
  intro hm
  rcases h with h | h
  · have hsame : Same m n := hm.symm.trans (isAt_iff.mp h)
    exact absurd (same_position.mp hsame) (Nat.ne_of_lt hmn)
  · have hbefore : precedes m n = true := by simpa using hmn
    have hself := precedes_trans hbefore h
    rw [← hm.precedes_eq] at hself
    exact not_precedes_self x hself

end Place

end Itemwise
