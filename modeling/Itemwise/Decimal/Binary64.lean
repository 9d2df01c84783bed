namespace Itemwise

/-!
# Binary floating-point numbers, exactly

A finite 64-bit float is an integer times a power of two.  Printing and comparing work on that
exact form.

* `Binary64` — a float as sign, mantissa and exponent, or an infinity, or not a number;
* `Binary64.ofFloat` — the exact form of a float;
* `Floating` — a float as an object, and `Binary64.bits` its bits;
* `Binary64.toFloat` — the float of a mantissa and an exponent;
* `Binary64.floor?` — the integer just below;
* `Binary64.scaled` — a number times a power of two;
* `Binary64.compare` — the order of two exact forms, also of floats with integers.
-/

/-- The exact form of a 64-bit float: `± m · 2 ^ q`, an infinity, or not a number. -/
inductive Binary64
  | finite (negative : Bool) (m : Nat) (q : Int)
  | infinite (negative : Bool)
  | notNumber
deriving DecidableEq, Repr

/-- A float as an object.  What is not a number equals nothing, not even itself; only by being
    the same object is it found again, and objects that were made apart differ. -/
structure Floating where
  number : Float
  made : Nat := 0
deriving Inhabited

instance : Coe Float Floating := ⟨fun x => { number := x }⟩

namespace Binary64

/-- The exact form of a float, read off its bits: one sign bit, eleven of exponent, fifty-two of
    fraction. -/
def ofFloat (x : Float) : Binary64 :=
  let bits := x.toBits
  let negative := bits >>> 63 == 1
  let e : Nat := (bits >>> 52 &&& 0x7ff).toNat
  let f : Nat := (bits &&& 0xfffffffffffff).toNat
  if e = 2047 then
    if f = 0 then .infinite negative else .notNumber
  else if e = 0 then
    .finite negative f (-1074)
  else
    .finite negative (f + Nat.pow 2 52) ((e : Int) - 1075)

/-- The bits of a float.  What is not a number comes from operations without a result, which set its
    sign. -/
def bits (x : Floating) : Nat :=
  if x.number.isNaN then 0xfff8000000000000 else x.number.toBits.toNat

/-- The float `m · 2 ^ q`, where there is one: no more than 53 bits of `m` come before its last
    zeros. -/
def toFloat (m : Nat) (q : Int) : Float :=
  let zeros := Nat.log2 m - 52
  (Float.ofNat (m / Nat.pow 2 zeros)).scaleB (q + zeros)

/-- An integer in the exact form. -/
def ofInt (n : Int) : Binary64 := .finite (n < 0) n.natAbs 0

/-- The signed mantissa. -/
def signed (negative : Bool) (m : Nat) : Int := if negative then -(m : Int) else m

/-- The greatest integer that is not above a number; what is infinite has none. -/
def floor? : Binary64 → Option Int
  | .finite negative m q =>
    some (Int.fdiv (signed negative (m * Nat.pow 2 q.toNat)) (Nat.pow 2 (-q).toNat : Nat))
  | _ => none

/-- The order of two exact forms; what is not a number has none. -/
def compare : Binary64 → Binary64 → Option Ordering
  | .notNumber, _ | _, .notNumber => none
  | .infinite a, .infinite b => some (Ord.compare (!a) (!b))
  | .infinite a, .finite .. => some (if a then .lt else .gt)
  | .finite .., .infinite b => some (if b then .gt else .lt)
  | .finite a m p, .finite b n q =>
    let least := min p q
    some (Ord.compare (signed a (m * Nat.pow 2 (p - least).toNat))
      (signed b (n * Nat.pow 2 (q - least).toNat)))

/-- An integer is its absolute value with its sign. -/
theorem signed_natAbs (n : Int) : signed (n < 0) n.natAbs = n := by
  unfold signed
  split <;> rename_i h <;> rw [decide_eq_true_eq] at h <;> omega

/-- The number with its exponent raised: `2 ^ k` times as much. -/
def scaled (k : Nat) : Binary64 → Binary64
  | .finite negative m q => .finite negative m (q + k)
  | x => x

/-- The order does not change when both numbers are scaled. -/
theorem compare_scaled (k : Nat) (x y : Binary64) :
    compare (x.scaled k) (y.scaled k) = compare x y := by
  cases x <;> cases y <;> simp only [scaled, compare]
  rename_i a m p b n q
  have h : min (p + k) (q + k) = min p q + k := by omega
  have hp : (p + k - (min p q + k)).toNat = (p - min p q).toNat := by congr 1; omega
  have hq : (q + k - (min p q + k)).toNat = (q - min p q).toNat := by congr 1; omega
  rw [h, hp, hq]

/-- A factor can be taken out of a signed mantissa. -/
theorem signed_mul (a : Bool) (m c : Nat) : signed a (m * c) = signed a m * c := by
  cases a with
  | false => exact Int.natCast_mul m c
  | true =>
    show -((m * c : Nat) : Int) = -(m : Int) * c
    rw [Int.natCast_mul, Int.neg_mul]

/-- A finite number is an integer times any power of two up to its own; the integer below it is read
    off there. -/
theorem floor?_finite (a : Bool) (m : Nat) {p l : Int} (h : l ≤ p) :
    floor? (.finite a m p) =
      some (Int.fdiv (signed a (m * Nat.pow 2 (p - l).toNat) * (Nat.pow 2 l.toNat : Nat))
        (Nat.pow 2 (-l).toNat : Nat)) := by
  have pos (k : Nat) : (0 : Int) < (2 ^ k : Nat) := Int.natCast_pos.mpr (Nat.two_pow_pos k)
  simp only [floor?, signed_mul, Option.some.injEq]
  rcases Int.le_total 0 p with hp | hp
  · have h0 : (-p).toNat = 0 := by omega
    rcases Int.le_total 0 l with hl | hl
    · have h1 : (-l).toNat = 0 := by omega
      have h2 : p.toNat = (p - l).toNat + l.toNat := by omega
      rw [h0, h1, h2]
      simp [Nat.pow_add, Int.mul_assoc]
    · have h1 : l.toNat = 0 := by omega
      have h2 : (p - l).toNat = p.toNat + (-l).toNat := by omega
      rw [h0, h1, h2]
      simp only [Nat.pow_eq, Nat.pow_zero, Nat.pow_add, Int.natCast_mul,
        Int.natCast_one, Int.mul_one]
      rw [← Int.mul_assoc, Int.mul_fdiv_cancel _ (Int.ne_of_gt (pos _))]
      simp
  · have h0 : p.toNat = 0 := by omega
    have h1 : l.toNat = 0 := by omega
    have h2 : (-l).toNat = (p - l).toNat + (-p).toNat := by omega
    rw [h0, h1, h2]
    simp only [Nat.pow_eq, Nat.pow_zero, Nat.pow_add, Int.natCast_mul, Int.natCast_one, Int.mul_one]
    rw [Int.mul_comm (signed a m) _, Int.mul_fdiv_mul_of_pos _ _ (pos _)]

/-- Equal numbers have the same integer just below. -/
theorem floor?_eq_of_compare {x y : Binary64} (h : compare x y = some .eq) :
    floor? x = floor? y := by
  cases x <;> cases y <;> simp_all only [compare, Option.some.injEq, reduceCtorEq]
  case finite.finite a m p b n q =>
    rw [floor?_finite a m (Int.min_le_left p q), floor?_finite b n (Int.min_le_right p q)]
    rw [Int.compare_eq_eq.mp h]
  all_goals first | rfl | (split at h <;> simp at h)

/-- Integers have the order that they have among integers. -/
theorem compare_ofInt (m n : Int) : compare (ofInt m) (ofInt n) = some (Ord.compare m n) := by
  simp [compare, ofInt, signed_natAbs]

/-- A number is equal to itself. -/
theorem compare_self {x : Binary64} (h : x ≠ .notNumber) : compare x x = some .eq := by
  cases x with
  | finite negative m q => simp [compare]
  | infinite negative => cases negative <;> rfl
  | notNumber => exact absurd rfl h

end Binary64

end Itemwise
