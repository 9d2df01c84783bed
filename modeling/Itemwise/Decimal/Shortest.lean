import Itemwise.Decimal.Binary64

namespace Itemwise

/-!
# The shortest decimal of a float

Among the decimals that read back as a given float, the **shortest** has the fewest digits, and of
those it is the nearest.

* `Shortest.Scientific` — a decimal `digits · 10 ^ exponent`;
* `Shortest.ofFinite` — the shortest decimal of `m · 2 ^ q`.

The reals that read back as `m · 2 ^ q` form the interval between the midpoints to its two
neighbours, ends included exactly when `m` is even.  For each count of digits the decimals of that
many digits form a grid; if a grid point lies in the interval, so does one of the two grid points
next to the value itself, so two candidates a grid are enough.
-/

namespace Shortest

/-- The decimal `digits · 10 ^ exponent`. -/
structure Scientific where
  digits : Nat
  exponent : Int
deriving DecidableEq, Repr

/-- How many decimal digits a number has; zero has none. -/
def digitCount (n : Nat) : Nat := if n = 0 then 0 else (Nat.toDigits 10 n).length

/-- The power of ten of the first digit of `num / den`. -/
def leading (num den : Nat) : Int :=
  if den ≤ num then (digitCount (num / den) : Int) - 1 else -(digitCount ((den - 1) / num) : Int)

/-- `n` without its trailing zeros, the exponent raised for each one dropped. -/
def trim : Nat → Nat → Int → Scientific
  | 0, n, e => ⟨n, e⟩
  | fuel + 1, n, e => if n % 10 = 0 then trim fuel (n / 10) (e + 1) else ⟨n, e⟩

/-- The quarter units from `m · 2 ^ q` down to the lower end of its interval; the lower neighbour of
    a power of two is only half as far away. -/
def lowerGap (m : Nat) (q : Int) : Nat := if m = Nat.pow 2 52 ∧ -1074 < q then 1 else 2

/-- The grid point of step `10 ^ s` that lies in the interval of `m · 2 ^ q` nearest to it, if one
    does; of two that are equally near, the even one. -/
def onGrid? (m : Nat) (q s : Int) : Option Nat :=
  let up := Nat.pow 2 q.toNat * Nat.pow 10 (-s).toNat
  let unit := 4 * Nat.pow 2 (-q).toNat * Nat.pow 10 s.toNat
  let value := 4 * m * up
  let low := (4 * m - lowerGap m q) * up
  let high := (4 * m + 2) * up
  let inside (c : Nat) : Bool :=
    if m % 2 = 0 then low ≤ c * unit && c * unit ≤ high else low < c * unit && c * unit < high
  let below := value / unit
  let above := below + 1
  match inside below && below != 0, inside above with
  | false, false => none
  | true, false => some below
  | false, true => some above
  | true, true =>
    let d := value - below * unit
    let u := above * unit - value
    some (if d < u then below else if u < d then above else if below % 2 = 0 then below else above)

/-- The first hit on the grids of `n`, `n + 1`, … digits, trying at most `fuel` of them. -/
def search (m : Nat) (q top : Int) : (fuel n : Nat) → Scientific
  | 0, n => ⟨m, top - n⟩
  | fuel + 1, n =>
    let s := top - n + 1
    match onGrid? m q s with
    | some c => trim 20 c s
    | none => search m q top fuel (n + 1)

/-- The shortest decimal of `m · 2 ^ q`; seventeen digits are always enough. -/
def ofFinite (m : Nat) (q : Int) : Scientific :=
  if m = 0 then
    ⟨0, 0⟩
  else
    search m q (leading (m * Nat.pow 2 q.toNat) (Nat.pow 2 (-q).toNat)) 18 1

end Shortest

end Itemwise
