namespace Itemwise

/-!
# Spans

A **span** is a half-open range `[start, stop)` of offsets into an input.  It is what a spanned
parser reports beside its value.

* `Span` — the range, with its bounds in order;
* `Span.ofBounds?` — the range of two integers, when they bound one;
* `Span.length` — how many items the range covers.
-/

/-- A half-open range of offsets. -/
structure Span where
  start : Nat
  stop : Nat
  start_le_stop : start ≤ stop := by omega
deriving DecidableEq

namespace Span

/-- The range from `start` to `stop`; two integers bound a range when the first is not negative
    and the second not below it. -/
def ofBounds? (start stop : Int) : Option Span :=
  if h : 0 ≤ start ∧ start ≤ stop then
    some ⟨start.toNat, stop.toNat, by omega⟩
  else
    none

/-- How many offsets the range holds. -/
def length (s : Span) : Nat := s.stop - s.start

/-- Bounds in order make a range. -/
theorem ofBounds?_natCast {a b : Nat} (h : a ≤ b) : ofBounds? a b = some ⟨a, b, h⟩ := by
  simp [ofBounds?, h]

end Span

end Itemwise
