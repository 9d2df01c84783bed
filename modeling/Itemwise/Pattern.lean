import Itemwise.Value.Forms
import Itemwise.Value.Arithmetic
import Itemwise.Value.Display

namespace Itemwise

/-!
# Patterns of single items

A **pattern** is an item, a set of items, or a range of items.

* `ItemRange` — an inclusive range, with `ItemRange.make` refusing one whose low end is above its
  high end;
* `Pattern` — the patterns;
* `Compiled` — several patterns at once: the literal items and the ranges;
* `Compiled.union`, `Compiled.ofPatterns` — the compiled form of some patterns;
* `Compiled.accepts` — whether one of the patterns fits an item.

A character and its code count as the same item, and so do a range of characters and the range of
their codes.
-/

/-- An inclusive range of items. -/
structure ItemRange where
  low : Value
  high : Value

/-- The range from `low` to `high`; its ends have to be comparable and in order. -/
def ItemRange.make (low high : Value) : Except Fault ItemRange := do
  if ← Value.test .gt low high then throw (.invalidRange low high)
  pure ⟨low, high⟩

/-- A pattern of single items. -/
inductive Pattern
  | item (v : Value)
  | oneOf (vs : List Value)
  | within (r : ItemRange)

/-- The written form of a pattern. -/
def Pattern.display : Pattern → List Char
  | .item v => v.display
  | .oneOf vs => (Value.set vs {}).display
  | .within r =>
    "ItemRange(low=".toList ++ r.low.display ++ ", high=".toList ++ r.high.display ++ [')']

/-- An end of a range: a value, or the one-character text of any code point, surrogates included. -/
inductive Bound
  | value (v : Value)
  | codePoint (n : Nat)

namespace Bound

/-- The answer of an order test on a bound and a value, `none` if they are incomparable. -/
def holds? (op : Comparison) : Bound → Value → Option Bool
  | .value b, v => Value.holds? op b v
  | .codePoint n, .text cs => some (op.admits (compareBy id [n] (cs.map Char.toNat)))
  | .codePoint _, _ => none

end Bound

/-- The bounds that a range stands for: its own, and those of the codes of its characters or of the
    characters of its codes. -/
def ItemRange.bounds (r : ItemRange) : List (Bound × Bound) :=
  (.value r.low, .value r.high) ::
    match r.low, r.high with
    | .text [a], .text [b] => [(.value (.int a.toNat), .value (.int b.toNat))]
    | low, high =>
      match low.toInt?, high.toInt? with
      | some a, some b =>
        if 0 ≤ a ∧ a ≤ b ∧ b ≤ 0x10ffff then [(.codePoint a.toNat, .codePoint b.toNat)] else []
      | _, _ => []

/-- Several patterns in one: literal items and bounds of ranges.  The literals form a set if all of
    them can be members of one. -/
structure Compiled where
  literals : List Value
  asSet : Bool
  ranges : List (Bound × Bound)

namespace Compiled

/-- The literal items of a pattern. -/
def literalsOf : Pattern → List Value
  | .item v => v.equivalents
  | .oneOf vs => vs.flatMap Value.equivalents
  | .within _ => []

/-- The bounds of a pattern. -/
def boundsOf : Pattern → List (Bound × Bound)
  | .within r => r.bounds
  | _ => []

/-- The literals and the ranges of some patterns together. -/
def union (ps : List Pattern) : Compiled :=
  let literals := ps.flatMap literalsOf
  ⟨literals, Value.areKeys literals, ps.flatMap boundsOf⟩

/-- The compiled form of some patterns, which must not all be empty. -/
def ofPatterns (ps : List Pattern) : Except Fault Compiled :=
  let c := union ps
  if c.literals.isEmpty && c.ranges.isEmpty then .error (.emptyPatternSet "item_matches") else .ok c

/-- Whether an item lies between two bounds; one that is incomparable with a bound does not. -/
def isWithin (v : Value) (r : Bound × Bound) : Bool :=
  r.1.holds? .le v == some true && r.2.holds? .ge v == some true

/-- Whether an item is one of the literals.  Only what can be a member of a set is looked up in a
    set: a value of a kind that can change is passed over, and one that only holds such values is
    refused. -/
def isLiteral (c : Compiled) (v : Value) : Except Fault Bool :=
  if c.asSet then
    if v.isFrozen then
      if v.isKey then .ok (v.isMember c.literals) else .error .wrongKind
    else
      .ok false
  else
    .ok (v.isMember c.literals)

/-- Whether one of the patterns fits an item. -/
def accepts (c : Compiled) (v : Value) : Except Fault Bool := do
  if ← c.isLiteral v then pure true else pure (c.ranges.any (isWithin v))

end Compiled

end Itemwise
