import Itemwise.Decimal.Digits
import Itemwise.SemVer

namespace Itemwise.SemVer

/-!
# The texts of semantic versions

What counts as a version, as a grammar over characters apart from any parser.

* `IsComponent` — one of the three numbers, as it may be written;
* `IsIdentifier`, `IsPreReleaseIdentifier` — what stands between the dots of the two optional parts;
* `IsDotted` — one or more words with dots in between;
* `IsVersion` — the texts of a version.

In a number of zeros alone there may be any number of them; any other number starts with no zero.
-/

/-! ### Words -/

/-- One of the three numbers: digits, which do not start with a zero unless they are all zeros. -/
structure IsComponent (ds : List Char) : Prop where
  ne_nil : ds ≠ []
  isDigit : ∀ c ∈ ds, c.isDigit = true
  zeros : ds.head? = some '0' → ∀ c ∈ ds, c = '0'

/-- Whether digits make a number can be told. -/
instance (ds : List Char) : Decidable (IsComponent ds) :=
  decidable_of_iff (ds ≠ [] ∧ ds.all Char.isDigit = true ∧
    (ds.head? = some '0' → ds.all (· == '0') = true)) <| by
    simp only [List.all_eq_true, beq_iff_eq]
    exact ⟨fun ⟨hne, hdigits, hzeros⟩ => ⟨hne, hdigits, hzeros⟩,
      fun ⟨hne, hdigits, hzeros⟩ => ⟨hne, hdigits, hzeros⟩⟩

/-- A character of an identifier: an ASCII letter or digit, or a hyphen. -/
def IsIdentifierChar (c : Char) : Prop := c.isAlphanum = true ∨ c = '-'

/-- Whether a character may stand in an identifier can be told. -/
instance (c : Char) : Decidable (IsIdentifierChar c) := inferInstanceAs (Decidable (_ ∨ _))

/-- Some characters of that kind. -/
def IsIdentifier (w : List Char) : Prop := w ≠ [] ∧ ∀ c ∈ w, IsIdentifierChar c

/-- Whether characters make an identifier can be told. -/
instance (w : List Char) : Decidable (IsIdentifier w) :=
  decidable_of_iff (w ≠ [] ∧ w.all (decide <| IsIdentifierChar ·) = true) <| by
    simp only [List.all_eq_true, decide_eq_true_eq, IsIdentifier]

/-- An identifier of the pre-release part: a single digit, digits that do not start with a zero, or
    an identifier with something else than digits in it. -/
def IsPreReleaseIdentifier (w : List Char) : Prop :=
  IsIdentifier w ∧
    ((w.length = 1 ∧ ∀ c ∈ w, c.isDigit = true) ∨
      ((∀ c ∈ w, c.isDigit = true) ∧ w.head? ≠ some '0') ∨
      ∃ c ∈ w, c.isDigit = false)

/-- Whether they make one for a pre-release can be told. -/
instance (w : List Char) : Decidable (IsPreReleaseIdentifier w) :=
  decidable_of_iff
    (IsIdentifier w ∧ ((w.length = 1 ∧ w.all Char.isDigit = true) ∨
      (w.all Char.isDigit = true ∧ w.head? ≠ some '0') ∨
      w.any (!Char.isDigit ·) = true)) <| by
    simp only [List.all_eq_true, List.any_eq_true, Bool.not_eq_true', IsPreReleaseIdentifier]

/-- One or more words with dots in between. -/
inductive IsDotted (P : List Char → Prop) : List Char → Prop
  | last {w : List Char} : P w → IsDotted P w
  | more {w w' : List Char} : P w → IsDotted P w' → IsDotted P (w ++ '.' :: w')

/-! ### Versions -/

/-- A part after its mark; a part that is not there has no mark either. -/
def marked (mark : Char) (w : List Char) : List Char := if w.isEmpty then [] else mark :: w

/-- The texts of a version: three numbers between dots, and after that the parts that there are. -/
inductive IsVersion : SemVer → List Char → Prop
  | parts {a b c p m : List Char} : IsComponent a → IsComponent b → IsComponent c →
    p = [] ∨ IsDotted IsPreReleaseIdentifier p → m = [] ∨ IsDotted IsIdentifier m →
    IsVersion ⟨Decimal.toNat a, Decimal.toNat b, Decimal.toNat c, p, m⟩
      (a ++ '.' :: (b ++ '.' :: (c ++ (marked '-' p ++ marked '+' m))))

/-- A part that has something in it is written with its mark. -/
theorem marked_of_ne_nil {mark : Char} {w : List Char} (h : w ≠ []) :
    marked mark w = mark :: w := by
  cases w with
  | nil => contradiction
  | cons c w => rfl

/-- Words with dots in between are not empty if none of the words is. -/
theorem IsDotted.ne_nil {P : List Char → Prop} (hP : ∀ w, P w → w ≠ []) {w : List Char}
    (h : IsDotted P w) : w ≠ [] := by
  cases h with
  | last h => exact hP _ h
  | more h _ => simp

end Itemwise.SemVer
