import Itemwise.Value.Basic

namespace Itemwise

/-!
# Equality of values

Equality is coarser than identity of form: truth values count as the numbers 0 and 1, integers equal
floats of the same value, the kinds of byte sequence are equal when their bytes are, and a fixed
array equals the list or the tuple of its items.  Everything else equals its own kind only.

* `Value.number?` — the exact number that a numeric value is;
* `Value.eqv` — equality of values;
* `Value.same` — what containers go by: equality, or being the same object;
* `Value.same_self` — every value is the same as itself;
* `Value.isMember` — membership in a list up to that.

Being the same object makes a difference for a float that is not a number only, as it does not equal
itself.  A container that holds it has it as a member all the same, and two containers that hold the
same one are equal.
-/

namespace Value

/-- The integer that a truth value or an integer is. -/
def toInt? : Value → Option Int
  | .bool b => some (if b then 1 else 0)
  | .int n => some n
  | _ => none

/-- The exact number that a truth value, an integer or a float is. -/
def number? : Value → Option Binary64
  | .bool b => some (.ofInt (if b then 1 else 0))
  | .int n => some (.ofInt n)
  | .float x => some (.ofFloat x.number)
  | _ => none

/-- Whether two values are one object that equals nothing: the same float that is not a number. -/
def isOneNaN : Value → Value → Bool
  | .float x, .float y =>
    x.made == y.made && Binary64.ofFloat x.number == .notNumber
      && Binary64.ofFloat y.number == .notNumber
  | _, _ => false

mutual

/-- Equality of values. -/
def eqv : Value → Value → Bool
  | .null, .null => true
  | .int m, .int n => m == n
  | .text a, .text b => a == b
  | .octets _ a, .octets _ b => a == b
  | .list xs, .list ys => eqvAll xs ys
  | .list xs, .array _ ys => eqvAll xs ys
  | .tuple xs, .tuple ys => eqvAll xs ys
  | .tuple xs, .array _ ys => eqvAll xs ys
  | .array _ xs, .array _ ys => eqvAll xs ys
  | .array _ xs, .list ys => eqvAll xs ys
  | .array _ xs, .tuple ys => eqvAll xs ys
  | .dict es, .dict fs => es.length == fs.length && entriesWithin es fs
  | .set xs _, .set ys _ => xs.length == ys.length && membersWithin xs ys
  | .span a, .span b => a == b
  | .version a, .version b => a == b
  | .line a, .line b => a == b
  | .operator _ i, .operator _ j => i == j
  | .shared p, .shared q => p == q
  | a, b =>
    match a.number?, b.number? with
    | some x, some y => Binary64.compare x y == some .eq
    | _, _ => false

/-- Equality of two lists, item by item; an item is the same as itself. -/
def eqvAll : List Value → List Value → Bool
  | [], [] => true
  | x :: xs, y :: ys => (isOneNaN x y || eqv x y) && eqvAll xs ys
  | _, _ => false

/-- Every entry of the first list has an equal one in the second. -/
def entriesWithin : List (Value × Value) → List (Value × Value) → Bool
  | [], _ => true
  | (k, v) :: es, fs =>
    fs.any (fun f => (isOneNaN k f.1 || eqv k f.1) && (isOneNaN v f.2 || eqv v f.2))
      && entriesWithin es fs

/-- Every member of the first list has an equal one in the second. -/
def membersWithin : List Value → List Value → Bool
  | [], _ => true
  | x :: xs, ys => ys.any (fun y => isOneNaN x y || eqv x y) && membersWithin xs ys

end

/-- Whether two values are one for a container: the same object, or equal. -/
def same (v w : Value) : Bool := isOneNaN v w || eqv v w

/-- Texts are no floats, so they are the same only if they are equal. -/
@[simp] theorem same_text (cs : List Char) (w : Value) : same (.text cs) w = eqv (.text cs) w := rfl

/-- So are integers. -/
@[simp] theorem same_int (n : Int) (w : Value) : same (.int n) w = eqv (.int n) w := rfl

/-- So are byte sequences. -/
@[simp] theorem same_octets (kind : OctetKind) (bs : List UInt8) (w : Value) :
    same (.octets kind bs) w = eqv (.octets kind bs) w := rfl

mutual

/-- Every value is the same as itself. -/
theorem same_self : ∀ v : Value, v.same v = true
  | .null | .bool _ | .int _ | .text _ | .octets .. | .span _ | .version _ | .line _ | .operator ..
  | .shared _ => by
    simp [same, eqv, number?, Binary64.compare_ofInt]
  | .float x => by
    by_cases h : Binary64.ofFloat x.number = .notNumber
    · simp [same, isOneNaN, h]
    · simp [same, eqv, number?, Binary64.compare_self h]
  | .list xs | .tuple xs | .array _ xs => by simp [same, eqv, eqvAll_self xs]
  | .dict es => by simp [same, eqv, entriesWithin_of_subset es es fun _ h => h]
  | .set xs _ => by simp [same, eqv, membersWithin_of_subset xs xs fun _ h => h]

/-- A list is equal to itself, whatever its items are. -/
theorem eqvAll_self : ∀ xs : List Value, eqvAll xs xs = true
  | [] => by rw [eqvAll]
  | x :: xs => by
    have hitem := same_self x
    rw [same] at hitem
    rw [eqvAll, hitem, eqvAll_self xs]
    rfl

/-- A set lies within every set that has its members. -/
theorem membersWithin_of_subset :
    ∀ xs ys : List Value, (∀ x ∈ xs, x ∈ ys) → membersWithin xs ys = true
  | [], _, _ => by rw [membersWithin]
  | x :: xs, ys, h => by
    have hitem := same_self x
    have hrest := membersWithin_of_subset xs ys fun y hy => h y (List.mem_cons_of_mem x hy)
    rw [same] at hitem
    rw [membersWithin, hrest, Bool.and_true, List.any_eq_true]
    exact ⟨x, h x List.mem_cons_self, hitem⟩

/-- A dictionary lies within every dictionary that has its entries. -/
theorem entriesWithin_of_subset :
    ∀ es fs : List (Value × Value), (∀ e ∈ es, e ∈ fs) → entriesWithin es fs = true
  | [], _, _ => by rw [entriesWithin]
  | (k, v) :: es, fs, h => by
    have hkey := same_self k
    have hvalue := same_self v
    have hrest := entriesWithin_of_subset es fs fun f hf => h f (List.mem_cons_of_mem _ hf)
    rw [same] at hkey hvalue
    rw [entriesWithin, hrest, Bool.and_true, List.any_eq_true]
    exact ⟨(k, v), h _ List.mem_cons_self, by rw [hkey, hvalue]; rfl⟩

end

/-- Whether a list has `x` as a member. -/
def isMember (x : Value) (xs : List Value) : Bool := xs.any (same x)

/-- The values of a list without those that are the same as an earlier one. -/
def distinct (xs : List Value) : List Value :=
  (xs.foldl (fun done x => if done.any (same x) then done else x :: done) []).reverse

end Value

end Itemwise
