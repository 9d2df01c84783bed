import Itemwise.Proofs.Json.Grammar

namespace Itemwise.Json

/-!
# Nesting in JSON documents

How deeply the containers of a document enclose one another, and what there is in it that cannot be
read within some levels of nesting.

* `Tree.nestingWith`, `Tree.nesting` — the nesting of a tree, where an empty object counts as one
  level or as none;
* `Tree.integers`, `Tree.IsShort` — the numbers of a tree that denote integers, and that none is too
  long;
* `Tree.fault?`, `Tree.nestedFault?` — the first fault of reading a tree within some levels of
  nesting;
* `Tree.fault?_of_isShort` — in a short tree, the only fault is nesting too deeply.

A container without anything in it is entered if it is an array, and is not if it is an object: that
is the difference between `Tree.nestingWith 1` and `Tree.nestingWith 0`.
-/

namespace Tree

mutual

/-- The greatest number of containers that enclose one another, where an empty object counts as
    `e`. -/
def nestingWith (e : Nat) : Tree → Nat
  | array ts => nestingOfAll e ts + 1
  | object ms => if ms.isEmpty then e else nestingOfMembers e ms + 1
  | _ => 0

/-- The greatest nesting in some elements. -/
def nestingOfAll (e : Nat) : List Tree → Nat
  | [] => 0
  | t :: ts => max (nestingWith e t) (nestingOfAll e ts)

/-- The greatest nesting in some members. -/
def nestingOfMembers (e : Nat) : List (List Char × Tree) → Nat
  | [] => 0
  | (_, t) :: ms => max (nestingWith e t) (nestingOfMembers e ms)

end

/-- The greatest number of containers, empty or not, that enclose one another. -/
def nesting (t : Tree) : Nat := t.nestingWith 1

mutual

/-- The numbers of a tree with neither fraction nor exponent. -/
def integers : Tree → List (List Char)
  | integer w => [w]
  | array ts => integersOfAll ts
  | object ms => integersOfMembers ms
  | _ => []

/-- Those of some elements. -/
def integersOfAll : List Tree → List (List Char)
  | [] => []
  | t :: ts => integers t ++ integersOfAll ts

/-- Those of some members. -/
def integersOfMembers : List (List Char × Tree) → List (List Char)
  | [] => []
  | (_, t) :: ms => integers t ++ integersOfMembers ms

end

/-- All integers of a tree have at most as many digits as a conversion handles. -/
def IsShort (t : Tree) : Prop := ∀ w ∈ t.integers, (unsigned w).length ≤ Decimal.digitLimit

mutual

/-- The first fault of reading a tree in the order of its text, where containers may be entered
    `levels` deep and `deep` is the fault of going deeper.  An array is entered before its end is
    looked for, an object only where a key has been read. -/
def fault? (deep : Fault) : (levels : Nat) → Tree → Option Fault
  | _, integer w => if Decimal.digitLimit < (unsigned w).length then some .badValue else none
  | 0, array _ => some deep
  | levels + 1, array ts => faultOfAll? deep levels ts
  | 0, object ms => if ms.isEmpty then none else some deep
  | levels + 1, object ms => faultOfMembers? deep levels ms
  | _, _ => none

/-- The first fault of some elements. -/
def faultOfAll? (deep : Fault) (levels : Nat) : List Tree → Option Fault
  | [] => none
  | t :: ts => (fault? deep levels t).or (faultOfAll? deep levels ts)

/-- The first fault of some members. -/
def faultOfMembers? (deep : Fault) (levels : Nat) : List (List Char × Tree) → Option Fault
  | [] => none
  | (_, t) :: ms => (fault? deep levels t).or (faultOfMembers? deep levels ms)

end

/-- The first fault of reading a tree inside a container, where so many levels are left. -/
def nestedFault? (deep : Fault) : (levels : Nat) → Tree → Option Fault
  | 0, _ => some deep
  | levels + 1, t => t.fault? deep levels

end Tree

/-- The first fault of some parts. -/
def firstFault {α : Type} (faultOf : α → Option Fault) : List α → Option Fault
  | [] => none
  | a :: as => (faultOf a).or (firstFault faultOf as)

/-- There is no first fault if nothing has a fault, and only then. -/
theorem firstFault_eq_none {α : Type} {faultOf : α → Option Fault} {as : List α} :
    firstFault faultOf as = none ↔ ∀ a ∈ as, faultOf a = none := by
  induction as with
  | nil => simp [firstFault]
  | cons a as ih => simp [firstFault, ih]

namespace Tree

/-! What is the first fault, kind by kind. -/

variable (deep : Fault) (levels : Nat)

/-- Null has no fault. -/
@[simp] theorem fault?_null : fault? deep levels null = none := by cases levels <;> rfl

/-- A truth value has no fault. -/
@[simp] theorem fault?_bool (b : Bool) : fault? deep levels (bool b) = none := by
  cases levels <;> rfl

/-- A number with a fraction or an exponent has no fault, however long it is. -/
@[simp] theorem fault?_decimal (w : List Char) : fault? deep levels (decimal w) = none := by
  cases levels <;> rfl

/-- A string has no fault. -/
@[simp] theorem fault?_string (b : List Char) : fault? deep levels (string b) = none := by
  cases levels <;> rfl

/-- An integer has a fault if it is too long. -/
theorem fault?_integer (w : List Char) :
    fault? deep levels (integer w) = if Decimal.digitLimit < (unsigned w).length then some .badValue
    else none := by
  cases levels <;> rfl

/-- The first fault of several values is that of the first one that has one. -/
theorem faultOfAll?_eq (ts : List Tree) :
    faultOfAll? deep levels ts = firstFault (fault? deep levels) ts := by
  induction ts with
  | nil => rfl
  | cons t ts ih => rw [faultOfAll?, firstFault, ih]

/-- So is the first fault of several members. -/
theorem faultOfMembers?_eq (ms : List (List Char × Tree)) :
    faultOfMembers? deep levels ms = firstFault (fun m => fault? deep levels m.2) ms := by
  induction ms with
  | nil => rfl
  | cons m ms ih => rw [faultOfMembers?, firstFault, ih]

/-- The fault of an array that is not empty is the first one among its items, a level deeper. -/
theorem fault?_array {ts : List Tree} (hts : ts ≠ []) :
    fault? deep levels (array ts) = firstFault (nestedFault? deep levels) ts := by
  cases levels with
  | zero =>
    cases ts with
    | nil => contradiction
    | cons t ts => rfl
  | succ levels => exact faultOfAll?_eq deep levels ts

/-- The fault of an object is the first one among its values, a level deeper. -/
theorem fault?_object (ms : List (List Char × Tree)) :
    fault? deep levels (object ms) = firstFault (fun m => m.2.nestedFault? deep levels) ms := by
  cases levels with
  | zero => cases ms <;> rfl
  | succ levels => exact faultOfMembers?_eq deep levels ms

/-! What is the first fault of a tree whose integers are short. -/

variable {deep levels}

/-- The first fault of two parts, if the only one there can be is going too deep. -/
theorem or_eq_ite {m n : Nat} {o o' : Option Fault} (h : o = if m ≤ levels then none else some deep)
    (h' : o' = if n ≤ levels then none else some deep) :
    o.or o' = if max m n ≤ levels then none else some deep := by
  rw [h, h']
  by_cases hm : m ≤ levels
  · by_cases hn : n ≤ levels
    · rw [if_pos hm, if_pos hn, if_pos (Nat.max_le.mpr ⟨hm, hn⟩)]
      rfl
    · rw [if_pos hm, if_neg hn, if_neg fun hmax => hn (Nat.max_le.mp hmax).2]
      rfl
  · rw [if_neg hm, if_neg fun hmax => hm (Nat.max_le.mp hmax).1]
    rfl

mutual

/-- **Short trees.** A tree whose integers are short is read unless it nests too deeply, where an
    empty object does not count as a level. -/
theorem fault?_of_isShort : ∀ (t : Tree) {levels : Nat}, t.IsShort →
    t.fault? deep levels = if t.nestingWith 0 ≤ levels then none else some deep
  | null, levels, _ => by simp [nestingWith]
  | bool b, levels, _ => by simp [nestingWith]
  | decimal w, levels, _ => by simp [nestingWith]
  | string b, levels, _ => by simp [nestingWith]
  | integer w, levels, h => by
    have hw : ¬ Decimal.digitLimit < (unsigned w).length :=
      Nat.not_lt.mpr (h w (by simp [integers]))
    rw [fault?_integer, if_neg hw]
    simp [nestingWith]
  | array ts, 0, _ => by rw [nestingWith, if_neg (Nat.not_succ_le_zero _), fault?]
  | array ts, levels + 1, h => by
    rw [nestingWith, fault?, faultOfAll?_of_isShort ts h]
    simp only [Nat.add_le_add_iff_right]
  | object ms, 0, _ => by
    cases ms with
    | nil => simp [nestingWith, fault?]
    | cons m ms => simp [nestingWith, fault?]
  | object ms, levels + 1, h => by
    rw [fault?, faultOfMembers?_of_isShort ms h, nestingWith]
    cases ms with
    | nil => simp [nestingOfMembers]
    | cons m ms => simp

/-- The same for several values: the only fault of short ones is nesting too deeply. -/
theorem faultOfAll?_of_isShort : ∀ (ts : List Tree) {levels : Nat},
    (∀ w ∈ integersOfAll ts, (unsigned w).length ≤ Decimal.digitLimit) →
    faultOfAll? deep levels ts = if nestingOfAll 0 ts ≤ levels then none else some deep
  | [], levels, _ => by simp [faultOfAll?, nestingOfAll]
  | t :: ts, levels, h => by
    simp only [integersOfAll, List.forall_mem_append] at h
    exact or_eq_ite (fault?_of_isShort t h.1) (faultOfAll?_of_isShort ts h.2)

/-- The same for several members. -/
theorem faultOfMembers?_of_isShort : ∀ (ms : List (List Char × Tree)) {levels : Nat},
    (∀ w ∈ integersOfMembers ms, (unsigned w).length ≤ Decimal.digitLimit) →
    faultOfMembers? deep levels ms = if nestingOfMembers 0 ms ≤ levels then none else some deep
  | [], levels, _ => by simp [faultOfMembers?, nestingOfMembers]
  | (b, t) :: ms, levels, h => by
    simp only [integersOfMembers, List.forall_mem_append] at h
    exact or_eq_ite (fault?_of_isShort t h.1) (faultOfMembers?_of_isShort ms h.2)

end

mutual

/-- A tree without a fault is short. -/
theorem isShort_of_fault?_eq_none :
    ∀ (t : Tree) {levels : Nat}, t.fault? deep levels = none → t.IsShort
  | null, _, _ | bool _, _, _ | decimal _, _, _ | string _, _, _ => by simp [IsShort, integers]
  | integer w, levels, h => by
    rw [fault?_integer] at h
    split at h
    · cases h
    · next hshort => simpa [IsShort, integers] using hshort
  | array ts, levels + 1, h => integersOfAll_of_fault?_eq_none ts h
  | object ms, 0, h => by
    cases ms with
    | nil => simp [IsShort, integers, integersOfMembers]
    | cons m ms => simp [fault?] at h
  | object ms, levels + 1, h => integersOfMembers_of_fault?_eq_none ms h

/-- So are several values without one. -/
theorem integersOfAll_of_fault?_eq_none :
    ∀ (ts : List Tree) {levels : Nat}, faultOfAll? deep levels ts = none →
    ∀ w ∈ integersOfAll ts, (unsigned w).length ≤ Decimal.digitLimit
  | [], _, _ => by simp [integersOfAll]
  | t :: ts, levels, h => by
    simp only [faultOfAll?, Option.or_eq_none_iff] at h
    simp only [integersOfAll, List.forall_mem_append]
    exact ⟨isShort_of_fault?_eq_none t h.1, integersOfAll_of_fault?_eq_none ts h.2⟩

/-- So are several members without one. -/
theorem integersOfMembers_of_fault?_eq_none :
    ∀ (ms : List (List Char × Tree)) {levels : Nat}, faultOfMembers? deep levels ms = none →
    ∀ w ∈ integersOfMembers ms, (unsigned w).length ≤ Decimal.digitLimit
  | [], _, _ => by simp [integersOfMembers]
  | (b, t) :: ms, levels, h => by
    simp only [faultOfMembers?, Option.or_eq_none_iff] at h
    simp only [integersOfMembers, List.forall_mem_append]
    exact ⟨isShort_of_fault?_eq_none t h.1, integersOfMembers_of_fault?_eq_none ms h.2⟩

end

/-- A tree is read just in case it nests no deeper than it may and its integers are short. -/
theorem fault?_eq_none {t : Tree} {levels : Nat} :
    t.fault? deep levels = none ↔ t.nestingWith 0 ≤ levels ∧ t.IsShort := by
  constructor
  · intro h
    have hshort := isShort_of_fault?_eq_none t h
    rw [fault?_of_isShort t hshort] at h
    refine ⟨?_, hshort⟩
    by_cases hle : t.nestingWith 0 ≤ levels
    · exact hle
    · simp [hle] at h
  · rintro ⟨hle, hshort⟩
    rw [fault?_of_isShort t hshort, if_pos hle]

/-- A value inside a container is without a fault if it is short and there are levels enough. -/
theorem nestedFault?_eq_none {t : Tree} {levels : Nat} :
    t.nestedFault? deep levels = none ↔ t.nestingWith 0 + 1 ≤ levels ∧ t.IsShort := by
  cases levels with
  | zero => simp [nestedFault?]
  | succ levels =>
    rw [Nat.add_le_add_iff_right]
    exact fault?_eq_none

/-! How far the two ways to count empty objects are apart. -/

mutual

/-- Counting empty objects, the nesting can only be greater. -/
theorem nestingWith_zero_le : ∀ t : Tree, t.nestingWith 0 ≤ t.nesting
  | null | bool _ | integer _ | decimal _ | string _ => Nat.zero_le _
  | array ts => Nat.succ_le_succ (nestingOfAll_zero_le ts)
  | object ms => by
    have hms := nestingOfMembers_zero_le ms
    simp only [nesting, nestingWith]
    split <;> omega

/-- The same for several values. -/
theorem nestingOfAll_zero_le : ∀ ts : List Tree, nestingOfAll 0 ts ≤ nestingOfAll 1 ts
  | [] => Nat.le_refl 0
  | t :: ts => by
    have ht := nestingWith_zero_le t
    have hts := nestingOfAll_zero_le ts
    simp only [nesting] at ht
    simp only [nestingOfAll]
    omega

/-- The same for several members. -/
theorem nestingOfMembers_zero_le :
    ∀ ms : List (List Char × Tree), nestingOfMembers 0 ms ≤ nestingOfMembers 1 ms
  | [] => Nat.le_refl 0
  | (_, t) :: ms => by
    have ht := nestingWith_zero_le t
    have hms := nestingOfMembers_zero_le ms
    simp only [nesting] at ht
    simp only [nestingOfMembers]
    omega

end

mutual

/-- Counting empty objects, the nesting is greater by one level at most. -/
theorem nesting_le_succ : ∀ t : Tree, t.nesting ≤ t.nestingWith 0 + 1
  | null | bool _ | integer _ | decimal _ | string _ => Nat.zero_le _
  | array ts => Nat.succ_le_succ (nestingOfAll_le_succ ts)
  | object ms => by
    have hms := nestingOfMembers_le_succ ms
    simp only [nesting, nestingWith]
    split <;> omega

/-- The same for several values. -/
theorem nestingOfAll_le_succ : ∀ ts : List Tree, nestingOfAll 1 ts ≤ nestingOfAll 0 ts + 1
  | [] => Nat.zero_le _
  | t :: ts => by
    have ht := nesting_le_succ t
    have hts := nestingOfAll_le_succ ts
    simp only [nesting] at ht
    simp only [nestingOfAll]
    omega

/-- The same for several members. -/
theorem nestingOfMembers_le_succ :
    ∀ ms : List (List Char × Tree), nestingOfMembers 1 ms ≤ nestingOfMembers 0 ms + 1
  | [] => Nat.zero_le _
  | (_, t) :: ms => by
    have ht := nesting_le_succ t
    have hms := nestingOfMembers_le_succ ms
    simp only [nesting] at ht
    simp only [nestingOfMembers]
    omega

end

end Tree

end Itemwise.Json
