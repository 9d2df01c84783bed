import Itemwise.Proofs.Pattern.Acceptance
import Itemwise.Proofs.Run.Places
import Itemwise.Value.Fingerprint
import Mathlib.Data.List.Forall2

namespace Itemwise.Value

/-!
# Keys that are the same

Being the same is reflexive, and on keys it is symmetric and transitive too, which is what a
dictionary relies on.  Equality alone would not do, as what is not a number equals nothing.  Among
all values neither is transitive: a fixed array equals both a list and a tuple.

* `IsProperKey` — the keys that there are: no two members of a set are the same;
* `bare` — a value without what equality does not look at;
* `IsProperKey.same_symm_trans` — being the same is symmetric and transitive on keys;
* `IsProperKey.same_comm`, `IsProperKey.same_congr` — so a key may be replaced by the same one.
-/

variable {a b c v : Value} {x y : Binary64}

/-- Whether a value holds others that it is compared by. -/
def isCompound : Value → Bool
  | .tuple _ | .set .. => true
  | _ => false

/-- A key that is made as keys are: no two members of a set in it are the same. -/
inductive IsProperKey : Value → Prop
  | simple {v : Value} (hkey : v.isKey = true) (hsimple : v.isCompound = false) : IsProperKey v
  | tuple {xs : List Value} (hmembers : ∀ x ∈ xs, IsProperKey x) : IsProperKey (.tuple xs)
  | set {xs : List Value} {spots : Spots} (hmembers : ∀ x ∈ xs, IsProperKey x)
      (hdistinct : xs.Pairwise fun x y => x.same y = false) : IsProperKey (.set xs spots)

/-- Such a key is fit as one. -/
theorem IsProperKey.isKey (h : v.IsProperKey) : v.isKey = true := by
  induction h with
  | simple hkey _ => exact hkey
  | tuple _ ih =>
    rw [Value.isKey, areKeys_eq_all, List.all_eq_true]
    exact ih
  | set _ _ ih =>
    rw [Value.isKey, areKeys_eq_all, List.all_eq_true]
    exact ih

/-! ### Numbers and other simple keys -/

/-- What equals a number is a number that compares equal to it. -/
theorem eqv_iff_of_number (hx : a.number? = some x) :
    a.eqv b = true ↔ ∃ y, b.number? = some y ∧ Binary64.compare x y = some .eq := by
  refine ⟨compare_of_eqv hx, fun ⟨y, hy, heq⟩ => ?_⟩
  cases a <;> cases b <;> simp_all [eqv, number?]
  subst hx hy
  simpa [Binary64.compare_ofInt] using heq

/-- Two values are one key if they are one object that is no number, or equal. -/
theorem same_iff : a.same b = true ↔ a.isOneNaN b = true ∨ a.eqv b = true := by
  rw [same, Bool.or_eq_true]

/-- One float that is not a number is the same whichever way round, and as a third if that is the
    same as it. -/
theorem isOneNaN_comm (a b : Value) : a.isOneNaN b = b.isOneNaN a := by
  cases a <;> cases b <;> try rfl
  rename_i x y
  rw [isOneNaN, isOneNaN, BEq.comm (a := x.made), Bool.and_assoc, Bool.and_assoc]
  exact congrArg _ (Bool.and_comm _ _)

/-- Objects that are both one with a third are one. -/
theorem isOneNaN_trans (hab : a.isOneNaN b = true) (hbc : b.isOneNaN c = true) :
    a.isOneNaN c = true := by
  cases a <;> cases b <;> cases c <;> simp_all [isOneNaN]

/-- Such an object is no number. -/
theorem number?_of_isOneNaN (h : a.isOneNaN b = true) : a.number? = some .notNumber := by
  cases a <;> cases b <;> simp_all [isOneNaN, number?]

/-- What is not a number equals nothing, so where it is the same as something, that is by being the
    same object. -/
theorem same_iff_of_isOneNaN (h : a.isOneNaN b = true) : b.same c = true ↔ b.isOneNaN c = true := by
  have hb := number?_of_isOneNaN (isOneNaN_comm a b ▸ h)
  rw [same_iff, or_iff_left]
  rintro heq
  obtain ⟨y, -, hy⟩ := compare_of_eqv hb heq
  cases hy

/-- A value without what equality does not look at: the kind of a byte sequence, and what a
    function does. -/
def bare : Value → Value
  | .octets _ bs => .octets .fixed bs
  | .operator _ made => .operator .add made
  | v => v

/-- A simple key that is no number is the same as what does not differ but for that. -/
theorem same_iff_bare (hkey : a.isKey = true) (hsimple : a.isCompound = false)
    (hnumber : a.number? = none) : a.same b = true ↔ a.bare = b.bare := by
  cases a <;> cases b <;> simp_all [same, isOneNaN, eqv, number?, isKey, isCompound, bare]

/-- The object that a number is makes no difference to its value. -/
theorem number?_bare (v : Value) : v.bare.number? = v.number? := by cases v <;> rfl

/-- Nor to whether a value is made of others. -/
theorem isCompound_bare (v : Value) : v.bare.isCompound = v.isCompound := by cases v <;> rfl

/-! ### Tuples and sets -/

/-- Two lists are equal if their items are the same, one by one. -/
theorem eqvAll_eq_true {xs ys : List Value} :
    eqvAll xs ys = true ↔ List.Forall₂ (fun x y => x.same y = true) xs ys := by
  induction xs generalizing ys with
  | nil => cases ys <;> simp [eqvAll]
  | cons x xs ih => cases ys <;> simp [eqvAll, ih, same]

/-- One list is within another if each of its members is some member there. -/
theorem membersWithin_eq_true {xs ys : List Value} :
    membersWithin xs ys = true ↔ ∀ x ∈ xs, ∃ y ∈ ys, x.same y = true := by
  induction xs with
  | nil => simp [membersWithin]
  | cons x xs ih => simp [membersWithin, ih, same]

/-- If as many things as there are places have each a place, and no two of them the same, no place
    is left over. -/
theorem exists_of_matched {α β : Type} {r : α → β → Prop} {xs : List α} {ys : List β}
    (hlength : xs.length = ys.length) (hplaced : ∀ x ∈ xs, ∃ y ∈ ys, r x y)
    (hapart : xs.Pairwise fun x x' => ∀ y ∈ ys, r x y → ¬ r x' y) : ∀ y ∈ ys, ∃ x ∈ xs, r x y := by
  induction xs generalizing ys with
  | nil =>
    rw [List.length_eq_zero_iff.mp hlength.symm]
    nofun
  | cons x xs ih =>
    obtain ⟨hx, hapart⟩ := List.pairwise_cons.mp hapart
    obtain ⟨y, hy, hxy⟩ := hplaced x List.mem_cons_self
    obtain ⟨front, back, rfl⟩ := List.append_of_mem hy
    -- The others have their places among those that are left.
    have hsub {z : β} (hz : z ∈ front ++ back) : z ∈ front ++ y :: back := by
      simp only [List.mem_append, List.mem_cons] at hz ⊢
      tauto
    have hrest := @ih (front ++ back) (by simp at hlength ⊢; omega)
      (fun x' hx' => by
        obtain ⟨y', hy', hxy'⟩ := hplaced x' (List.mem_cons_of_mem x hx')
        have hne : y' ≠ y := by
          rintro rfl
          exact hx x' hx' y' hy hxy hxy'
        refine ⟨y', ?_, hxy'⟩
        simp only [List.mem_append, List.mem_cons] at hy' ⊢
        tauto)
      (hapart.imp fun h z hz => h z (hsub hz))
    intro z hz
    by_cases hzy : z = y
    · exact ⟨x, List.mem_cons_self, hzy ▸ hxy⟩
    · obtain ⟨x', hx', hxz⟩ := hrest z (by
        simp only [List.mem_append, List.mem_cons] at hz ⊢
        tauto)
      exact ⟨x', List.mem_cons_of_mem x hx', hxz⟩

/-- What a tuple that is a key is the same as. -/
theorem IsProperKey.same_tuple {xs : List Value} (hb : b.IsProperKey) :
    (Value.tuple xs).same b = true ↔
      ∃ ys, b = .tuple ys ∧ List.Forall₂ (fun x y => x.same y = true) xs ys := by
  have hkey := hb.isKey
  cases b <;> simp_all [same_iff, isOneNaN, eqv, number?, eqvAll_eq_true, Value.isKey]

/-- What a set is the same as: a set of as many members, among which each of its own is found. -/
theorem same_set {xs : List Value} {spots : Spots} : (Value.set xs spots).same b = true ↔
    ∃ ys spots', b = .set ys spots' ∧ xs.length = ys.length ∧ ∀ x ∈ xs, ∃ y ∈ ys,
      x.same y = true := by
  cases b <;> simp [same_iff, isOneNaN, eqv, number?, membersWithin_eq_true]

/-- The members of a tuple that is a key are keys. -/
theorem IsProperKey.of_mem_tuple {xs : List Value} (h : IsProperKey (.tuple xs)) {x : Value}
    (hx : x ∈ xs) : x.IsProperKey := by
  cases h with
  | simple _ hsimple => cases hsimple
  | tuple hmembers => exact hmembers x hx

/-- So are those of a set. -/
theorem IsProperKey.of_mem_set {xs : List Value} {spots : Spots} (h : IsProperKey (.set xs spots))
    {x : Value} (hx : x ∈ xs) : x.IsProperKey := by
  cases h with
  | simple _ hsimple => cases hsimple
  | set hmembers _ => exact hmembers x hx

/-! ### Keys -/

/-- Being the same as a number is symmetric and transitive. -/
theorem same_symm_trans_of_number (hx : a.number? = some x) (hab : a.same b = true) :
    b.same a = true ∧ ∀ {c : Value}, b.same c = true → a.same c = true := by
  rcases same_iff.mp hab with hone | hab
  · refine ⟨same_iff.mpr (.inl (isOneNaN_comm a b ▸ hone)), fun hbc => ?_⟩
    exact same_iff.mpr (.inl (isOneNaN_trans hone ((same_iff_of_isOneNaN hone).mp hbc)))
  · obtain ⟨y, hy, hxy⟩ := (eqv_iff_of_number hx).mp hab
    obtain ⟨r, hxr, hyr⟩ := Binary64.compare_eq_eq.mp hxy
    have hba : b.eqv a = true :=
      (eqv_iff_of_number hy).mpr ⟨x, hx, Binary64.compare_eq_eq.mpr ⟨r, hyr, hxr⟩⟩
    refine ⟨same_iff.mpr (.inr hba), fun {c} hbc => same_iff.mpr (.inr ?_)⟩
    have hbc : b.eqv c = true := by
      refine (same_iff.mp hbc).resolve_left fun hone => ?_
      rw [number?_of_isOneNaN hone, Option.some.injEq] at hy
      rw [← hy] at hyr
      cases hyr
    obtain ⟨z, hz, hyz⟩ := (eqv_iff_of_number hy).mp hbc
    obtain ⟨r', hyr', hzr⟩ := Binary64.compare_eq_eq.mp hyz
    obtain rfl : r = r' := Option.some.inj (hyr.symm.trans hyr')
    exact (eqv_iff_of_number hx).mpr ⟨z, hz, Binary64.compare_eq_eq.mpr ⟨r, hxr, hzr⟩⟩

/-- **Keys that are the same.** Being the same is symmetric and transitive on keys.  For sets, the
    one needs the other: that no two members have the same member in the other set, is known from
    their not being the same. -/
theorem IsProperKey.same_symm_trans (ha : a.IsProperKey) {b : Value} (hb : b.IsProperKey)
    (hab : a.same b = true) :
    b.same a = true ∧ ∀ {c : Value}, c.IsProperKey → b.same c = true → a.same c = true := by
  induction ha generalizing b with
  | @simple a hkey hsimple =>
    cases hx : a.number? with
    | some x =>
      obtain ⟨hba, htrans⟩ := same_symm_trans_of_number hx hab
      exact ⟨hba, fun _ hbc => htrans hbc⟩
    | none =>
      have hbare := (same_iff_bare hkey hsimple hx).mp hab
      have hbsimple : b.isCompound = false := by
        rw [← isCompound_bare, ← hbare, isCompound_bare, hsimple]
      have hbnumber : b.number? = none := by rw [← number?_bare, ← hbare, number?_bare, hx]
      refine ⟨(same_iff_bare hb.isKey hbsimple hbnumber).mpr hbare.symm, fun {c} _ hbc => ?_⟩
      have hbare' := (same_iff_bare hb.isKey hbsimple hbnumber).mp hbc
      exact (same_iff_bare hkey hsimple hx).mpr (hbare.trans hbare')
  | @tuple xs hmembers ih =>
    obtain ⟨ys, rfl, hxys⟩ := hb.same_tuple.mp hab
    obtain ⟨hlength, hxys⟩ := List.forall₂_iff_get.mp hxys
    have hmember (i : Nat) (hx : i < xs.length) (hy : i < ys.length) :=
      ih (xs.get ⟨i, hx⟩) (List.get_mem xs _) (hb.of_mem_tuple (List.get_mem ys ⟨i, hy⟩))
        (hxys i hx hy)
    refine ⟨(IsProperKey.tuple hmembers).same_tuple.mpr ⟨xs, rfl, ?_⟩, fun {c} hc hbc => ?_⟩
    · exact List.forall₂_iff_get.mpr ⟨hlength.symm, fun i hy hx => (hmember i hx hy).1⟩
    · obtain ⟨zs, rfl, hyzs⟩ := hc.same_tuple.mp hbc
      obtain ⟨hlength', hyzs⟩ := List.forall₂_iff_get.mp hyzs
      refine hc.same_tuple.mpr ⟨zs, rfl, List.forall₂_iff_get.mpr ⟨hlength.trans hlength', ?_⟩⟩
      intro i hx hz
      have hy : i < ys.length := hlength ▸ hx
      exact (hmember i hx hy).2 (hc.of_mem_tuple (List.get_mem zs _)) (hyzs i hy hz)
  | @set xs spots hmembers hdistinct ih =>
    obtain ⟨ys, spots', rfl, hlength, hxys⟩ := same_set.mp hab
    refine ⟨same_set.mpr ⟨xs, spots, rfl, hlength.symm, ?_⟩, fun {c} hc hbc => ?_⟩
    · have hapart : xs.Pairwise fun x x' => ∀ y ∈ ys, x.same y = true → ¬ x'.same y = true := by
        refine hdistinct.imp_of_mem fun {x x'} hx hx' hne y hy hxy hxy' => ?_
        have hyx' := (ih x' hx' (hb.of_mem_set hy) hxy').1
        rw [(ih x hx (hb.of_mem_set hy) hxy).2 (hmembers x' hx') hyx'] at hne
        cases hne
      intro y hy
      obtain ⟨x, hx, hxy⟩ := exists_of_matched hlength hxys hapart y hy
      exact ⟨x, hx, (ih x hx (hb.of_mem_set hy) hxy).1⟩
    · obtain ⟨zs, spots'', rfl, hlength', hyzs⟩ := same_set.mp hbc
      refine same_set.mpr ⟨zs, spots'', rfl, hlength.trans hlength', fun x hx => ?_⟩
      obtain ⟨y, hy, hxy⟩ := hxys x hx
      obtain ⟨z, hz, hyz⟩ := hyzs y hy
      exact ⟨z, hz, (ih x hx (hb.of_mem_set hy) hxy).2 (hc.of_mem_set hz) hyz⟩

/-- Two keys are one in either order. -/
theorem IsProperKey.same_comm (ha : a.IsProperKey) (hb : b.IsProperKey) : a.same b = b.same a := by
  rw [Bool.eq_iff_iff]
  exact ⟨fun h => (ha.same_symm_trans hb h).1, fun h => (hb.same_symm_trans ha h).1⟩

/-- Keys that are the same, are so as the same keys. -/
theorem IsProperKey.same_congr (ha : a.IsProperKey) (hb : b.IsProperKey) (hab : a.same b = true)
    (hc : c.IsProperKey) : a.same c = b.same c := by
  obtain ⟨hba, htrans⟩ := ha.same_symm_trans hb hab
  rw [Bool.eq_iff_iff]
  exact ⟨fun h => (hb.same_symm_trans ha hba).2 hc h, fun h => htrans hc h⟩

end Itemwise.Value
