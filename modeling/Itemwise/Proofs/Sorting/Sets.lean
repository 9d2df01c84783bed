import Itemwise.Proofs.Sorting.Keys
import Itemwise.Value.Arithmetic
import Mathlib.Data.List.Perm.Subperm

namespace Itemwise

/-!
# The members of sets

However the table of a set is filled, and whatever is moved to a larger one, no member gets into it
twice.  So no set that is made has two members that are the same.

* `Slots.values` — the values in a table;
* `Slots.values_foldl`, `Slots.values_fill`, `Slots.values_copy` — what gets into a table are some
  of the values that are put there;
* `Value.AreMembers` — values of which none is the same as another;
* `Value.isProperKey_setOf`, `Value.IsProperKey.sub` — so the sets of keys that are made are keys as
  they should be.
-/

namespace Slots

variable {t : Table} {xs : List Value} {ms : List Member}

/-- The values in a table, slot by slot. -/
def values (t : Table) : List Value := t.toList.filterMap fun slot => slot.map Member.value

/-! ### Tables -/

/-- The values of the members of a table are its values. -/
theorem map_value_members (t : Table) : (members t).map Member.value = values t := by
  rw [members, values, List.map_filterMap]
  rfl

/-- A table of free slots has no values. -/
theorem values_free (size : Nat) : values (free size) = [] := by
  rw [values, free, Array.toList_replicate, List.filterMap_eq_nil_iff]
  intro slot hslot
  rw [List.eq_of_mem_replicate hslot]
  rfl

/-- A member put into a slot is all that comes to the values. -/
theorem filterMap_set_subperm (slots : List (Option Member)) (i : Nat) (m : Member) :
    ((slots.set i (some m)).filterMap fun slot => slot.map Member.value).Subperm
      (m.value :: slots.filterMap fun slot => slot.map Member.value) := by
  induction slots generalizing i with
  | nil => exact List.nil_subperm
  | cons slot slots ih =>
    cases i with
    | zero =>
      refine (List.subperm_cons m.value).mpr (List.Sublist.subperm ?_)
      exact (List.sublist_cons_self slot slots).filterMap _
    | succ i =>
      cases slot with
      | none => exact ih i
      | some n =>
        refine ((List.subperm_cons n.value).mpr (ih i)).trans ?_
        exact (List.Perm.swap m.value n.value _).subperm

/-- A value that is put in a slot gets into the table, and one that was there before is lost. -/
theorem values_setIfInBounds (t : Table) (i : Nat) (m : Member) :
    (values (t.setIfInBounds i (some m))).Subperm (m.value :: values t) := by
  rw [values, Array.toList_setIfInBounds]
  exact filterMap_set_subperm t.toList i m

/-- A member put into a table is all that comes to its values. -/
theorem values_place (t : Table) (m : Member) :
    (values (place t m)).Subperm (m.value :: values t) :=
  values_setIfInBounds t _ m

/-- Where each step puts a value in a slot, no other values get into the table. -/
theorem values_foldl {α : Type} {f : Table → α → Table} {value : α → Value}
    (h : ∀ t a, (values (f t a)).Subperm (value a :: values t)) (as : List α) (t : Table) :
    (values (as.foldl f t)).Subperm (values t ++ as.map value) := by
  induction as generalizing t with
  | nil => exact (List.Perm.of_eq (List.append_nil _).symm).subperm
  | cons a as ih =>
    refine (ih _).trans (((List.subperm_append_right _).mpr (h t a)).trans ?_)
    exact List.perm_middle.symm.subperm

/-- The values of a table come from the members put into it. -/
theorem values_placeAll (size : Nat) (ms : List Member) :
    (values (placeAll size ms)).Subperm (ms.map Member.value) := by
  have h := values_foldl values_place ms (free size)
  rwa [values_free] at h

/-- Neither do other values get into a table that gives way to a larger one. -/
theorem values_fill (t : Table) (n : Nat) (ms : List Member) :
    (values (fill t n ms)).Subperm (values t ++ ms.map Member.value) := by
  induction ms generalizing t n with
  | nil => exact (List.Perm.of_eq (List.append_nil _).symm).subperm
  | cons m ms ih =>
    have hplace : (values (place t m) ++ ms.map Member.value).Subperm
        (values t ++ (m :: ms).map Member.value) :=
      ((List.subperm_append_right _).mpr (values_place t m)).trans List.perm_middle.symm.subperm
    rw [fill]
    split
    · exact (ih _ _).trans hplace
    · refine (ih _ _).trans (((List.subperm_append_right _).mpr ?_).trans hplace)
      rw [← map_value_members (place t m)]
      exact values_placeAll _ _

/-- A copy has no other values than the set. -/
theorem values_copy (ms : List Member) (spots : Spots) :
    (values (copy ms spots)).Subperm (ms.map Member.value) := by
  unfold copy
  generalize (if ms.length < 5 then 8 else sizeAbove (2 * ms.length)) = size
  dsimp only
  split
  · have hslots := values_foldl (fun t (p : Member × Nat) => values_setIfInBounds t p.2 p.1)
      (ms.zip spots.taken) (free size)
    rw [values_free, List.nil_append] at hslots
    have htaken : ((ms.zip spots.taken).map Prod.fst).Sublist ms := by
      rw [List.zip_eq_zip_take_min, List.map_fst_zip (by simp)]
      exact List.take_sublist _ ms
    have hvalues := htaken.map Member.value
    rw [List.map_map] at hvalues
    exact hslots.trans hvalues.subperm
  · exact values_placeAll size ms

/-! ### Sets -/

/-- The members of a set are values of its table. -/
theorem exists_toSet (t : Table) (isOut : Value → Bool) :
    ∃ ys spots, toSet t isOut = .set ys spots ∧ ys.Sublist (values t) := by
  let slots := t.toList.zipIdx.filterMap fun slot => slot.1.map fun m => (m.value, slot.2)
  have hslots : slots.map Prod.fst = values t := by
    rw [List.map_filterMap, values, ← List.zipIdx_map_fst 0 t.toList, List.filterMap_map,
      List.zipIdx_map_fst]
    refine List.filterMap_congr fun slot _ => ?_
    show (slot.1.map _).map _ = slot.1.map _
    rw [Option.map_map]
    rfl
  refine ⟨_, _, rfl, ?_⟩
  rw [← hslots]
  exact List.filter_sublist.map Prod.fst

/-- Members are made of values, which they keep. -/
theorem map_value_of_mapM (h : xs.mapM member? = some ms) : ms.map Member.value = xs := by
  induction xs generalizing ms with
  | nil =>
    cases h
    rfl
  | cons x xs ih =>
    rw [List.mapM_cons] at h
    obtain ⟨m, hm, h⟩ := Option.bind_eq_some_iff.mp h
    obtain ⟨ms', hms, h⟩ := Option.bind_eq_some_iff.mp h
    cases h
    obtain ⟨code, -, rfl⟩ := Option.map_eq_some_iff.mp hm
    rw [List.map_cons, ih hms]

/-- The set of a list has values of that list, each no more often. -/
theorem exists_ofList (xs : List Value) :
    ∃ ys spots, ofList xs = .set ys spots ∧ ys.Subperm xs := by
  rw [ofList]
  split
  next ms hms =>
    obtain ⟨ys, spots, hset, hys⟩ := exists_toSet (fill (free 8) 0 ms) fun _ => false
    refine ⟨ys, spots, hset, hys.subperm.trans ?_⟩
    have hfill := values_fill (free 8) 0 ms
    rwa [values_free, map_value_of_mapM hms] at hfill
  next => exact ⟨xs, {}, rfl, .refl xs⟩

/-- A set without some members has the others of them only. -/
theorem exists_without (xs : List Value) (spots : Spots) (others : List Value) :
    ∃ ys spots', without xs spots others = .set ys spots' ∧ ys.Subperm xs := by
  rw [without]
  split
  next ms hms =>
    split
    · obtain ⟨ys, spots', hset, hys⟩ := exists_toSet (copy ms spots) fun x => x.isMember others
      refine ⟨ys, spots', hset, hys.subperm.trans ?_⟩
      have hcopy := values_copy ms spots
      rwa [map_value_of_mapM hms] at hcopy
    · obtain ⟨ys, spots', hset, hys⟩ := exists_ofList (xs.filter fun x => !x.isMember others)
      exact ⟨ys, spots', hset, hys.trans List.filter_sublist.subperm⟩
  next => exact ⟨_, {}, rfl, List.filter_sublist.subperm⟩

end Slots

namespace Value

variable {xs ys : List Value} {v : Value} {spots : Spots}

/-- Values that can be the members of one set: keys of which none is the same as another. -/
structure AreMembers (xs : List Value) : Prop where
  isProperKey : ∀ x ∈ xs, x.IsProperKey
  apart : xs.Pairwise fun x y => x.same y = false

/-- Some of them, in any order, can be the members of a set as well. -/
theorem AreMembers.of_subperm (h : AreMembers xs) (hys : ys.Subperm xs) : AreMembers ys := by
  obtain ⟨zs, hperm, hsublist⟩ := hys
  have hzs (z : Value) (hz : z ∈ zs) : z.IsProperKey := h.isProperKey z (hsublist.subset hz)
  have hapart : zs.Pairwise fun x y => x.same y = false ∧ y.same x = false :=
    (h.apart.sublist hsublist).imp_of_mem fun {x y} hx hy hne =>
    ⟨hne, by rw [(hzs y hy).same_comm (hzs x hx), hne]⟩
  refine ⟨fun y hy => hzs y (hperm.mem_iff.mpr hy), ?_⟩
  exact ((hperm.pairwise_iff fun hne => ⟨hne.2, hne.1⟩).mp hapart).imp And.left

/-- Values that are told apart from those before them, can be the members of a set with them. -/
theorem AreMembers.foldl (h : AreMembers ys) (hxs : ∀ x ∈ xs, x.IsProperKey) :
    AreMembers (xs.foldl (fun done x => if done.any (same x) then done else x :: done) ys) := by
  induction xs generalizing ys with
  | nil => exact h
  | cons x xs ih =>
    obtain ⟨hx, hxs⟩ := List.forall_mem_cons.mp hxs
    rw [List.foldl_cons]
    refine ih ?_ hxs
    split
    · exact h
    next hnew =>
      refine ⟨List.forall_mem_cons.mpr ⟨hx, h.isProperKey⟩,
        List.pairwise_cons.mpr ⟨fun y hy => ?_, h.apart⟩⟩
      rw [List.any_eq_true] at hnew
      exact Bool.eq_false_iff.mpr fun heq => hnew ⟨y, hy, heq⟩

/-- Distinct members can be the members of a set. -/
theorem areMembers_distinct (hxs : ∀ x ∈ xs, x.IsProperKey) : AreMembers (distinct xs) :=
  (AreMembers.foldl ⟨List.forall_mem_nil _, .nil⟩ hxs).of_subperm (List.reverse_perm _).subperm

/-- **The set of some keys** is a key: no two of its members are the same. -/
theorem isProperKey_setOf (hxs : ∀ x ∈ xs, x.IsProperKey) (h : setOf xs = .ok v) :
    v.IsProperKey := by
  obtain ⟨ys, spots, hset, hys⟩ := Slots.exists_ofList (distinct xs)
  have hmembers := (areMembers_distinct hxs).of_subperm hys
  rw [setOf, hset] at h
  split at h
  · cases h
    exact .set hmembers.isProperKey hmembers.apart
  · cases h

/-- So is a set without the members of another. -/
theorem IsProperKey.sub {spots' : Spots} (h : IsProperKey (.set xs spots))
    (hv : (Value.set xs spots).sub (.set ys spots') = .ok v) :
    v.IsProperKey := by
  obtain ⟨zs, spots'', hset, hzs⟩ := Slots.exists_without xs spots ys
  rw [Value.sub, hset] at hv
  cases hv
  cases h with
  | simple _ hsimple => cases hsimple
  | set hmembers hdistinct =>
    have hleft := AreMembers.of_subperm ⟨hmembers, hdistinct⟩ hzs
    exact .set hleft.isProperKey hleft.apart

end Value

end Itemwise
