import Itemwise.Proofs.Sorting.Insertion
import Itemwise.Value.Dict
import Mathlib.Data.List.Pairwise

namespace Itemwise.Dict

/-!
# Dictionaries in order

A dictionary has no two keys that are the same.  If its keys are comparable, it can be sorted, and
then it is in ascending order of the keys, whatever the values are.

* `Distinct` — no two keys are the same, which is so of what pairs inserted one after the other
  make;
* `Comparable` — the keys that can be sorted;
* `Sorted` — the entries of a dictionary in ascending order of the keys;
* `sorted_eq` — sorting a dictionary with comparable keys gives that.
-/

/-! ### Keys -/

/-- No key is the same as an earlier one. -/
def Distinct (d : Dict) : Prop := d.Pairwise fun e f => e.1.same f.1 = false

/-- What is inserted changes no other key. -/
theorem mem_insert {k v : Value} {d : Dict} {e : Value × Value} (he : e ∈ insert k v d) :
    e.1 = k ∨ ∃ f ∈ d, f.1 = e.1 := by
  induction d with
  | nil =>
    rw [insert, List.mem_singleton] at he
    exact .inl (congrArg Prod.fst he)
  | cons f d ih =>
    rw [insert] at he
    by_cases hsame : f.1.same k = true
    · rw [if_pos hsame] at he
      rcases List.mem_cons.mp he with rfl | he
      · exact .inr ⟨f, List.mem_cons_self, rfl⟩
      · exact .inr ⟨e, List.mem_cons_of_mem f he, rfl⟩
    · rw [if_neg hsame] at he
      rcases List.mem_cons.mp he with rfl | he
      · exact .inr ⟨e, List.mem_cons_self, rfl⟩
      · rcases ih he with hk | ⟨g, hg, hge⟩
        · exact .inl hk
        · exact .inr ⟨g, List.mem_cons_of_mem f hg, hge⟩

/-- A key that is inserted is the same as no other. -/
theorem Distinct.insert {d : Dict} (hd : d.Distinct) (k v : Value) : (d.insert k v).Distinct := by
  induction d with
  | nil => exact List.pairwise_singleton _ _
  | cons f d ih =>
    obtain ⟨hf, hd⟩ := List.pairwise_cons.mp hd
    rw [Dict.insert]
    by_cases hsame : f.1.same k = true
    · rw [if_pos hsame]
      exact List.pairwise_cons.mpr ⟨hf, hd⟩
    · rw [if_neg hsame]
      refine List.pairwise_cons.mpr ⟨fun e he => ?_, ih hd⟩
      rcases mem_insert he with hk | ⟨g, hg, hge⟩
      · rw [hk]
        exact Bool.eq_false_iff.mpr hsame
      · rw [← hge]
        exact hf g hg

/-- Pairs inserted one after the other make a dictionary, the keys of which are all from the
    pairs. -/
theorem distinct_foldl_insert {d : Dict} (hd : d.Distinct) (es : List (Value × Value)) :
    (es.foldl (fun d e => insert e.1 e.2 d) d).Distinct ∧
      ∀ e ∈ es.foldl (fun d e => insert e.1 e.2 d) d, (∃ f ∈ d, f.1 = e.1) ∨
        e.1 ∈ es.map Prod.fst := by
  induction es generalizing d with
  | nil => exact ⟨hd, fun e he => .inl ⟨e, he, rfl⟩⟩
  | cons f es ih =>
    rw [List.foldl_cons, List.map_cons]
    obtain ⟨hdistinct, hkeys⟩ := ih (hd.insert f.1 f.2)
    refine ⟨hdistinct, fun e he => ?_⟩
    rcases hkeys e he with ⟨g, hg, hge⟩ | hmem
    · rcases mem_insert hg with hk | ⟨g', hg', hge'⟩
      · exact .inr (List.mem_cons.mpr (.inl (hge ▸ hk)))
      · exact .inl ⟨g', hg', hge'.trans hge⟩
    · exact .inr (List.mem_cons_of_mem _ hmem)

/-! ### Order -/

/-- Whether a key is less than another. -/
def isLess (k l : Value) : Bool := Value.holds? .lt k l == some true

/-- Any two of some keys are the same or one of them is less than the other, and less is an
    order. -/
structure Comparable (keys : List Value) : Prop where
  symm : ∀ k ∈ keys, ∀ l ∈ keys, k.same l = l.same k
  answers : ∀ k ∈ keys, ∀ l ∈ keys, k.same l = false → Value.holds? .lt k l = some (isLess k l)
  total : ∀ k ∈ keys, ∀ l ∈ keys, k.same l = false → isLess l k = !isLess k l
  trans : ∀ k ∈ keys, ∀ l ∈ keys, ∀ m ∈ keys, isLess k l = true → isLess l m = true →
    isLess k m = true

/-- Fewer keys are comparable if more are. -/
theorem Comparable.subset {keys keys' : List Value} (h : Comparable keys') (hkeys : keys ⊆ keys') :
    Comparable keys where
  symm k hk l hl := h.symm k (hkeys hk) l (hkeys hl)
  answers k hk l hl := h.answers k (hkeys hk) l (hkeys hl)
  total k hk l hl := h.total k (hkeys hk) l (hkeys hl)
  trans k hk l hl m hm := h.trans k (hkeys hk) l (hkeys hl) m (hkeys hm)

/-! ### Texts as keys -/

/-- The order of two sequences the other way round. -/
theorem compareBy_swap {α : Type} (key : α → Nat) (xs ys : List α) :
    compareBy key ys xs = (compareBy key xs ys).swap := by
  induction xs generalizing ys with
  | nil => cases ys <;> rfl
  | cons x xs ih =>
    cases ys with
    | nil => rfl
    | cons y ys =>
      rw [compareBy, compareBy]
      by_cases h : key x = key y
      · rw [if_pos h, if_pos h.symm]
        exact ih ys
      · rw [if_neg h, if_neg (Ne.symm h)]
        exact (Nat.compare_swap (key x) (key y)).symm

/-- Two sequences between which there is no difference are the same, if no two items have the same
    key. -/
theorem eq_of_compareBy {α : Type} {key : α → Nat} (hkey : Function.Injective key) {xs ys : List α}
    (h : compareBy key xs ys = .eq) : xs = ys := by
  induction xs generalizing ys with
  | nil =>
    cases ys with
    | nil => rfl
    | cons y ys => cases h
  | cons x xs ih =>
    cases ys with
    | nil => cases h
    | cons y ys =>
      rw [compareBy] at h
      by_cases hxy : key x = key y
      · rw [if_pos hxy] at h
        rw [hkey hxy, ih h]
      · rw [if_neg hxy] at h
        exact absurd (Nat.compare_eq_eq.mp h) hxy

/-- What comes before a sequence that comes before another, comes before the other. -/
theorem compareBy_trans {α : Type} {key : α → Nat} {xs ys zs : List α}
    (hxy : compareBy key xs ys = .lt) (hyz : compareBy key ys zs = .lt) :
    compareBy key xs zs = .lt := by
  induction xs generalizing ys zs with
  | nil =>
    cases zs with
    | nil => cases ys <;> cases hyz
    | cons z zs => rfl
  | cons x xs ih =>
    cases ys with
    | nil => cases hxy
    | cons y ys =>
      cases zs with
      | nil => cases hyz
      | cons z zs =>
        rw [compareBy] at hxy hyz ⊢
        by_cases h₁ : key x = key y
        · by_cases h₂ : key y = key z
          · rw [if_pos h₁] at hxy
            rw [if_pos h₂] at hyz
            rw [if_pos (h₁.trans h₂)]
            exact ih hxy hyz
          · rw [if_neg (h₁ ▸ h₂), h₁]
            rw [if_neg h₂] at hyz
            exact hyz
        · rw [if_neg h₁, Nat.compare_eq_lt] at hxy
          have hle : key y ≤ key z := by
            by_cases h₂ : key y = key z
            · omega
            · rw [if_neg h₂, Nat.compare_eq_lt] at hyz
              omega
          rw [if_neg (by omega), Nat.compare_eq_lt]
          omega

/-- Texts are comparable. -/
theorem comparable_of_texts {keys : List Value} (h : ∀ k ∈ keys, ∃ cs, k = .text cs) :
    Comparable keys := by
  have hless (a b : List Char) :
      isLess (.text a) (.text b) = (compareBy Char.toNat a b == .lt) := by
    rw [isLess, Value.holds?]
    cases compareBy Char.toNat a b <;> rfl
  refine ⟨fun k hk l hl => ?_, fun k hk l hl _ => ?_, fun k hk l hl hne => ?_,
    fun k hk l hl m hm hkl hlm => ?_⟩
  · obtain ⟨a, rfl⟩ := h k hk
    obtain ⟨b, rfl⟩ := h l hl
    rw [Value.same_text, Value.same_text, Value.eqv, Value.eqv]
    exact BEq.comm
  · obtain ⟨a, rfl⟩ := h k hk
    obtain ⟨b, rfl⟩ := h l hl
    rw [hless, Value.holds?]
    rfl
  · obtain ⟨a, rfl⟩ := h k hk
    obtain ⟨b, rfl⟩ := h l hl
    rw [Value.same_text, Value.eqv] at hne
    have hdiffer : compareBy Char.toNat a b ≠ .eq := by
      intro heq
      rw [eq_of_compareBy (fun _ _ => Char.toNat_inj.mp) heq, beq_self_eq_true] at hne
      cases hne
    rw [hless, hless, compareBy_swap Char.toNat a b]
    cases hcompare : compareBy Char.toNat a b with
    | lt => rfl
    | eq => exact absurd hcompare hdiffer
    | gt => rfl
  · obtain ⟨a, rfl⟩ := h k hk
    obtain ⟨b, rfl⟩ := h l hl
    obtain ⟨c, rfl⟩ := h m hm
    rw [hless] at hkl hlm ⊢
    rw [compareBy_trans (eq_of_beq hkl) (eq_of_beq hlm)]
    rfl

/-! ### Sorting -/

/-- Some entries are those of a dictionary, in ascending order of their keys. -/
structure Sorted (es d : Dict) : Prop where
  perm : es.Perm d
  ascends : es.Pairwise fun e f => Value.test .lt e.1 f.1 = .ok true

/-- Entries with different keys are compared by their keys only. -/
theorem precedes_eq {e f : Value × Value} (h : e.1.same f.1 = false) :
    precedes e f = Value.test .lt e.1 f.1 := by
  show Fault.attempt .wrongKind (Value.holds? .lt (.tuple [e.1, e.2]) (.tuple [f.1, f.2])) = _
  rw [Value.holds?, Value.holdsFirst?, h, if_neg Bool.false_ne_true]
  rfl

/-- The entries of a dictionary with comparable keys have an order, which is told by comparing them
    as pairs. -/
theorem Distinct.decides {d : Dict} (hd : d.Distinct) (hkeys : Comparable (d.map Prod.fst)) :
    Sorting.Decides precedes (fun e f => isLess e.1 f.1) d := by
  have hkey {e : Value × Value} (he : e ∈ d) : e.1 ∈ d.map Prod.fst := List.mem_map_of_mem he
  -- Being the same is symmetric, so no entry has the key of another, wherever the two are.
  have hboth : d.Pairwise fun e f => e.1.same f.1 = false ∧ f.1.same e.1 = false := by
    refine List.Pairwise.imp_of_mem (fun {e f} he hf h => ⟨h, ?_⟩) hd
    rw [← hkeys.symm e.1 (hkey he) f.1 (hkey hf)]
    exact h
  have happart (e : Value × Value) (he : e ∈ d) (f : Value × Value) (hf : f ∈ d) (hne : e ≠ f) :
      e.1.same f.1 = false := by
    have hsymm : Std.Symm fun e f : Value × Value => e.1.same f.1 = false ∧ f.1.same e.1 = false :=
      ⟨fun _ _ h => h.symm⟩
    exact (hboth.forall he hf hne).1
  refine ⟨?_, fun e he f hf hne => ?_, fun e he f hf hne => ?_, fun e he f hf g hg => ?_⟩
  · refine List.Pairwise.imp_of_mem (fun {e f} he hf h => ?_) hd
    rintro rfl
    rw [Value.same_self] at h
    cases h
  · have h := happart e he f hf hne
    rw [precedes_eq h, Value.test, hkeys.answers e.1 (hkey he) f.1 (hkey hf) h]
    rfl
  · exact hkeys.total e.1 (hkey he) f.1 (hkey hf) (happart e he f hf hne)
  · exact hkeys.trans e.1 (hkey he) f.1 (hkey hf) g.1 (hkey hg)

/-- **Sorting by key.** A dictionary with comparable keys is sorted by its keys, whatever its values
    are. -/
theorem sorted_eq {d : Dict} (hd : d.Distinct) (hkeys : Comparable (d.map Prod.fst)) :
    ∃ es, d.sorted = .ok es ∧ es.Sorted d := by
  have hdecides := hd.decides hkeys
  obtain ⟨sorted, hsorted, hperm, hascends⟩ := @Sorting.byInsertion_eq _ _ _ d.toArray hdecides
  have hlist : (Sorting.byInsertion precedes d.toArray).map Array.toList = .ok sorted.toList := by
    rw [hsorted]
    rfl
  refine ⟨sorted.toList, ?_, hperm, ?_⟩
  · have hconfirmed : (Except.ok sorted.toList >>= Sorting.isAscending precedes) = .ok true :=
      Sorting.isAscending_eq (hdecides.perm hperm) hascends
    simp only [Dict.sorted, hlist, hconfirmed]
    rfl
  · refine hascends.imp fun {e f} hless => ?_
    rw [Value.test, eq_of_beq hless]
    rfl

/-- Pairs with comparable keys make a dictionary that can be sorted. -/
theorem sorted_foldl_insert (es : List (Value × Value)) (hkeys : Comparable (es.map Prod.fst)) :
    ∃ sorted, Dict.sorted (es.foldl (fun d e => insert e.1 e.2 d) []) = .ok sorted ∧
      Sorted sorted (es.foldl (fun d e => insert e.1 e.2 d) []) := by
  obtain ⟨hdistinct, hfrom⟩ := distinct_foldl_insert List.Pairwise.nil es
  apply sorted_eq hdistinct
  apply hkeys.subset
  intro k hk
  obtain ⟨e, he, rfl⟩ := List.mem_map.mp hk
  exact (hfrom e he).resolve_left nofun

end Itemwise.Dict
