import Itemwise.Proofs.Sorting.Dictionary
import Itemwise.Proofs.Sorting.Keys
import Itemwise.Value.Draft

namespace Itemwise.Dict

/-!
# Dictionaries of pairs

Pairs that are inserted one after the other make a dictionary, in which a key stands where it came
first, with the value that it came with last.  How pairs with different keys lie among each other,
is all that is lost when it is sorted.

* `firsts`, `alike`, `latest` — the pairs with a key that no earlier one has, those with a given
  key, and the last value of a key;
* `insert_insert` — a key that comes again is one key;
* `foldl_insert_cons` — a key at the head takes its values out of the pairs, whatever is behind it;
* `foldl_insert_eq` — the dictionary that pairs make;
* `lookup_latest` — what it has for a key;
* `sorted_ofEntries` — the one order of the dictionaries that rearranged pairs make.
-/

variable {es es' : List (Value × Value)} {e f : Value × Value} {k v : Value}

/-- The pairs with a key that no earlier pair has. -/
def firsts : List (Value × Value) → List (Value × Value)
  | [] => []
  | e :: es => e :: (firsts es).filter fun f => !e.1.same f.1

/-- The pairs with the key `k`. -/
def alike (k : Value) (es : List (Value × Value)) : List (Value × Value) :=
  es.filter fun f => k.same f.1

/-- The value of the last pair with the key of `e`, which is `e` itself where there is no other. -/
def latest (es : List (Value × Value)) (e : Value × Value) : Value :=
  ((alike e.1 es).getLast?.getD e).2

/-! ### Insertion -/

/-- A key that comes again is one key with the later value, also if it is not a number and equals
    nothing. -/
theorem insert_insert (k v w : Value) (d : Dict) : insert k w (insert k v d) = insert k w d := by
  induction d with
  | nil => exact if_pos (Value.same_self k)
  | cons e d ih =>
    by_cases h : e.1.same k = true
    · rw [insert, if_pos h, insert, if_pos h, insert, if_pos h]
    · rw [insert, if_neg h, insert, if_neg h, insert, if_neg h, ih]

/-- A key at the head of a dictionary takes its values out of the pairs, and the others go to the
    rest. -/
theorem foldl_insert_cons (k v : Value) (d : Dict) (es : List (Value × Value)) :
    es.foldl (fun d e => insert e.1 e.2 d) ((k, v) :: d) =
      (k, ((alike k es).getLast?.map Prod.snd).getD v) ::
      (es.filter fun f => !k.same f.1).foldl (fun d e => insert e.1 e.2 d) d := by
  induction es generalizing v d with
  | nil => rfl
  | cons e es ih =>
    rw [List.foldl_cons, insert, alike, List.filter_cons, List.filter_cons]
    by_cases h : k.same e.1 = true
    · rw [if_pos h, if_pos h, if_neg (by rw [h]; decide), ih, List.getLast?_cons]
      show (k, ((alike k es).getLast?.map Prod.snd).getD e.2) :: _ =
          (k, ((alike k es).getLast?.getD e).2) :: _
      cases (alike k es).getLast? <;> rfl
    · rw [if_neg h, if_neg h, if_pos (by rw [Bool.eq_false_iff.mpr h]; decide), ih]
      rfl

/-- The first pairs of their keys are in the order that they had. -/
theorem firsts_sublist (es : List (Value × Value)) : (firsts es).Sublist es := by
  induction es with
  | nil => exact .slnil
  | cons e es ih => exact (List.filter_sublist.trans ih).cons_cons e

/-- The first pairs among those that do not have the key `k`. -/
theorem firsts_filter (hk : k.IsProperKey) (hes : ∀ e ∈ es, e.1.IsProperKey) :
    firsts (es.filter fun f => !k.same f.1) = (firsts es).filter fun f => !k.same f.1 := by
  induction es with
  | nil => rfl
  | cons e es ih =>
    obtain ⟨he, hes⟩ := List.forall_mem_cons.mp hes
    rw [List.filter_cons, firsts, List.filter_cons]
    by_cases h : k.same e.1 = true
    · rw [if_neg (by rw [h]; decide), if_neg (by rw [h]; decide), ih hes, List.filter_filter]
      refine List.filter_congr fun f hf => ?_
      rw [hk.same_congr he h (hes f ((firsts_sublist es).subset hf)), Bool.and_self]
    · have hne : (!k.same e.1) = true := by rw [Bool.eq_false_iff.mpr h]; rfl
      rw [if_pos hne, if_pos hne, firsts, ih hes, List.filter_filter, List.filter_filter]
      simp only [Bool.and_comm]

/-- What pairs with another key have last, does not depend on those with the key `k`. -/
theorem alike_filter (hk : k.IsProperKey) (hf : f.1.IsProperKey) (hes : ∀ e ∈ es, e.1.IsProperKey)
    (hkf : k.same f.1 = false) :
    alike f.1 (es.filter fun g => !k.same g.1) = alike f.1 es := by
  rw [alike, alike, List.filter_filter]
  refine List.filter_congr fun g hg => ?_
  cases h : f.1.same g.1 with
  | false => rfl
  | true =>
    rw [hk.same_comm (hes g hg), ← hf.same_congr (hes g hg) h hk, hf.same_comm hk, hkf]
    rfl

/-- **The dictionary of pairs.** Each key stands where it comes first, and has the value that it
    comes with last. -/
theorem foldl_insert_eq (es : List (Value × Value)) (hes : ∀ e ∈ es, e.1.IsProperKey) :
    es.foldl (fun d e => insert e.1 e.2 d) [] = (firsts es).map fun e => (e.1, latest es e) := by
  match es, hes with
  | [], _ => rfl
  | e :: es, hes =>
    obtain ⟨he, hes⟩ := List.forall_mem_cons.mp hes
    have hlt : (es.filter fun f => !e.1.same f.1).length < es.length + 1 :=
      Nat.lt_add_one_of_le (List.length_filter_le _ es)
    have hrest := foldl_insert_eq (es.filter fun f => !e.1.same f.1) fun f hf =>
      hes f (List.mem_of_mem_filter hf)
    have hfirst : ((alike e.1 es).getLast?.map Prod.snd).getD e.2 = latest (e :: es) e := by
      rw [latest, alike, alike, List.filter_cons]
      split
      · rw [List.getLast?_cons]
        cases (es.filter fun f => e.1.same f.1).getLast? <;> rfl
      · cases (es.filter fun f => e.1.same f.1).getLast? <;> rfl
    rw [List.foldl_cons, insert, foldl_insert_cons, hrest, hfirst, firsts, List.map_cons,
      firsts_filter he hes]
    congr 1
    refine List.map_congr_left fun f hf => ?_
    obtain ⟨hf, hne⟩ := List.mem_filter.mp hf
    have hfkey := hes f ((firsts_sublist es).subset hf)
    have hne : e.1.same f.1 = false := by simpa using hne
    have hothers : alike f.1 (e :: es) = alike f.1 es := by
      rw [alike, List.filter_cons, if_neg (by rw [hfkey.same_comm he, hne]; decide)]
      rfl
    rw [latest, latest, alike_filter he hfkey hes hne, hothers]
termination_by es.length

/-! ### Keys in a dictionary -/

/-- Pairs with the same key have the same value last. -/
theorem latest_congr (hes : ∀ e ∈ es, e.1.IsProperKey) (he : e ∈ es) (hf : f ∈ es)
    (h : e.1.same f.1 = true) :
    latest es e = latest es f := by
  have halike : alike e.1 es = alike f.1 es :=
    List.filter_congr fun g hg => (hes e he).same_congr (hes f hf) h (hes g hg)
  have hmem : f ∈ alike e.1 es := List.mem_filter.mpr ⟨hf, h⟩
  obtain ⟨g, hg⟩ := Option.ne_none_iff_exists'.mp fun h =>
    List.ne_nil_of_mem hmem (List.getLast?_eq_none_iff.mp h)
  rw [latest, latest, ← halike, hg]
  rfl

/-- Every key has a first pair. -/
theorem exists_firsts (hes : ∀ e ∈ es, e.1.IsProperKey) (he : e ∈ es) :
    ∃ f ∈ firsts es, f.1.same e.1 = true := by
  induction es with
  | nil => cases he
  | cons g es ih =>
    by_cases h : g.1.same e.1 = true
    · exact ⟨g, List.mem_cons_self, h⟩
    · obtain ⟨hg, hes'⟩ := List.forall_mem_cons.mp hes
      have he' : e ∈ es := (List.mem_cons.mp he).resolve_left fun heq =>
        h (heq ▸ Value.same_self e.1)
      obtain ⟨f, hf, hfe⟩ := ih hes' he'
      have hfkey := hes' f ((firsts_sublist es).subset hf)
      have hne : g.1.same f.1 ≠ true := by
        rwa [hg.same_comm hfkey, hfkey.same_congr (hes' e he') hfe hg, (hes' e he').same_comm hg]
      refine ⟨f, List.mem_cons_of_mem g (List.mem_filter.mpr ⟨hf, ?_⟩), hfe⟩
      rw [Bool.eq_false_iff.mpr hne]
      rfl

/-- For every key, the dictionary has the value that the key comes with last. -/
theorem lookup_latest (hes : ∀ e ∈ es, e.1.IsProperKey) (he : e ∈ es) :
    Value.lookup ((firsts es).map fun e => (e.1, latest es e)) e.1 = .ok (latest es e) := by
  have hsome : ((firsts es).find? fun f => f.1.same e.1).isSome :=
    List.find?_isSome.mpr (exists_firsts hes he)
  obtain ⟨f, hfind⟩ := Option.isSome_iff_exists.mp hsome
  have hf : f ∈ es := (firsts_sublist es).subset (List.mem_of_find?_eq_some hfind)
  have hfe : f.1.same e.1 = true :=
    List.find?_some (p := fun f : Value × Value => f.1.same e.1) hfind
  have hentry : ((firsts es).map fun e => (e.1, latest es e)).find? (fun f => f.1.same e.1) =
      some (f.1, latest es f) := by
    rw [List.find?_map]
    exact congrArg (Option.map fun e => (e.1, latest es e)) hfind
  rw [Value.lookup, if_pos (hes e he).isKey, hentry, latest_congr hes hf he hfe]

/-! ### Rearranged pairs -/

/-- The first pairs are those at the heads of the pairs with their keys. -/
theorem mem_firsts (hes : ∀ e ∈ es, e.1.IsProperKey) (hekey : e.1.IsProperKey) :
    e ∈ firsts es ↔ (alike e.1 es).head? = some e := by
  induction es with
  | nil => simp [firsts, alike]
  | cons g es ih =>
    obtain ⟨hg, hes⟩ := List.forall_mem_cons.mp hes
    rw [firsts, List.mem_cons, List.mem_filter, ih hes, hg.same_comm hekey, alike, alike,
      List.filter_cons]
    by_cases h : e.1.same g.1 = true
    · rw [if_pos h, List.head?_cons, Option.some.injEq, h]
      simp [eq_comm]
    · rw [if_neg h, Bool.eq_false_iff.mpr h]
      have hne : e ≠ g := by
        rintro rfl
        exact h (Value.same_self e.1)
      simp [hne]

/-- Two lists of pairs with the same pairs for each key make dictionaries with the same entries. -/
theorem mem_of_alike (hes : ∀ e ∈ es, e.1.IsProperKey) (hperm : es'.Perm es)
    (halike : ∀ e ∈ es, alike e.1 es' = alike e.1 es) (p : Value × Value) :
    p ∈ (firsts es').map (fun e => (e.1, latest es' e)) ↔
      p ∈ (firsts es).map (fun e => (e.1, latest es e)) := by
  have hes' : ∀ e ∈ es', e.1.IsProperKey := fun e he => hes e (hperm.mem_iff.mp he)
  have hfirst (e) (he : e ∈ es) : e ∈ firsts es' ↔ e ∈ firsts es := by
    rw [mem_firsts hes' (hes e he), mem_firsts hes (hes e he), halike e he]
  have hlatest (e) (he : e ∈ es) : latest es' e = latest es e := by
    rw [latest, latest, halike e he]
  rw [List.mem_map, List.mem_map]
  constructor
  · rintro ⟨e, he, rfl⟩
    have hmem := hperm.mem_iff.mp ((firsts_sublist es').subset he)
    exact ⟨e, (hfirst e hmem).mp he, by rw [hlatest e hmem]⟩
  · rintro ⟨e, he, rfl⟩
    have hmem := (firsts_sublist es).subset he
    exact ⟨e, (hfirst e hmem).mpr he, by rw [hlatest e hmem]⟩

/-- Dictionaries with the same entries have the same order, if their keys are comparable. -/
theorem sorted_unique {d d' sorted sorted' : Dict} (hd : d.Distinct)
    (hkeys : Comparable (d.map Prod.fst)) (hperm : d'.Perm d) (hsorted : Sorted sorted d)
    (hsorted' : Sorted sorted' d') : sorted' = sorted := by
  have hdecides := hd.decides hkeys
  have hless {e f : Value × Value} (h : Value.test .lt e.1 f.1 = .ok true) :
      isLess e.1 f.1 = true := by
    rw [Value.test] at h
    rw [isLess, beq_iff_eq]
    cases hholds : Value.holds? .lt e.1 f.1 with
    | some b =>
      rw [hholds] at h
      cases h
      rfl
    | none =>
      rw [hholds] at h
      cases h
  refine List.Perm.eq_of_pairwise (fun e f he hf hef hfe => ?_) hsorted'.ascends hsorted.ascends
    (hsorted'.perm.trans (hperm.trans hsorted.perm.symm))
  by_contra hne
  have htotal := hdecides.total e (hperm.mem_iff.mp (hsorted'.perm.mem_iff.mp he)) f
    (hsorted.perm.mem_iff.mp hf) hne
  rw [hless hef, hless hfe] at htotal
  cases htotal

/-- A dictionary of pairs has the first pair of each key, with the latest value of that key. -/
theorem ofEntries_eq (hes : ∀ e ∈ es, e.1.IsProperKey) :
    ofEntries es = (firsts es).map fun e => (e.1, latest es e) :=
  (ofEntries_eq_foldl es).trans (foldl_insert_eq es hes)

/-- Its keys are all different. -/
theorem distinct_ofEntries (es : List (Value × Value)) : (ofEntries es).Distinct := by
  rw [ofEntries_eq_foldl]
  exact (distinct_foldl_insert List.Pairwise.nil es).1

/-- Keys that can be compared can be in the dictionary as well. -/
theorem comparable_ofEntries (hkeys : Comparable (es.map Prod.fst)) :
    Comparable ((ofEntries es).map Prod.fst) := by
  refine hkeys.subset fun k hk => ?_
  obtain ⟨e, he, rfl⟩ := List.mem_map.mp hk
  rw [ofEntries_eq_foldl] at he
  exact ((distinct_foldl_insert List.Pairwise.nil es).2 e he).resolve_left nofun

/-- Pairs that are rearranged, but not those with the same key, make a dictionary with the same
    entries. -/
theorem ofEntries_perm (hes : ∀ e ∈ es, e.1.IsProperKey) (hkeys : Comparable (es.map Prod.fst))
    (hperm : es'.Perm es) (halike : ∀ e ∈ es, alike e.1 es' = alike e.1 es) :
    (ofEntries es').Perm (ofEntries es) := by
  have hkeys' : Comparable (es'.map Prod.fst) := hkeys.subset (hperm.map Prod.fst).subset
  have hnodup := ((distinct_ofEntries es).decides (comparable_ofEntries hkeys)).nodup
  have hnodup' := ((distinct_ofEntries es').decides (comparable_ofEntries hkeys')).nodup
  refine (List.perm_ext_iff_of_nodup hnodup' hnodup).mpr fun p => ?_
  rw [ofEntries_eq hes, ofEntries_eq fun e he => hes e (hperm.mem_iff.mp he)]
  exact mem_of_alike hes hperm halike p

/-- The dictionary of pairs with comparable keys is sorted, and so is that of the pairs rearranged,
    in the same way. -/
theorem sorted_ofEntries (hes : ∀ e ∈ es, e.1.IsProperKey) (hkeys : Comparable (es.map Prod.fst)) :
    ∃ sorted, Sorted sorted (ofEntries es) ∧ (ofEntries es).sorted = .ok sorted ∧
      ∀ es' : List (Value × Value), es'.Perm es → (∀ e ∈ es, alike e.1 es' = alike e.1 es) →
        (ofEntries es').sorted = .ok sorted := by
  obtain ⟨sorted, heq, hsorted⟩ := sorted_eq (distinct_ofEntries es) (comparable_ofEntries hkeys)
  refine ⟨sorted, hsorted, heq, fun es' hperm halike => ?_⟩
  have hkeys' : Comparable (es'.map Prod.fst) := hkeys.subset (hperm.map Prod.fst).subset
  obtain ⟨sorted', heq', hsorted'⟩ :=
    sorted_eq (distinct_ofEntries es') (comparable_ofEntries hkeys')
  rw [heq', sorted_unique (distinct_ofEntries es) (comparable_ofEntries hkeys)
    (ofEntries_perm hes hkeys hperm halike) hsorted hsorted']

end Itemwise.Dict
