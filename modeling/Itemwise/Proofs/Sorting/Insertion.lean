import Itemwise.Sorting.Insertion
import Mathlib.Data.List.Nodup
import Mathlib.Data.List.Perm.Basic

namespace Itemwise.Sorting

/-!
# Insertion sorts

Where the test tells of any two items which one is less, and less is an order, sorting by insertion
ends in no fault and leaves the items in ascending order.

* `Decides` — what is asked of the test;
* `search_eq` — halving finds the first place from which on something holds;
* `insert_eq`, `firstRun_eq` — an item goes to its place among sorted ones, and the run at the
  beginning is sorted;
* `byInsertion_eq` — the items in ascending order;
* `isAscending_eq` — which is then confirmed.
-/

variable {α : Type} {before : Before α} {less : α → α → Bool} {xs ys : List α}

/-- A test decides an order on some items, no two of which are the same: of any two of them it tells
    which one is less. -/
structure Decides (before : Before α) (less : α → α → Bool) (xs : List α) : Prop where
  nodup : xs.Nodup
  tells : ∀ x ∈ xs, ∀ y ∈ xs, x ≠ y → before x y = .ok (less x y)
  total : ∀ x ∈ xs, ∀ y ∈ xs, x ≠ y → less y x = !less x y
  trans : ∀ x ∈ xs, ∀ y ∈ xs, ∀ z ∈ xs, less x y = true → less y z = true → less x z = true

/-- What is decided on some items is decided on fewer. -/
theorem Decides.sublist (h : Decides before less ys) (hxs : xs.Sublist ys) :
    Decides before less xs where
  nodup := h.nodup.sublist hxs
  tells x hx y hy := h.tells x (hxs.subset hx) y (hxs.subset hy)
  total x hx y hy := h.total x (hxs.subset hx) y (hxs.subset hy)
  trans x hx y hy z hz := h.trans x (hxs.subset hx) y (hxs.subset hy) z (hxs.subset hz)

/-- In which order the items are listed does not matter. -/
theorem Decides.perm (h : Decides before less ys) (hxs : xs.Perm ys) : Decides before less xs where
  nodup := hxs.nodup_iff.mpr h.nodup
  tells x hx y hy := h.tells x (hxs.subset hx) y (hxs.subset hy)
  total x hx y hy := h.total x (hxs.subset hx) y (hxs.subset hy)
  trans x hx y hy z hz := h.trans x (hxs.subset hx) y (hxs.subset hy) z (hxs.subset hz)

/-- Some items are in ascending order. -/
def Ascends (less : α → α → Bool) (xs : List α) : Prop := xs.Pairwise fun x y => less x y = true

/-- Items each of which is less than the next are in ascending order. -/
theorem Decides.ascends (h : Decides before less xs)
    (hnext : ∀ i (hi : i + 1 < xs.length), less xs[i] xs[i + 1] = true) : Ascends less xs := by
  show xs.Pairwise _
  rw [List.pairwise_iff_getElem]
  intro i j hi hj hij
  -- On the place of the greater one, from the place behind the smaller one on.
  induction hij with
  | refl => exact hnext i hj
  | @step j _ ih =>
    have hj' : j < xs.length := by omega
    exact h.trans _ (List.getElem_mem hi) _ (List.getElem_mem hj') _ (List.getElem_mem hj)
      (ih hj') (hnext j hj)

/-! ### Searching -/

/-- The first place from which on something holds, which from there on does hold, is found by
    halving. -/
theorem search_eq {holds : Nat → Except Fault Bool} {h : Nat → Bool} {low high : Nat}
    (hle : low ≤ high) (hholds : ∀ i, low ≤ i → i < high → holds i = .ok (h i))
    (hmono : ∀ i j, low ≤ i → i ≤ j → j < high → h i = true → h j = true) :
    ∃ place, search holds low high = .ok place ∧ low ≤ place ∧ place ≤ high ∧
      (∀ i, low ≤ i → i < place → h i = false) ∧ ∀ i, place ≤ i → i < high → h i = true := by
  fun_induction search holds low high with
  | case1 low high hlt middle ihleft ihright =>
    have hmiddle : low ≤ middle ∧ middle < high := by
      show low ≤ (low + high) / 2 ∧ (low + high) / 2 < high
      omega
    rw [hholds middle hmiddle.1 hmiddle.2]
    cases hm : h middle with
    | true =>
      -- It holds in the middle, and so in the whole right half.
      obtain ⟨place, hplace, hlow, hhigh, hbelow, habove⟩ :=
        ihleft hmiddle.1 (fun i hi hj => hholds i hi (by omega)) fun i j hi hij hj =>
          hmono i j hi hij (by omega)
      refine ⟨place, hplace, hlow, by omega, hbelow, fun i hi hj => ?_⟩
      by_cases him : i < middle
      · exact habove i hi him
      · exact hmono middle i hmiddle.1 (by omega) hj hm
    | false =>
      -- It does not hold in the middle, and so nowhere in the left half.
      obtain ⟨place, hplace, hlow, hhigh, hbelow, habove⟩ :=
        ihright (by omega) (fun i hi hj => hholds i (by omega) hj) fun i j hi hij hj =>
          hmono i j (by omega) hij hj
      refine ⟨place, hplace, by omega, hhigh, fun i hi hj => ?_, habove⟩
      by_cases him : middle < i
      · exact hbelow i him hj
      · by_contra hne
        have htrue : h i = true := by simpa using hne
        rw [hmono i middle hi (by omega) hmiddle.2 htrue] at hm
        exact absurd hm (by decide)
  | case2 low high hlt =>
    refine ⟨low, rfl, Nat.le_refl _, hle, fun i hi hj => ?_, fun i hi hj => ?_⟩
    · omega
    · omega

/-! ### Insertion -/

/-- The place of a further item among sorted ones is behind those that it is not less than. -/
theorem search_place {sorted : Array α} {x : α} (hd : Decides before less (x :: sorted.toList))
    (hs : Ascends less sorted.toList) :
    ∃ front back, sorted.toList = front ++ back ∧
      search (fun i => (sorted[i]?).elim (.ok true) (before x)) 0 sorted.size = .ok front.length ∧
        (∀ y ∈ front, less x y = false) ∧ ∀ y ∈ back, less x y = true := by
  have hx : x ∈ x :: sorted.toList := List.mem_cons_self
  have hmem (i : Nat) (hi : i < sorted.size) : sorted[i] ∈ x :: sorted.toList :=
    List.mem_cons_of_mem _ (Array.getElem_mem_toList hi)
  have hne (i : Nat) (hi : i < sorted.size) : x ≠ sorted[i] := by
    rintro rfl
    exact (List.nodup_cons.mp hd.nodup).1 (Array.getElem_mem_toList hi)
  have hholds (i : Nat) (hi : i < sorted.size) :
      (sorted[i]?).elim (.ok true) (before x) = .ok ((sorted[i]?).any (less x)) := by
    rw [Array.getElem?_eq_getElem hi]
    exact hd.tells x hx _ (hmem i hi) (hne i hi)
  have hmono (i j : Nat) (hij : i ≤ j) (hj : j < sorted.size)
      (hi : (sorted[i]?).any (less x) = true) :
      (sorted[j]?).any (less x) = true := by
    rcases Nat.lt_or_eq_of_le hij with hlt | rfl
    · have hi' : i < sorted.size := by omega
      rw [Array.getElem?_eq_getElem hi', Option.any_some] at hi
      rw [Array.getElem?_eq_getElem hj, Option.any_some]
      exact hd.trans x hx _ (hmem i hi') _ (hmem j hj) hi
        (List.pairwise_iff_getElem.mp hs i j hi' hj hlt)
    · exact hi
  obtain ⟨place, hplace, -, hle, hbelow, habove⟩ :=
    search_eq (Nat.zero_le sorted.size) (fun i _ => hholds i) fun i j _ => hmono i j
  have hlength : (sorted.toList.take place).length = place := by
    rw [List.length_take, Array.length_toList]
    omega
  refine ⟨sorted.toList.take place, sorted.toList.drop place,
    (List.take_append_drop place _).symm, ?_, ?_, ?_⟩
  · rw [hlength]
    exact hplace
  · intro y hy
    obtain ⟨i, hi, rfl⟩ := List.mem_iff_getElem.mp hy
    have hi' : i < sorted.size := by omega
    have hnot := hbelow i (Nat.zero_le i) (by omega)
    rw [Array.getElem?_eq_getElem hi', Option.any_some] at hnot
    rw [List.getElem_take]
    exact hnot
  · intro y hy
    obtain ⟨i, hi, rfl⟩ := List.mem_iff_getElem.mp hy
    rw [List.length_drop, Array.length_toList] at hi
    have hi' : place + i < sorted.size := by omega
    have hless := habove (place + i) (by omega) hi'
    rw [Array.getElem?_eq_getElem hi', Option.any_some] at hless
    rw [List.getElem_drop]
    exact hless

/-- An item between those that it is not less than and those that it is less than. -/
theorem Decides.ascends_between {front back : List α} {x : α}
    (hd : Decides before less (x :: (front ++ back))) (hs : Ascends less (front ++ back))
    (hfront : ∀ y ∈ front, less x y = false) (hback : ∀ y ∈ back, less x y = true) :
    Ascends less (front ++ x :: back) := by
  obtain ⟨hs₁, hs₂, hacross⟩ := List.pairwise_append.mp hs
  refine List.pairwise_append.mpr ⟨hs₁, List.pairwise_cons.mpr ⟨hback, hs₂⟩, fun y hy z hz => ?_⟩
  rcases List.mem_cons.mp hz with rfl | hz
  · -- The order is total, and no item is listed twice.
    have hne : z ≠ y := by
      rintro rfl
      exact (List.nodup_cons.mp hd.nodup).1 (List.mem_append_left back hy)
    rw [hd.total z List.mem_cons_self y (List.mem_cons_of_mem _ (List.mem_append_left back hy))
      hne, hfront y hy]
    rfl
  · exact hacross y hy z hz

/-- A further item goes to its place. -/
theorem insert_eq {sorted : Array α} {x : α} (hd : Decides before less (x :: sorted.toList))
    (hs : Ascends less sorted.toList) :
    ∃ r, insert before sorted x = .ok r ∧ r.toList.Perm (x :: sorted.toList) ∧
      Ascends less r.toList := by
  obtain ⟨front, back, hsorted, hplace, hfront, hback⟩ := search_place hd hs
  have hle : front.length ≤ sorted.size := by
    rw [← Array.length_toList, hsorted, List.length_append]
    omega
  have hlist : (sorted.insertIdxIfInBounds front.length x).toList = front ++ x :: back := by
    rw [Array.insertIdxIfInBounds, dif_pos hle, Array.toList_insertIdx, hsorted]
    exact List.modifyTailIdx_add (List.cons x) 0 front back
  refine ⟨sorted.insertIdxIfInBounds front.length x, ?_, ?_, ?_⟩
  · rw [insert, hplace]
    rfl
  · rw [hlist, hsorted]
    exact List.perm_middle
  · rw [hsorted] at hd hs
    rw [hlist]
    exact hd.ascends_between hs hfront hback

/-- Further items go to their places one by one. -/
theorem insertAll_eq {sorted items : Array α}
    (hd : Decides before less (sorted.toList ++ items.toList)) (hs : Ascends less sorted.toList) :
    ∃ r, insertAll before sorted items = .ok r ∧ r.toList.Perm (sorted.toList ++ items.toList) ∧
      Ascends less r.toList := by
  unfold insertAll
  rw [← Array.foldlM_toList]
  generalize items.toList = xs at hd ⊢
  induction xs generalizing sorted with
  | nil => exact ⟨sorted, rfl, by rw [List.append_nil], hs⟩
  | cons x xs ih =>
    have hmiddle : (x :: sorted.toList ++ xs).Perm (sorted.toList ++ x :: xs) :=
      List.perm_middle.symm
    have hx : Decides before less (x :: sorted.toList) :=
      (hd.perm hmiddle).sublist (List.sublist_append_left _ _)
    obtain ⟨r, hr, hperm, hascends⟩ := insert_eq hx hs
    obtain ⟨r', hr', hperm', hascends'⟩ :=
      ih hascends (hd.perm ((hperm.append_right xs).trans hmiddle))
    refine ⟨r', ?_, hperm'.trans ((hperm.append_right xs).trans hmiddle), hascends'⟩
    rw [List.foldlM_cons, hr]
    exact hr'

/-! ### Runs -/

/-- A run ends where two items in a row do not lie as it goes. -/
theorem runEnd_eq {items : Array α} (hd : Decides before less items.toList) (descending : Bool)
    {i : Nat} (hi : 0 < i) (hle : i ≤ items.size) :
    ∃ stop, runEnd before items descending i = .ok stop ∧ i ≤ stop ∧ stop ≤ items.size ∧
      ∀ j (hj : j < items.size), i ≤ j → j < stop → less items[j] items[j - 1] = descending := by
  fun_induction runEnd before items descending i with
  | case1 i hsize ih =>
    have hne : items[i] ≠ items[i - 1] := by
      intro heq
      have hsame : i = i - 1 := (List.Nodup.getElem_inj_iff hd.nodup).mp heq
      omega
    rw [hd.tells _ (Array.getElem_mem_toList hsize) _ (Array.getElem_mem_toList _) hne]
    show ∃ stop, (if (less items[i] items[i - 1] == descending) = true then _ else _) = _ ∧ _
    by_cases hlies : less items[i] items[i - 1] = descending
    · rw [if_pos (beq_iff_eq.mpr hlies)]
      obtain ⟨stop, hstop, hfrom, hto, hrun⟩ := ih (by omega) (by omega)
      refine ⟨stop, hstop, by omega, hto, fun j hj hij hjs => ?_⟩
      rcases Nat.lt_or_eq_of_le hij with hlt | rfl
      · exact hrun j hj hlt hjs
      · exact hlies
    · rw [if_neg (fun h => hlies (beq_iff_eq.mp h))]
      exact ⟨i, rfl, Nat.le_refl i, hle, fun j _ hij hjs => absurd hjs (by omega)⟩
  | case2 i hsize => exact ⟨i, rfl, Nat.le_refl i, hle, fun j hj hij hjs => absurd hjs (by omega)⟩

/-- Items all of which lie one way are in ascending order, or are so in reverse. -/
theorem Decides.ascends_run (hd : Decides before less xs) {descending : Bool}
    (hlies : ∀ i (hi : i + 1 < xs.length), less xs[i + 1] xs[i] = descending) :
    Ascends less (if descending then xs.reverse else xs) := by
  cases descending with
  | true =>
    show Ascends less xs.reverse
    apply (hd.perm xs.reverse_perm).ascends
    intro i hi
    rw [List.length_reverse] at hi
    rw [List.getElem_reverse, List.getElem_reverse]
    have hbefore := hlies (xs.length - 1 - (i + 1)) (by omega)
    simp only [show xs.length - 1 - (i + 1) + 1 = xs.length - 1 - i by omega] at hbefore
    exact hbefore
  | false =>
    show Ascends less xs
    apply hd.ascends
    intro i hi
    have hne : xs[i + 1] ≠ xs[i] := by
      intro heq
      have hsame : i + 1 = i := hd.nodup.getElem_inj_iff.mp heq
      omega
    rw [hd.total _ (List.getElem_mem hi) _ (List.getElem_mem _) hne, hlies i hi]
    rfl

/-- The run at the beginning is sorted, and is made of as many items from the beginning. -/
theorem firstRun_eq {items : Array α} (hd : Decides before less items.toList) :
    ∃ run, firstRun before items = .ok run ∧ run.toList.Perm (items.toList.take run.size) ∧
      Ascends less run.toList := by
  unfold firstRun
  split
  · next first second hfirst hsecond =>
    obtain ⟨h1, rfl⟩ := Array.getElem?_eq_some_iff.mp hsecond
    obtain ⟨h0, rfl⟩ := Array.getElem?_eq_some_iff.mp hfirst
    have hne : items[1] ≠ items[0] := by
      intro heq
      exact absurd (hd.nodup.getElem_inj_iff.mp heq) (by decide)
    rw [hd.tells _ (Array.getElem_mem_toList h1) _ (Array.getElem_mem_toList h0) hne]
    show ∃ run, (runEnd before items (less items[1] items[0]) 2 >>= _) = _ ∧ _
    generalize hdescending : less items[1] items[0] = descending
    obtain ⟨stop, hstop, hfrom, hto, hrun⟩ := runEnd_eq hd descending Nat.two_pos h1
    have htake : (items.extract 0 stop).toList = items.toList.take stop := by
      rw [Array.toList_extract, List.extract_eq_take_drop, Nat.sub_zero, List.drop_zero]
    have hsize : (items.extract 0 stop).size = stop := by
      rw [Array.size_extract]
      omega
    -- All items of the run lie as the first two do.
    have hd' : Decides before less (items.toList.take stop) := hd.sublist (List.take_sublist _ _)
    have hascends : Ascends less (if descending then (items.toList.take stop).reverse
        else items.toList.take stop) := by
      apply hd'.ascends_run
      intro i hi
      rw [List.length_take, Array.length_toList] at hi
      rw [List.getElem_take, List.getElem_take]
      cases i with
      | zero => exact hdescending
      | succ i => exact hrun (i + 2) (by omega) (by omega) (by omega)
    rw [← htake] at hascends
    rw [hstop]
    cases descending with
    | true =>
      refine ⟨(items.extract 0 stop).reverse, rfl, ?_, ?_⟩
      · rw [Array.toList_reverse, Array.size_reverse, hsize, ← htake]
        exact List.reverse_perm _
      · rw [Array.toList_reverse]
        exact hascends
    | false =>
      refine ⟨items.extract 0 stop, rfl, ?_, hascends⟩
      rw [hsize, htake]
  · next hfew =>
    refine ⟨items, rfl, ?_, hd.ascends fun i hi => ?_⟩
    · rw [← Array.length_toList, List.take_length]
    · rw [Array.length_toList] at hi
      exact absurd (Array.getElem?_eq_getElem _)
        (hfew items[0] items[1] (Array.getElem?_eq_getElem _))

/-- **Insertion sorts.** Sorting by insertion lists the items in ascending order. -/
theorem byInsertion_eq {items : Array α} (hd : Decides before less items.toList) :
    ∃ sorted, byInsertion before items = .ok sorted ∧ sorted.toList.Perm items.toList ∧
      Ascends less sorted.toList := by
  obtain ⟨run, hrun, hperm, hascends⟩ := firstRun_eq hd
  have hrest : (items.extract run.size items.size).toList = items.toList.drop run.size := by
    have hlength : (items.toList.drop run.size).length = items.size - run.size := by
      rw [List.length_drop, Array.length_toList]
    rw [Array.toList_extract, List.extract_eq_take_drop]
    exact List.take_of_length_le (Nat.le_of_eq hlength)
  have hall : (run.toList ++ (items.extract run.size items.size).toList).Perm items.toList := by
    have happend := hperm.append_right (items.toList.drop run.size)
    rw [List.take_append_drop] at happend
    rw [hrest]
    exact happend
  obtain ⟨sorted, hsorted, hperm', hascends'⟩ := insertAll_eq (hd.perm hall) hascends
  refine ⟨sorted, ?_, hperm'.trans hall, hascends'⟩
  rw [byInsertion, hrun]
  exact hsorted

/-- Items in ascending order are found to be so. -/
theorem isAscending_eq (hd : Decides before less xs) (hs : Ascends less xs) :
    isAscending before xs = .ok true := by
  induction xs with
  | nil => rfl
  | cons x xs ih =>
    cases xs with
    | nil => rfl
    | cons y ys =>
      obtain ⟨hx, hys⟩ := List.pairwise_cons.mp hs
      have hne : x ≠ y := by
        rintro rfl
        exact (List.nodup_cons.mp hd.nodup).1 List.mem_cons_self
      have htells := hd.tells x List.mem_cons_self y (List.mem_cons_of_mem _ List.mem_cons_self) hne
      rw [hx y List.mem_cons_self] at htells
      show (before x y >>= _) = _
      rw [htells]
      exact ih (hd.sublist (List.sublist_cons_self x _)) hys

end Itemwise.Sorting
