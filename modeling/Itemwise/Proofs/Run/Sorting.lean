import Itemwise.Proofs.Run.Yields
import Itemwise.Sorting.Runs

namespace Itemwise

/-!
# The faults of sorting

Sorting, in all its parts, ends in no faults but those of the test that it sorts by:
`Sorting.raises_byMerging`.
-/

namespace Sorting

variable {α : Type} {F : Fault → Prop}

/-! ### Searching -/

/-- A binary search ends in no fault but those of its test. -/
theorem raises_search {holds : Nat → Except Fault Bool} (h : ∀ i, Raises F (holds i))
    (low high : Nat) :
    Raises F (search holds low high) := by
  fun_induction search holds low high with
  | case1 low high _ middle ih₁ ih₂ =>
    refine (h middle).bind fun b _ => ?_
    cases b with
    | true => exact ih₁
    | false => exact ih₂
  | case2 => exact raises_ok _

/-- Widening a gallop ends in no other. -/
theorem raises_widen {holds : Nat → Except Fault Bool} (h : ∀ i, Raises F (holds i))
    (most last ofs : Nat) :
    Raises F (widen holds most last ofs) := by
  fun_induction widen holds most last ofs with
  | case1 last ofs _ ih =>
    refine (h ofs).bind fun b _ => ?_
    cases b with
    | true => exact ih
    | false => exact raises_ok _
  | case2 => exact raises_ok _

/-- A gallop and the search after it end in no other. -/
theorem raises_gallop {holds : Nat → Except Fault Bool} (h : ∀ i, Raises F (holds i))
    (n hint : Nat) :
    Raises F (gallop holds n hint) := by
  refine (h hint).bind fun b _ => ?_
  have hnot (k : Nat) : Raises F (do return !(← holds k)) := (h k).bind fun _ _ => raises_ok _
  cases b with
  | true => exact (raises_widen (fun _ => h _) _ _ _).bind fun _ _ => raises_search h _ _
  | false => exact (raises_widen (fun _ => hnot _) _ _ _).bind fun _ _ => raises_search h _ _

/-- What is asked of a place of some items is asked of the item there, if there is one. -/
theorem raises_elim {test : α → Except Fault Bool} (h : ∀ x, Raises F (test x))
    (x : Option α) (b : Bool) :
    Raises F (x.elim (.ok b) test) := by
  cases x with
  | some x => exact h x
  | none => exact raises_ok b

/-- Counting the items at one side that pass a test ends in no other. -/
theorem raises_leading {test : α → Except Fault Bool} (h : ∀ x, Raises F (test x)) (side : Side)
    (items : List α) :
    Raises F (leading side test items) := by
  unfold leading
  cases side with
  | front => exact raises_gallop (fun _ => (raises_elim h _ _).bind fun _ _ => raises_ok _) _ _
  | back => exact (raises_gallop (fun _ => raises_elim h _ _) _ _).bind fun _ _ => raises_ok _

/-! ### Insertion -/

variable {before : Before α}

/-- Finding the end of a run ends in no fault but those of the comparison. -/
theorem raises_runEnd (h : ∀ x y, Raises F (before x y)) (items : Array α)
    (descending : Bool) (i : Nat) :
    Raises F (runEnd before items descending i) := by
  fun_induction runEnd before items descending i with
  | case1 i hi ih =>
    refine (h _ _).bind fun b _ => ?_
    split
    · exact ih
    · exact raises_ok _
  | case2 => exact raises_ok _

/-- Finding the first run, and whether it goes down, ends in no other. -/
theorem raises_firstRun (h : ∀ x y, Raises F (before x y)) (items : Array α) :
    Raises F (firstRun before items) := by
  unfold firstRun
  split
  · exact (h _ _).bind fun _ _ => (raises_runEnd h _ _ _).bind fun _ _ => raises_ok _
  · exact raises_ok _

/-- Inserting one item ends in no other. -/
theorem raises_insert (h : ∀ x y, Raises F (before x y)) (sorted : Array α) (x : α) :
    Raises F (insert before sorted x) :=
  (raises_search (fun _ => raises_elim (h x) _ _) _ _).bind fun _ _ => raises_ok _

/-- Inserting all that are left ends in no other. -/
theorem raises_insertAll (h : ∀ x y, Raises F (before x y)) (sorted items : Array α) :
    Raises F (insertAll before sorted items) := by
  unfold insertAll
  rw [← Array.foldlM_toList]
  generalize items.toList = xs
  induction xs generalizing sorted with
  | nil => exact raises_ok _
  | cons x xs ih =>
    rw [List.foldlM_cons]
    exact (raises_insert h sorted x).bind fun sorted _ => ih sorted

/-! ### Merging -/

/-- One item at a time is merged with no other fault. -/
theorem raises_step (h : ∀ x y, Raises F (before x y)) (m : Merging α) :
    Raises F (m.step before) := by
  unfold Merging.step
  split
  · refine (h _ _).bind fun b _ => ?_
    cases b <;> exact raises_ok _
  · exact raises_ok _

/-- A stride of the first run is merged with no other fault. -/
theorem raises_strideFirst (h : ∀ x y, Raises F (before x y)) (side : Side) (m : Merging α) :
    Raises F (m.strideFirst side before) := by
  unfold Merging.strideFirst
  split
  · refine (raises_leading (fun _ => (h _ _).bind fun _ _ => raises_ok _) _ _).bind fun n _ => ?_
    split <;> exact raises_ok _
  · exact raises_ok _

/-- A stride of the second run is merged with no other fault. -/
theorem raises_strideSecond (h : ∀ x y, Raises F (before x y)) (side : Side) (m : Merging α) :
    Raises F (m.strideSecond side before) := by
  unfold Merging.strideSecond
  split
  · refine (raises_leading (fun _ => h _ _) _ _).bind fun n _ => ?_
    split <;> exact raises_ok _
  · exact raises_ok _

/-- Strides by turns end in no other. -/
theorem raises_strides (h : ∀ x y, Raises F (before x y)) (side : Side) (m : Merging α) :
    Raises F (m.strides side before) := by
  cases side with
  | front =>
    exact (raises_strideFirst h _ _).bind fun _ _ => (raises_strideSecond h _ _).bind
      fun _ _ => raises_ok _
  | back =>
    exact (raises_strideSecond h _ _).bind fun _ _ => (raises_strideFirst h _ _).bind
      fun _ _ => raises_ok _

/-- A merge from any point on ends in no other. -/
theorem raises_mergeFrom (h : ∀ x y, Raises F (before x y)) (side : Side) (fuel : Nat) (pace : Pace)
    (patience : Nat) (m : Merging α) : Raises F (mergeFrom side before fuel pace patience m) := by
  induction fuel generalizing pace patience m with
  | zero => exact raises_ok _
  | succ fuel ih =>
    cases m with
    | finished all => exact raises_ok _
    | underway xs ys taken =>
      cases pace with
      | steps second n => exact (raises_step h _).bind fun _ _ => ih _ _ _
      | strides =>
        refine (raises_strides h side _).bind fun r _ => ?_
        obtain ⟨_ | _, _ | _⟩ := r
        · exact ih _ _ _
        · exact ih _ _ _
        · exact raises_ok _
        · exact raises_ok _

/-- A whole merge ends in no other. -/
theorem raises_merge (h : ∀ x y, Raises F (before x y)) (patience : Nat) (a b : Array α) :
    Raises F (merge before patience a b) := by
  unfold merge
  split
  · next first last _ _ =>
    have hlast (y : α) : Raises F (do return !(← before y last)) :=
      (h y last).bind fun _ _ => raises_ok _
    -- Two gallops leave out what is in place at either end; then the merge starts at the side of
    -- the shorter rest.
    refine (raises_gallop (fun _ => raises_elim (h first) _ _) _ _).bind fun k _ => ?_
    extract_lets a'
    split
    · exact raises_ok _
    · refine (raises_gallop (fun _ => raises_elim hlast _ _) _ _).bind fun n _ => ?_
      extract_lets b'
      split
      · exact raises_ok _
      · split
        · exact (raises_mergeFrom h _ _ _ _ _).bind fun _ _ => raises_ok _
        · exact (raises_mergeFrom (fun x y => h y x) _ _ _ _ _).bind fun _ _ => raises_ok _
  · exact raises_ok _

/-! ### Runs -/

/-- Collapsing pending runs ends in no other. -/
theorem raises_collapse (h : ∀ x y, Raises F (before x y)) (next : Nat)
    (runs : List (Array α × Nat)) (patience : Nat) :
    Raises F (Pending.collapse before next runs patience) := by
  fun_induction Pending.collapse before next runs patience with
  | case1 b a runs patience _ ih => exact (raises_merge h _ _ _).bind fun _ _ => ih _ _
  | case2 => exact raises_ok _
  | case3 => exact raises_ok _

/-- Putting a new run to them ends in no other. -/
theorem raises_push (h : ∀ x y, Raises F (before x y)) (n : Nat) (p : Pending α) (run : Array α) :
    Raises F (p.push before n run) := by
  unfold Pending.push
  split
  · exact raises_ok _
  · refine (raises_collapse h _ _ _).bind fun q _ => ?_
    split <;> exact raises_ok _

/-- Merging what is pending in the end ends in no other. -/
theorem raises_finish (h : ∀ x y, Raises F (before x y)) (runs : List (Array α)) (patience : Nat) :
    Raises F (Pending.finish before runs patience) := by
  fun_induction Pending.finish before runs patience with
  | case1 => exact raises_ok _
  | case2 => exact raises_ok _
  | case3 => exact (raises_merge h _ _ _).bind fun _ _ => raises_ok _
  | case4 c b a runs patience _ ih => exact (raises_merge h _ _ _).bind fun _ _ => ih _ _
  | case5 c b a runs patience _ ih => exact (raises_merge h _ _ _).bind fun _ _ => ih _ _

/-- Cutting the items into runs ends in no other. -/
theorem raises_runsFrom (h : ∀ x y, Raises F (before x y)) (items : Array α)
    (least fuel start : Nat) (p : Pending α) :
    Raises F (runsFrom before items least fuel start p) := by
  induction fuel generalizing start p with
  | zero => exact raises_ok _
  | succ fuel ih =>
    unfold runsFrom
    extract_lets rest
    split
    · exact raises_ok _
    · exact (raises_firstRun h _).bind fun _ _ => (raises_insertAll h _ _).bind fun _ _ =>
        (raises_push h _ _ _).bind fun _ _ => ih _ _

/-- Sorting ends in no faults but those of its test. -/
theorem raises_byMerging (h : ∀ x y, Raises F (before x y)) (items : Array α) :
    Raises F (byMerging before items) :=
  (raises_runsFrom h _ _ _ _ _).bind fun _ _ => raises_finish h _ _

end Sorting

end Itemwise
