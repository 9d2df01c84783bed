import Itemwise.Leaf.Blank
import Itemwise.Leaf.Number
import Itemwise.Proofs.Scan.Search

namespace Itemwise

/-!
# Reading what is left of an input

What is left of an input from a position on is an input of its own, in which everything stands that
much earlier.

* `Items.size_drop`, `Items.get?_drop`, `Items.slice_drop` — its size, its items and its stretches;
* `Run.find?_add`, `Search.firstFrom_add` — searches in which every position is counted from
  somewhere else;
* `Leaf.scanWhile_drop`, `Leaf.locate_drop`, `Search.find?_drop` — whatever is found is found that
  much earlier;
* `Leaf.numeral?_drop`, `Leaf.fraction_drop` — the parts of numbers are the same.
-/

/-! ### Items -/

namespace Items

variable (xs : Items) (k : Nat)

/-- What is left of an array, as a list. -/
theorem toList_extract_size {α : Type} (as : Array α) :
    (as.extract k as.size).toList = as.toList.drop k := by
  rw [Array.toList_extract, List.extract_eq_take_drop]
  have hlength : (as.toList.drop k).length = as.size - k := by
    rw [List.length_drop, Array.length_toList]
  rw [← hlength, List.take_length]

/-- What is left of some items is what is left of their list. -/
theorem toList_drop : (xs.drop k).toList = xs.toList.drop k := by
  cases xs <;> simp only [drop, toList, toList_extract_size, List.map_drop]

/-- There are that many items less. -/
theorem size_drop : (xs.drop k).size = xs.size - k := by
  rw [← length_toList, toList_drop, List.length_drop, length_toList]

/-- An item is that much earlier in what is left. -/
theorem get?_drop (i : Nat) : (xs.drop k).get? i = xs.get? (k + i) := by
  rw [get?_eq_toList, get?_eq_toList, toList_drop, List.getElem?_drop]

/-- A stretch of an array from a position on is one of the whole array. -/
theorem toList_extract_extract {α : Type} (as : Array α) (start stop : Nat) :
    ((as.extract k as.size).extract start stop).toList =
      (as.extract (k + start) (k + stop)).toList := by
  have htake (bs : Array α) (i j : Nat) :
      (bs.extract i j).toList = (bs.toList.drop i).take (j - i) := by
    rw [Array.toList_extract, List.extract_eq_take_drop]
  rw [htake (as.extract k as.size), toList_extract_size, htake as, List.drop_drop,
    Nat.add_sub_add_left]

/-- So is a slice. -/
theorem slice_drop (start stop : Nat) :
    (xs.drop k).slice start stop = xs.slice (k + start) (k + stop) := by
  cases xs with
  | text cs => exact congrArg Value.text (toList_extract_extract k cs start stop)
  | octets kind bs => exact congrArg (Value.octets kind) (toList_extract_extract k bs start stop)
  | list vs => exact congrArg Value.list (toList_extract_extract k vs start stop)
  | tuple vs => exact congrArg Value.tuple (toList_extract_extract k vs start stop)

end Items

/-! ### Searches -/

namespace Run

variable (k : Nat)

/-- The first place that passes a test is that much earlier. -/
theorem firstWhere_add (test : Nat → Bool) (count pos : Nat) :
    firstWhere test count (k + pos) =
      (firstWhere (fun i => test (k + i)) count pos).map (k + ·) := by
  induction count generalizing pos with
  | zero => rfl
  | succ count ih =>
    unfold firstWhere
    split
    · rfl
    · exact ih (pos + 1)

/-- Where a text does not fit is as far into it as before. -/
theorem misfitFrom_add (fits : Nat → Nat → Bool) (pos left j : Nat) :
    misfitFrom fits (k + pos) left j = misfitFrom (fun j i => fits j (k + i)) pos left j := by
  induction left generalizing j with
  | zero => rfl
  | succ left ih => rw [misfitFrom, misfitFrom, ih, Nat.add_assoc]

/-- A run is found where it is when positions are counted from somewhere else. -/
theorem find?_add (fits : Nat → Nat → Bool) (width count pos : Nat) :
    find? fits width count (k + pos) =
      (find? (fun j i => fits j (k + i)) width count pos).map (k + ·) := by
  rw [find?_eq_firstWhere, find?_eq_firstWhere, firstWhere_add]
  simp only [misfit?, misfitFrom_add]

end Run

namespace Search

variable (k : Nat)

/-- The first member of a list that passes a test is that much earlier. -/
theorem firstFrom_add {α : Type} (p : α → Bool) (i : Nat) (xs : List α) :
    firstFrom p (k + i) xs = (firstFrom p i xs).map (k + ·) := by
  induction xs generalizing i with
  | nil => rfl
  | cons x xs ih =>
    rw [firstFrom, firstFrom]
    split
    · rfl
    · exact ih (i + 1)

/-- It is found alike in an array and in what is left of it. -/
theorem firstFrom_drop_extract {α : Type} (p : α → Bool) (as : Array α) (start : Nat) :
    firstFrom p (k + start) (as.toList.drop (k + start)) =
      (firstFrom p start ((as.extract k as.size).toList.drop start)).map (k + ·) := by
  rw [firstFrom_add, Items.toList_extract_size, List.drop_drop]

/-- A search for bytes comes to an index that is that much earlier. -/
theorem index?_drop (xs : Items) (start : Nat) (fs : List Finder) (look : Value → Value) :
    index? xs (k + start) fs look = (index? (xs.drop k) start fs look).map (k + ·) := by
  cases xs with
  | text cs =>
    show text fs cs (k + start) = (text fs (cs.extract k cs.size) start).map _
    rw [text_eq, text_eq, firstFrom_drop_extract]
  | octets kind bs =>
    show bytes fs bs (k + start) = (bytes fs (bs.extract k bs.size) start).map _
    rw [bytes_eq, bytes_eq, firstFrom_drop_extract]
  | list vs | tuple vs =>
    show list fs look vs (k + start) = (list fs look (vs.extract k vs.size) start).map _
    rw [list_eq, list_eq, firstFrom_drop_extract]

end Search

/-! ### Stretches and needles -/

namespace Leaf

variable (xs : Items) (k : Nat)

/-- A scan stops that much earlier. -/
theorem scanWhile_drop (test : Value → Except Fault Bool) (left pos : Nat) :
    scanWhile (.sequence xs) test left (k + pos) =
      (scanWhile (.sequence (xs.drop k)) test left pos).map (k + ·) := by
  induction left generalizing pos with
  | zero => rfl
  | succ left ih =>
    simp only [scanWhile, Input.item?_sequence, Items.get?_drop, Step.ok_bind]
    cases xs.get? (k + pos) with
    | none => rfl
    | some v =>
      show (test v >>= fun pass => if pass then _ else _) =
          (test v >>= fun pass => if pass then _ else _).map _
      cases test v with
      | error f => rfl
      | ok pass =>
        cases pass with
        | false => rfl
        | true => exact ih (pos + 1)

/-- As many items are left. -/
theorem size_sub_add (pos : Nat) : xs.size - (k + pos) = (xs.drop k).size - pos := by
  rw [Items.size_drop, Nat.sub_sub]

/-- White space ends that much earlier. -/
theorem skipBlanks_drop (pos : Nat) :
    skipBlanks (.sequence xs) (k + pos) = (skipBlanks (.sequence (xs.drop k)) pos).map (k + ·) := by
  unfold skipBlanks
  rw [Input.size_sequence, Input.size_sequence, size_sub_add, scanWhile_drop]

variable {xs k} (hk : k ≤ xs.size)

/-- A run of codes is found that much earlier. -/
theorem findRun_extract {α : Type} (key : α → Nat) (as : Array α) {k : Nat} (hk : k ≤ as.size)
    (run : List Nat) (start : Nat) :
    findRun key as run (k + start) =
      (findRun key (as.extract k as.size) run start).map fun e => (k + e.1, e.2) := by
  have hsize : (as.extract k as.size).size = as.size - k := by rw [Array.size_extract, Nat.min_self]
  -- There are as many positions left at which the run can begin.
  have hcount : as.size + 1 - run.toArray.size - (k + start) =
      (as.extract k as.size).size + 1 - run.toArray.size - start := by
    rw [hsize]
    omega
  have hget (p : Nat) : (as.extract k as.size)[p]? = as[k + p]? := by
    rw [Array.getElem?_extract, Nat.min_self]
    split
    · rfl
    · next hle => rw [Array.getElem?_eq_none (by omega)]
  unfold findRun Run.findArray?
  simp only [hcount, hget, Run.find?_add, Option.map_map]
  rfl

include hk in
/-- A stretch of items is found that much earlier. -/
theorem findItems_drop (needle : Value) (start : Nat) (look : Value → Value) :
    findItems xs needle (k + start) look = (findItems (xs.drop k) needle start look).map fun e =>
      (k + e.1, e.2) := by
  unfold findItems
  split
  · next run _ =>
    have hcount : xs.size + 1 - run.toArray.size - (k + start) =
        (xs.drop k).size + 1 - run.toArray.size - start := by
      rw [Items.size_drop]
      omega
    simp only [hcount, Items.get?_drop, Run.find?_add, Option.map_map]
    rfl
  · simp only [size_sub_add, Items.get?_drop, Run.firstWhere_add, Option.map_map]
    rfl

include hk in
/-- A needle is found that much earlier in what is left. -/
theorem locate_drop (needle : Value) (start : Nat) (look : Value → Value) :
    locate (.sequence xs) needle (k + start) look =
      (locate (.sequence (xs.drop k)) needle start look).map
        (Option.map fun e => (k + e.1, e.2)) := by
  have hmap {ε α β : Type} (a : Except ε α) (f g : α → Option β) {h : β → β}
      (hfg : ∀ x, f x = (g x).map h) : a.map f = (a.map g).map (Option.map h) := by
    cases a with
    | ok x => exact congrArg Except.ok (hfg x)
    | error e => rfl
  show locateIn xs needle (k + start) look = (locateIn (xs.drop k) needle start look).map _
  cases xs with
  | text cs => exact hmap _ _ _ fun run => findRun_extract Char.toNat cs hk run start
  | octets kind bs =>
    simp only [locateIn, Items.drop]
    split
    · exact congrArg Except.ok (findItems_drop hk needle start look)
    · exact hmap _ _ _ fun run => findRun_extract UInt8.toNat bs hk run start
  | list vs | tuple vs => exact congrArg Except.ok (findItems_drop hk needle start look)

/-! ### Numbers -/

variable (xs k)

/-- The digits are the same. -/
theorem digitRun_drop (left pos : Nat) :
    digitRun (.sequence xs) left (k + pos) = digitRun (.sequence (xs.drop k)) left pos := by
  induction left generalizing pos with
  | zero => rfl
  | succ left ih =>
    simp only [digitRun, Input.item?_sequence, Items.get?_drop, Step.ok_bind, ← ih (pos + 1),
      Nat.add_assoc]

/-- The numeral is the same. -/
theorem numeral?_drop (pos : Nat) (signed : Bool) (kind : Option IntKind) (look : Value → Value) :
    numeral? (.sequence xs) (k + pos) signed kind look =
      numeral? (.sequence (xs.drop k)) pos signed kind look := by
  have hdigits (start : Nat) : digitRun (.sequence xs) (xs.size - (k + start)) (k + start) =
      digitRun (.sequence (xs.drop k)) ((xs.drop k).size - start) start := by
    rw [size_sub_add, digitRun_drop]
  have hstart (negative : Bool) : (if negative then k + pos + 1 else k + pos) = k + if negative then
    pos + 1 else pos := by
    cases negative <;> rfl
  simp only [numeral?, Input.item?_sequence, Items.get?_drop, Step.ok_bind, Input.size_sequence,
    hstart, hdigits]

/-- The fraction is the same. -/
theorem fraction_drop (pos : Nat) (look : Value → Value) :
    fraction (.sequence xs) (k + pos) look = fraction (.sequence (xs.drop k)) pos look := by
  simp only [fraction, Input.item?_sequence, Items.get?_drop, Step.ok_bind, Input.size_sequence,
    Nat.add_assoc, size_sub_add, digitRun_drop]

end Leaf

/-- A byte is found that much earlier in what is left. -/
theorem Search.find?_drop (xs : Items) (k start : Nat) (fs : List Finder) (look : Value → Value) :
    find? (.sequence xs) (k + start) fs look =
      (find? (.sequence (xs.drop k)) start fs look).map (Option.map (k + ·)) :=
  congrArg Except.ok (index?_drop k xs start fs look)

end Itemwise
