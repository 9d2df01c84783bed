import Itemwise.LineTable
import Mathlib.Data.Nat.Count
import Mathlib.Data.Prod.Lex

namespace Itemwise

/-!
# Lines and columns by counting newlines

The line of a position is one more than the number of newlines before it, and its column counts from
just after the last of these.  A line table looks both up among the offsets at which lines start, of
which it looks at a few only.

* `Items.IsNewline`, `Items.IsLineStart` — where newlines stand, and where the line of a position
  starts;
* `Items.clamp` — the position of a source that is nearest to a number;
* `LineTable.mem_startsAfter`, `LineTable.countP_startsAfter` — the offsets of a table are those
  just after the newlines, and as many of them are at most at a position as there are newlines
  before it;
* `LineTable.Narrows` — a bisection as a relation: every offset that it looks at is in the table;
* `LineTable.Brackets`, `LineTable.Narrows.brackets` — the offsets between which the position is,
  which every step keeps;
* `LineTable.position_newlines` — the line and the column of a position, which tell it apart from
  all others and grow with it.
-/

namespace Items

/-- At a position stands a newline: the character in a text, the byte 10 in a byte sequence, and an
    item that is equal to the character anywhere else. -/
def IsNewline : Items → Nat → Prop
  | .text cs, i => cs[i]? = some '\n'
  | .octets _ bs, i => bs[i]? = some 10
  | .list xs, i | .tuple xs, i => ∃ v, xs[i]? = some v ∧ v.eqv (.ofChar '\n') = true

/-- Where the line of a position starts: at the beginning, or just after the last newline before the
    position. -/
structure IsLineStart (source : Items) (pos start : Nat) : Prop where
  start_le : start ≤ pos
  after : start = 0 ∨ ∃ i, start = i + 1 ∧ source.IsNewline i
  last : ∀ i, start ≤ i → i < pos → ¬ source.IsNewline i

variable {source : Items} {i pos : Nat}

/-- A newline is an item that is equal to the newline of the table. -/
theorem isNewline_iff : source.IsNewline i ↔ ∃ v, source.toList[i]? = some v ∧
    v.eqv (LineTable.newline source) = true := by
  cases source with
  | text cs => simp [IsNewline, toList, LineTable.newline, Value.ofChar, Value.eqv]
  | octets k bs =>
    have hbyte (b : UInt8) : (Value.ofByte b).eqv (.int 10) = true ↔ b = 10 := by
      rw [Value.ofByte, Value.eqv, beq_iff_eq, ← UInt8.toNat_inj]
      exact Int.ofNat_inj
    simp only [IsNewline, toList, LineTable.newline, List.getElem?_map, Array.getElem?_toList,
      Option.map_eq_some_iff]
    constructor
    · exact fun h => ⟨_, ⟨10, h, rfl⟩, (hbyte 10).mpr rfl⟩
    · rintro ⟨v, ⟨b, hb, rfl⟩, hv⟩
      rw [hb, (hbyte b).mp hv]
  | list xs | tuple xs => simp [IsNewline, toList, LineTable.newline]

instance : DecidablePred source.IsNewline := fun i =>
  decidable_of_iff ((source.toList[i]?).any (·.eqv (LineTable.newline source)) = true) (by
    rw [isNewline_iff, Option.any_eq_true])

/-- Where a line starts is told by the position. -/
theorem IsLineStart.unique {start start' : Nat} (h : source.IsLineStart pos start)
    (h' : source.IsLineStart pos start') :
    start = start' := by
  -- of two starts, the later one has a newline before it, which is not before the earlier one
  have hle {a b : Nat} (ha : source.IsLineStart pos a) (hb : source.IsLineStart pos b) : b ≤ a := by
    rcases hb.after with rfl | ⟨i, rfl, hnewline⟩
    · exact Nat.zero_le a
    · by_contra hlt
      exact ha.last i (by omega) hb.start_le hnewline
  exact Nat.le_antisymm (hle h' h) (hle h h')

/-- The position of a source that is nearest to a number. -/
def clamp (source : Items) (p : Int) : Nat := (max 0 (min p source.size)).toNat

/-- A position is moved to the nearest one of the text. -/
theorem clamp_eq (source : Items) (p : Int) : source.clamp p = min p.toNat source.size := by
  unfold clamp
  omega

/-- A position of the text stays where it is. -/
theorem clamp_natCast {p : Nat} (h : p ≤ source.size) : source.clamp p = p := by
  rw [clamp_eq, Int.toNat_natCast, Nat.min_eq_left h]

/-- The newlines before a position are the items before it that are newlines. -/
theorem count_isNewline (source : Items) (pos : Nat) :
    Nat.count source.IsNewline pos = (source.toList.take pos).countP
      (·.eqv (LineTable.newline source)) := by
  induction pos with
  | zero => rfl
  | succ pos ih =>
    rw [Nat.count_succ, ih, List.take_add_one, List.countP_append]
    refine congrArg _ ?_
    cases hv : source.toList[pos]? with
    | none => rw [if_neg (by rw [isNewline_iff, hv]; rintro ⟨v, ⟨⟩, -⟩)]; rfl
    | some v =>
      have hpos : source.IsNewline pos ↔ v.eqv (LineTable.newline source) = true := by
        rw [isNewline_iff, hv]
        simp
      rw [Option.toList_some, List.countP_singleton]
      simp only [hpos]

end Items

namespace LineTable

/-! ### The offsets at which lines start -/

section Starts

variable {newline : Value} {i start : Nat} {xs : List Value}

/-- Lines start just after the newlines. -/
theorem mem_startsAfter :
    start ∈ startsAfter newline i xs ↔ ∃ j v, xs[j]? = some v ∧ v.eqv newline = true ∧
      start = i + j + 1 := by
  induction xs generalizing i with
  | nil => simp [startsAfter]
  | cons x xs ih =>
    -- a newline further on is one place nearer to the next item
    have hlater : (∃ j v, (x :: xs)[j + 1]? = some v ∧ v.eqv newline = true ∧
        start = i + (j + 1) + 1) ↔
        start ∈ startsAfter newline (i + 1) xs := by
      rw [ih]
      simp only [List.getElem?_cons_succ, show ∀ j, i + (j + 1) + 1 = i + 1 + j + 1 by omega]
    rw [startsAfter, ← Nat.or_exists_add_one, hlater]
    split
    · next hx => simp [hx]
    · next hx => simp [hx]

/-- The starts of lines ascend. -/
theorem startsAfter_ascends : (startsAfter newline i xs).Pairwise (· < ·) := by
  induction xs generalizing i with
  | nil => exact .nil
  | cons x xs ih =>
    rw [startsAfter]
    split
    · refine List.pairwise_cons.mpr ⟨fun start hstart => ?_, ih⟩
      obtain ⟨j, -, -, -, rfl⟩ := mem_startsAfter.mp hstart
      omega
    · exact ih

/-- As many lines start after the first one and at most at a position as there are newlines before
    it. -/
theorem countP_startsAfter (n : Nat) :
    (startsAfter newline i xs).countP (· ≤ i + n) = (xs.take n).countP (·.eqv newline) := by
  induction xs generalizing i n with
  | nil => simp [startsAfter]
  | cons x xs ih =>
    cases n with
    | zero =>
      rw [List.take_zero, List.countP_nil, List.countP_eq_zero]
      intro start hstart
      obtain ⟨j, -, -, -, rfl⟩ := mem_startsAfter.mp hstart
      simp only [decide_eq_true_eq]
      omega
    | succ n =>
      have hrest := ih (i := i + 1) n
      rw [show i + 1 + n = i + (n + 1) by omega] at hrest
      rw [startsAfter, List.take_succ_cons, List.countP_cons]
      split
      · next hx => rw [List.countP_cons, hrest, if_pos (by simp only [decide_eq_true_eq]; omega)]
      · next hx => rw [hrest]; rfl

end Starts

/-- The table of offsets ascends. -/
theorem starts_ascend (source : Items) : (ofItems source).starts.toList.Pairwise (· < ·) := by
  refine List.pairwise_cons.mpr ⟨fun start hstart => ?_, startsAfter_ascends⟩
  obtain ⟨j, -, -, -, rfl⟩ := mem_startsAfter.mp hstart
  omega

/-- As many lines start at most at a position as there are newlines before it, and the first one. -/
theorem countP_starts (source : Items) (pos : Nat) :
    (ofItems source).starts.toList.countP (· ≤ pos) = 1 + Nat.count source.IsNewline pos := by
  have hcount : (startsAfter (newline source) 0 source.toList).countP (· ≤ 0 + pos) =
      (source.toList.take pos).countP (·.eqv (newline source)) := countP_startsAfter pos
  rw [Nat.zero_add] at hcount
  show (0 :: startsAfter (newline source) 0 source.toList).countP (· ≤ pos) = _
  rw [List.countP_cons, if_pos (by simp), hcount, Items.count_isNewline, Nat.add_comm]

/-- The first line starts at the beginning, and the others just after newlines. -/
theorem mem_starts {source : Items} {start : Nat} :
    start ∈ (ofItems source).starts.toList ↔ start = 0 ∨ ∃ i, start = i + 1 ∧
      source.IsNewline i := by
  show start ∈ 0 :: startsAfter (newline source) 0 source.toList ↔ _
  rw [List.mem_cons, mem_startsAfter]
  simp only [Items.isNewline_iff, Nat.zero_add]
  refine or_congr_right ⟨?_, ?_⟩
  · rintro ⟨j, v, hv, hnewline, rfl⟩
    exact ⟨j, rfl, v, hv, hnewline⟩
  · rintro ⟨j, rfl, v, hv, hnewline⟩
    exact ⟨j, v, hv, hnewline, rfl⟩

/-! ### The bisection -/

/-- A bisection between two indices comes to one of them after some steps, and each offset that it
    compares with the position is in the table. -/
inductive Narrows (starts : Array Nat) (pos : Nat) : (left right line : Nat) → Prop
  | found {line right : Nat} (h : right ≤ line) : Narrows starts pos line right line
  | upper {left right line start : Nat} (hlt : left < right)
      (hget : starts[(left + right + 1) / 2]? = some start)
      (hle : start ≤ pos) (h : Narrows starts pos ((left + right + 1) / 2) right line) :
    Narrows starts pos left right line
  | lower {left right line start : Nat} (hlt : left < right)
      (hget : starts[(left + right + 1) / 2]? = some start)
      (hgt : pos < start) (h : Narrows starts pos left ((left + right + 1) / 2 - 1) line) :
    Narrows starts pos left right line

/-- The indices between which the line of a position is: at the lower one and below it lines start
    at most at the position, and above the upper one behind it. -/
structure Brackets (starts : Array Nat) (pos left right : Nat) : Prop where
  left_le : left ≤ right
  right_lt : right < starts.size
  below : ∀ i start, i ≤ left → starts[i]? = some start → start ≤ pos
  above : ∀ i start, right < i → starts[i]? = some start → pos < start

variable {starts : Array Nat} {pos left right line : Nat}

/-- The search is a bisection that ends, between any two indices of which the table has the upper
    one. -/
theorem narrows_bisect (hright : right < starts.size) :
    Narrows starts pos left right (bisect starts pos left right) := by
  fun_induction bisect starts pos left right with
  | case1 left right hlt mid hle ih =>
    have hmid : mid < starts.size := by omega
    rw [Array.getElem?_eq_getElem hmid, Option.getD_some] at hle
    exact .upper hlt (Array.getElem?_eq_getElem hmid) hle (ih hright)
  | case2 left right hlt mid hgt ih =>
    have hmid : mid < starts.size := by omega
    rw [Array.getElem?_eq_getElem hmid, Option.getD_some, Nat.not_le] at hgt
    exact .lower hlt (Array.getElem?_eq_getElem hmid) hgt (ih (by omega))
  | case3 left right hge => exact .found (Nat.le_of_not_lt hge)

/-- In a table that ascends, a later offset is greater. -/
theorem lt_of_ascends (hstarts : starts.toList.Pairwise (· < ·)) {i j a b : Nat} (hij : i < j)
    (ha : starts[i]? = some a) (hb : starts[j]? = some b) : a < b := by
  rw [← Array.getElem?_toList] at ha hb
  obtain ⟨hi, rfl⟩ := List.getElem?_eq_some_iff.mp ha
  obtain ⟨hj, rfl⟩ := List.getElem?_eq_some_iff.mp hb
  exact List.pairwise_iff_getElem.mp hstarts i j hi hj hij

/-- **A bisection brackets the position** from the first step to the last, at which one index is
    left. -/
theorem Narrows.brackets (h : Narrows starts pos left right line)
    (hstarts : starts.toList.Pairwise (· < ·)) (hb : Brackets starts pos left right) :
    Brackets starts pos line line := by
  induction h with
  | found h => exact Nat.le_antisymm hb.left_le h ▸ hb
  | upper hlt hget hle _ ih =>
    refine ih ⟨by omega, hb.right_lt, fun i a hi ha => ?_, hb.above⟩
    rcases Nat.eq_or_lt_of_le hi with rfl | hi
    · rw [hget] at ha
      cases ha
      exact hle
    · exact Nat.le_of_lt (Nat.lt_of_lt_of_le (lt_of_ascends hstarts hi ha hget) hle)
  | @lower left right line start hlt hget hgt _ ih =>
    have hright := hb.right_lt
    refine ih ⟨by omega, by omega, hb.below, fun i a hi ha => ?_⟩
    rcases Nat.eq_or_lt_of_le (show (left + right + 1) / 2 ≤ i by omega) with rfl | hi
    · rw [hget] at ha
      cases ha
      exact hgt
    · exact Nat.lt_trans hgt (lt_of_ascends hstarts hi hget ha)

/-- Where one index is left, there are as many offsets up to it as are at most at the position. -/
theorem Brackets.countP_eq (hb : Brackets starts pos line line) :
    starts.toList.countP (· ≤ pos) = line + 1 := by
  rw [← List.take_append_drop (line + 1) starts.toList, List.countP_append]
  have hfront : (starts.toList.take (line + 1)).countP (· ≤ pos) =
      (starts.toList.take (line + 1)).length := by
    rw [List.countP_eq_length]
    intro start hstart
    obtain ⟨i, hi⟩ := List.getElem?_of_mem hstart
    rw [List.getElem?_take] at hi
    split at hi
    · next hlt =>
        exact decide_eq_true (hb.below i start (Nat.le_of_lt_succ hlt) (by simpa using hi))
    · cases hi
  have hback : (starts.toList.drop (line + 1)).countP (· ≤ pos) = 0 := by
    rw [List.countP_eq_zero]
    intro start hstart
    obtain ⟨i, hi⟩ := List.getElem?_of_mem hstart
    rw [List.getElem?_drop] at hi
    have hgt := hb.above (line + 1 + i) start (by omega) (by simpa using hi)
    simpa using hgt
  rw [hfront, hback, List.length_take, Array.length_toList, Nat.min_eq_left hb.right_lt]

/-! ### Lines and columns -/

/-- Where one index is left, the line of the position starts at its offset. -/
theorem Brackets.isLineStart {source : Items} {start : Nat}
    (hb : Brackets (ofItems source).starts pos line line)
    (hstart : (ofItems source).starts[line]? = some start) : source.IsLineStart pos start := by
  have hmem : start ∈ (ofItems source).starts.toList := by
    rw [← Array.getElem?_toList] at hstart
    exact List.mem_of_getElem? hstart
  refine ⟨hb.below line start (Nat.le_refl line) hstart, mem_starts.mp hmem,
    fun i hi hlt hnewline => ?_⟩
  -- after a newline in between, another line would start, which is above this one and not above the
  -- position
  obtain ⟨j, hj⟩ := List.getElem?_of_mem (mem_starts.mpr (.inr ⟨i, rfl, hnewline⟩))
  rw [Array.getElem?_toList] at hj
  rcases Nat.lt_trichotomy j line with hjl | rfl | hlj
  · have := lt_of_ascends (starts_ascend source) hjl hj hstart
    omega
  · rw [hstart] at hj
    cases hj
    omega
  · have := hb.above j _ hlj hj
    omega

/-- A position is told by the index that the bisection comes to. -/
theorem position_of_getElem? {source : Items} {p : Int} {start : Nat}
    (hstart : (ofItems source).starts[bisect (ofItems source).starts (source.clamp p) 0
      ((ofItems source).starts.size - 1)]? = some start) :
    (ofItems source).position p =
      (bisect (ofItems source).starts (source.clamp p) 0 ((ofItems source).starts.size - 1) + 1,
        source.clamp p - start + 1) := by
  rw [Items.clamp_eq] at hstart ⊢
  show (_, min p.toNat source.size - Option.getD _ 0 + 1) = _
  rw [show (ofItems source).sourceSize = source.size from rfl, hstart, Option.getD_some]

/-- The bisection of the whole table comes to one index, whatever the position is. -/
theorem brackets_bisect (source : Items) (pos : Nat) :
    Brackets (ofItems source).starts pos
      (bisect (ofItems source).starts pos 0 ((ofItems source).starts.size - 1))
      (bisect (ofItems source).starts pos 0 ((ofItems source).starts.size - 1)) := by
  have hsize : 0 < (ofItems source).starts.size := Nat.zero_lt_succ _
  refine (narrows_bisect (Nat.sub_one_lt_of_lt hsize)).brackets (starts_ascend source) ?_
  refine ⟨Nat.zero_le _, Nat.sub_one_lt_of_lt hsize, fun i start hi hstart => ?_,
    fun i start hi hstart => ?_⟩
  · obtain rfl := Nat.le_zero.mp hi
    obtain rfl : 0 = start := Option.some.inj hstart
    exact Nat.zero_le _
  · obtain ⟨hlt, -⟩ := Array.getElem?_eq_some_iff.mp hstart
    omega

/-- **A position is looked up by the newlines before it**, in a bisection that looks at offsets of
    the table only. -/
theorem exists_lookup (source : Items) (p : Int) :
    ∃ line start, Narrows (ofItems source).starts (source.clamp p) 0
      ((ofItems source).starts.size - 1) line ∧
      (ofItems source).starts[line]? = some start ∧ source.IsLineStart (source.clamp p) start ∧
      line = Nat.count source.IsNewline (source.clamp p) ∧
      (ofItems source).position p = (line + 1, source.clamp p - start + 1) := by
  have hbrackets := brackets_bisect source (source.clamp p)
  have hstart := Array.getElem?_eq_getElem hbrackets.right_lt
  have hcount := hbrackets.countP_eq
  rw [countP_starts] at hcount
  exact ⟨_, _, narrows_bisect (Nat.sub_one_lt_of_lt (Nat.zero_lt_succ _)), hstart,
    hbrackets.isLineStart hstart, by omega,
    position_of_getElem? hstart⟩

/-- The line and the column grow with the position. -/
theorem position_lex {source : Items} {p q : Nat} (hlt : p < q) (hle : q ≤ source.size) :
    Prod.Lex (· < ·) (· < ·) ((ofItems source).position p) ((ofItems source).position q) := by
  obtain ⟨line, start, -, -, hstart, hline, hp⟩ := exists_lookup source p
  obtain ⟨line', start', -, -, hstart', hline', hq⟩ := exists_lookup source q
  rw [Items.clamp_natCast (by omega)] at hstart hline hp
  rw [Items.clamp_natCast hle] at hstart' hline' hq
  rw [hp, hq, Prod.lex_def]
  rcases Nat.eq_or_lt_of_le (Nat.count_monotone source.IsNewline (Nat.le_of_lt hlt))
    with heq | hless
  · -- there is no newline between the two positions, so that their line starts at one place
    have hsame : start = start' := by
      refine Items.IsLineStart.unique ⟨by have := hstart.start_le; omega, hstart.after,
        fun i hi hlt' hnewline => ?_⟩ hstart'
      rcases Nat.lt_or_ge i p with hip | hip
      · exact hstart.last i hi hip hnewline
      · have hmore := Nat.count_strict_mono hnewline hlt'
        have := Nat.count_monotone source.IsNewline hip
        omega
    have := hstart.start_le
    subst hsame hline hline'
    exact .inr ⟨by simp only [heq], by simp only; omega⟩
  · subst hline hline'
    exact .inl (Nat.succ_lt_succ hless)

/-- **Line and column are what counting newlines gives.** Whatever a position is, the bisection for
    it ends, after it has looked at offsets of the table only; the line is one more than the number
    of newlines before the position, moved into the source, and the column is counted from where
    that line starts.  Positions within the source are told apart by line and column, and these grow
    with them. -/
theorem position_newlines (source : Items) :
    (∀ p : Int, ∃ line start,
      Narrows (ofItems source).starts (source.clamp p) 0 ((ofItems source).starts.size - 1) line ∧
        (ofItems source).starts[line]? = some start ∧ source.IsLineStart (source.clamp p) start ∧
        (ofItems source).position p =
          (1 + Nat.count source.IsNewline (source.clamp p), source.clamp p - start + 1)) ∧
      (∀ p q : Nat, p ≤ source.size → q ≤ source.size →
        (ofItems source).position p = (ofItems source).position q → p = q) ∧
      ∀ p q : Nat, p < q → q ≤ source.size →
        Prod.Lex (· < ·) (· < ·) ((ofItems source).position p) ((ofItems source).position q) := by
  refine ⟨fun p => ?_, fun p q hp hq heq => ?_, fun p q hlt hle => position_lex hlt hle⟩
  · obtain ⟨line, start, hnarrows, hget, hstart, hline, hp⟩ := exists_lookup source p
    exact ⟨line, start, hnarrows, hget, hstart, by rw [hp, hline, Nat.add_comm]⟩
  · -- of two positions the greater one has the greater line and column
    rcases Nat.lt_trichotomy p q with hlt | heq' | hlt
    · have hlex := position_lex hlt hq
      rw [heq] at hlex
      exact absurd hlex (by simp [Prod.lex_def])
    · exact heq'
    · have hlex := position_lex hlt hp
      rw [heq] at hlex
      exact absurd hlex (by simp [Prod.lex_def])

/-- A newline is the last item of its line; and behind the last of all, where the source ends, there
    is a line of its own. -/
theorem position_newlines_trailing :
    let source : Items := .text #['a', '\n', 'b', '\n']
    (ofItems source).position 1 = (1, 2) ∧ (ofItems source).position 9 = (3, 1) ∧
      Prod.Lex (· < ·) (· < ·) ((ofItems source).position (1 : Nat))
        ((ofItems source).position (2 : Nat)) ∧
      (ofItems source).position (1 : Nat) ≠ (ofItems source).position (2 : Nat) := by
  intro source
  obtain ⟨-, hinjective, hgrows⟩ := position_newlines source
  refine ⟨by cbv, by cbv, hgrows 1 2 (by decide) (by decide), fun heq => ?_⟩
  exact absurd (hinjective 1 2 (by decide) (by decide) heq) (by decide)

end LineTable

end Itemwise
