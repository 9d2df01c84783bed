import Itemwise.Slice
import Mathlib.Data.List.Sort

namespace Itemwise

/-!
# The positions of a slice

A slice counts its positions off from its start.  Here they are told by what they have in common:
they lie between the bounds, and a whole number of steps from the start.

* `Slice.fromEnd` — what a bound means;
* `Slice.isAhead`, `Slice.isBehind` — whether a slice picks a position, when it goes forwards or
  backwards;
* `Slice.chosen` — the positions that it picks;
* `Slice.positions_eq_chosen` — these are the ones that are counted off.
-/

namespace Slice

/-- What a possibly negative bound means in a sequence of `size` items. -/
def fromEnd (size : Nat) (i : Int) : Int := if i < 0 then i + size else i

/-- Whether a slice with a positive step picks a position: not before its start or the first
    position, before the stop if there is one, and a whole number of steps away. -/
def isAhead (size : Nat) (start stop : Option Int) (step : Int) (i : Nat) : Bool :=
  let first := max 0 ((start.map (fromEnd size)).getD 0)
  decide (first ≤ i ∧ step ∣ i - first) && stop.all fun b => decide (i < fromEnd size b)

/-- Whether a slice with a negative step picks a position: not above its start or the last position,
    above the stop if there is one, and a whole number of steps away. -/
def isBehind (size : Nat) (start stop : Option Int) (step : Int) (i : Nat) : Bool :=
  let last := min (size - 1 : Int) ((start.map (fromEnd size)).getD (size - 1))
  decide (i ≤ last ∧ step ∣ last - i) && stop.all fun b => decide (fromEnd size b < i)

/-- The positions of a sequence that a slice picks: in descending order if its step is negative. -/
def chosen (size : Nat) (start stop : Option Int) (step : Int) : List Nat :=
  if 0 < step then (List.range size).filter (isAhead size start stop step)
  else ((List.range size).filter (isBehind size start stop step)).reverse

variable {size : Nat} {start stop : Option Int} {a b step : Int}

/-! ### Counting off -/

/-- So many steps are taken from `a` as stay below `b`. -/
theorem lt_count_iff (hstep : 0 < step) (k : Nat) :
    k < ((b - a + step - 1) / step).toNat ↔ a + k * step < b := by
  rw [Int.lt_toNat, Int.lt_iff_add_one_le, Int.le_ediv_iff_mul_le hstep, Int.add_mul, Int.one_mul]
  omega

/-- The positions that are counted off upwards, from one that is not negative. -/
def upwards (a b step : Int) : List Nat :=
  (List.range ((b - a + step - 1) / step).toNat).map fun (k : Nat) => (a + k * step).toNat

/-- The positions that are counted off downwards, as long as they are above `b`. -/
def downwards (a b step : Int) : List Nat :=
  (List.range ((a - b - step - 1) / (-step)).toNat).map fun (k : Nat) => (a + k * step).toNat

/-- Going up in steps leads to the numbers that differ from the first by steps. -/
theorem mem_upwards (hstep : 0 < step) (ha : 0 ≤ a) (i : Nat) :
    i ∈ upwards a b step ↔ a ≤ i ∧ i < b ∧ step ∣ i - a := by
  simp only [upwards, List.mem_map, List.mem_range, lt_count_iff hstep]
  constructor
  · rintro ⟨k, hk, rfl⟩
    have hnonneg : 0 ≤ (k : Int) * step := Int.mul_nonneg (by omega) hstep.le
    rw [Int.toNat_of_nonneg (by omega)]
    exact ⟨by omega, hk, k, by rw [Int.mul_comm]; omega⟩
  · rintro ⟨hai, hib, k, hk⟩
    have hpos : 0 ≤ k := by
      by_contra hneg
      have := Int.mul_neg_of_pos_of_neg hstep (Int.not_le.mp hneg)
      omega
    lift k to Nat using hpos
    rw [Int.mul_comm] at hk
    exact ⟨k, by omega, by omega⟩

/-- Going up leads to each number once, in order. -/
theorem pairwise_upwards (hstep : 0 < step) (ha : 0 ≤ a) : (upwards a b step).Pairwise (· < ·) := by
  refine List.pairwise_map.mpr (List.pairwise_lt_range.imp fun {j k} hjk => ?_)
  have hlt : (j : Int) * step < k * step := Int.mul_lt_mul_of_pos_right (by omega) hstep
  have hnonneg : 0 ≤ (j : Int) * step := Int.mul_nonneg (by omega) hstep.le
  omega

/-- So many steps are taken down from `a` as stay above `b`. -/
theorem lt_countdown_iff (hstep : step < 0) (k : Nat) :
    k < ((a - b - step - 1) / (-step)).toNat ↔ b < a + k * step := by
  have h := lt_count_iff (a := b) (b := a) (Int.neg_pos_of_neg hstep) k
  rw [Int.mul_neg] at h
  rw [show a - b - step - 1 = a - b + -step - 1 by omega, h]
  omega

/-- Going down in steps leads to the numbers that differ from the first by steps. -/
theorem mem_downwards (hstep : step < 0) (hb : -1 ≤ b) (i : Nat) :
    i ∈ downwards a b step ↔ i ≤ a ∧ b < i ∧ step ∣ a - i := by
  simp only [downwards, List.mem_map, List.mem_range, lt_countdown_iff hstep]
  constructor
  · rintro ⟨k, hk, rfl⟩
    have hnonpos : (k : Int) * step ≤ 0 := Int.mul_nonpos_of_nonneg_of_nonpos (by omega) hstep.le
    rw [Int.toNat_of_nonneg (by omega)]
    exact ⟨by omega, hk, -k, by rw [Int.mul_neg, Int.mul_comm]; omega⟩
  · rintro ⟨hia, hbi, k, hk⟩
    have hneg : k ≤ 0 := by
      by_contra hpos
      have := Int.mul_neg_of_neg_of_pos hstep (Int.not_le.mp hpos)
      omega
    obtain ⟨k, rfl⟩ : ∃ m : Nat, k = -m := ⟨k.natAbs, by omega⟩
    rw [Int.mul_neg, Int.mul_comm] at hk
    exact ⟨k, by omega, by omega⟩

/-- Going down leads to each number once, in order. -/
theorem pairwise_downwards (hstep : step < 0) (hb : -1 ≤ b) :
    (downwards a b step).Pairwise (· > ·) := by
  refine List.pairwise_map.mpr (List.pairwise_lt_range.imp_of_mem fun {j k} _ hk hjk => ?_)
  have habove : b < a + k * step := (lt_countdown_iff hstep k).mp (List.mem_range.mp hk)
  have hlt : (k : Int) * step < j * step := Int.mul_lt_mul_of_neg_right (by omega) hstep
  show (a + k * step).toNat < (a + j * step).toNat
  omega

/-! ### The bounds -/

/-- A bound is counted from the front, and moved to the nearest end if it is out of range. -/
theorem clamp_some (size : Nat) (low high default i : Int) :
    clamp size low high default (some i) = max low (min high (fromEnd size i)) := rfl

/-- With a positive step, the positions go up between the bounds. -/
theorem positions_of_pos (hstep : 0 < step) :
    positions size start stop step = upwards (clamp size 0 size 0 start)
      (clamp size 0 size size stop) step := if_pos hstep

/-- With a negative step, the positions go down between the bounds. -/
theorem positions_of_neg (hstep : step < 0) : positions size start stop step =
    downwards (clamp size (-1) (size - 1) (size - 1) start)
      (clamp size (-1) (size - 1) (-1) stop) step := by
  rw [positions, if_neg (by omega), if_pos hstep]
  rfl

/-- The positions that a slice with a positive step has, each told on its own. -/
theorem isAhead_iff (i : Nat) : (i < size ∧ isAhead size start stop step i = true) ↔
    clamp size 0 size 0 start ≤ i ∧ i < clamp size 0 size size stop ∧
      step ∣ i - clamp size 0 size 0 start := by
  have hstop : i < clamp size 0 size size stop ↔ i < size ∧
      (stop.all fun b => decide (i < fromEnd size b)) = true := by
    cases stop with
    | none => simp [clamp]
    | some b =>
      rw [clamp_some, Option.all_some, decide_eq_true_eq]
      omega
  have hstart : clamp size 0 size 0 start =
      min (size : Int) (max 0 ((start.map (fromEnd size)).getD 0)) := by
    cases start with
    | none => exact (Int.min_eq_right (Int.natCast_nonneg size)).symm
    | some b =>
      rw [clamp_some, Option.map_some, Option.getD_some]
      omega
  simp only [isAhead, Bool.and_eq_true, decide_eq_true_eq, hstop, hstart]
  generalize max 0 ((start.map (fromEnd size)).getD 0) = first
  constructor
  · rintro ⟨hi, ⟨hfirst, hdvd⟩, hall⟩
    rw [Int.min_eq_right (by omega)]
    exact ⟨hfirst, ⟨hi, hall⟩, hdvd⟩
  · rintro ⟨hfirst, ⟨hi, hall⟩, hdvd⟩
    rw [Int.min_eq_right (by omega)] at hdvd
    exact ⟨hi, ⟨by omega, hdvd⟩, hall⟩

/-- The positions that a slice with a negative step has, each told on its own. -/
theorem isBehind_iff (i : Nat) : (i < size ∧ isBehind size start stop step i = true) ↔
    i ≤ clamp size (-1) (size - 1) (size - 1) start ∧ clamp size (-1) (size - 1) (-1) stop < i ∧
      step ∣ clamp size (-1) (size - 1) (size - 1) start - i := by
  have hstop (hi : i < size) :
      clamp size (-1) (size - 1) (-1) stop < i ↔
        (stop.all fun b => decide (fromEnd size b < i)) = true := by
    cases stop with
    | none =>
      rw [clamp, Option.all_none]
      simp only [iff_true]
      omega
    | some b =>
      rw [clamp_some, Option.all_some, decide_eq_true_eq]
      omega
  have hstart : clamp size (-1) (size - 1) (size - 1) start =
      max (-1) (min (size - 1 : Int) ((start.map (fromEnd size)).getD (size - 1))) := by
    cases start with
    | none =>
      rw [clamp, Option.map_none, Option.getD_none]
      omega
    | some b => rw [clamp_some, Option.map_some, Option.getD_some]
  have hlast : min (size - 1 : Int) ((start.map (fromEnd size)).getD (size - 1)) ≤ size - 1 :=
    Int.min_le_left _ _
  simp only [isBehind, Bool.and_eq_true, decide_eq_true_eq, hstart]
  generalize min (size - 1 : Int) ((start.map (fromEnd size)).getD (size - 1)) = last at hlast
  constructor
  · rintro ⟨hi, ⟨hle, hdvd⟩, hall⟩
    rw [Int.max_eq_right (by omega)]
    exact ⟨hle, (hstop hi).mpr hall, hdvd⟩
  · rintro ⟨hle, hbelow, hdvd⟩
    have hi : i < size := by omega
    rw [Int.max_eq_right (by omega)] at hdvd
    exact ⟨hi, ⟨by omega, hdvd⟩, (hstop hi).mp hbelow⟩

/-- **Slices.** The positions that a slice counts off are those of the sequence that lie between its
    bounds, a whole number of steps from the first of them, in their order or, for a negative step,
    in the reverse order. -/
theorem positions_eq_chosen (hstep : step ≠ 0) :
    positions size start stop step = chosen size start stop step := by
  rcases Int.lt_or_gt_of_ne hstep with hneg | hpos
  · rw [positions_of_neg hneg, chosen, if_neg (by omega)]
    have hb : -1 ≤ clamp size (-1) (size - 1) (-1) stop := by
      cases stop <;> simp only [clamp] <;> omega
    have hdescending : ((List.range size).filter (isBehind size start stop step)).reverse.Pairwise
        (· > ·) :=
      List.pairwise_reverse.mpr (List.pairwise_lt_range.filter _)
    refine (pairwise_downwards hneg hb).eq_of_mem_iff hdescending fun i => ?_
    rw [mem_downwards hneg hb, List.mem_reverse, List.mem_filter, List.mem_range, isBehind_iff]
  · rw [positions_of_pos hpos, chosen, if_pos hpos]
    have ha : 0 ≤ clamp size 0 size 0 start := by
      cases start <;> simp only [clamp] <;> omega
    refine (pairwise_upwards hpos ha).eq_of_mem_iff (List.pairwise_lt_range.filter _) fun i => ?_
    rw [mem_upwards hpos ha, List.mem_filter, List.mem_range, isAhead_iff]

end Slice

end Itemwise
