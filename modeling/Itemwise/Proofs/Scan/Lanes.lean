import Itemwise.Scan.Finder
import Mathlib.Algebra.Group.Nat.Defs

namespace Itemwise

/-!
# Lanes and masks

What the arithmetic of a word does in each of its lanes, and which bits of a mask it sets.

* `Lanes.bit`, `Lanes.lane` — the bits of a word, and the number in a lane;
* `Lanes.lane_add` — no carry leaves a lane that can hold the sum;
* `Lanes.IsMask` — a mask flags the lanes that pass a test, and sets no other bit;
* `Lanes.isMask_nonzero`, `Lanes.isMask_below`, `Finder.isMask_wordMask`, `Finder.isMask_anyMask` —
  the masks of the tests;
* `Lanes.first_eq` — the first lane of a mask is the lowest one that is flagged.
-/

namespace Lanes

/-! ### Bits -/

/-- Whether a bit of a word is set. -/
def bit (w : UInt64) (i : Nat) : Bool := w.toNat.testBit i

/-- A bit is set in a conjunction if it is in both words. -/
@[simp] theorem bit_and (v w : UInt64) (i : Nat) : bit (v &&& w) i = (bit v i && bit w i) := by
  simp [bit, Nat.testBit_and]

/-- A bit is set in a disjunction if it is in one of them. -/
@[simp] theorem bit_or (v w : UInt64) (i : Nat) : bit (v ||| w) i = (bit v i || bit w i) := by
  simp [bit, Nat.testBit_or]

@[simp] theorem bit_zero (i : Nat) : bit 0 i = false := Nat.zero_testBit i

/-- Within the word, a complement turns every bit around. -/
theorem bit_not (w : UInt64) {i : Nat} (hi : i < 64) : bit (~~~w) i = !bit w i := by
  have hbits : (~~~w).toBitVec.getLsbD i = !w.toBitVec.getLsbD i := by
    rw [UInt64.toBitVec_not, BitVec.getLsbD_not]
    simp [hi]
  exact hbits

/-- Above the word no bit is set. -/
theorem bit_of_le (w : UInt64) {i : Nat} (hi : 64 ≤ i) : bit w i = false :=
  Nat.testBit_lt_two_pow
    (Nat.lt_of_lt_of_le (UInt64.toNat_lt w) (Nat.pow_le_pow_right (by decide) hi))

/-- A word is zero if no bit is set in it. -/
theorem eq_zero_iff (w : UInt64) : w = 0 ↔ ∀ i < 64, bit w i = false := by
  constructor
  · rintro rfl i -
    exact bit_zero i
  · intro h
    refine UInt64.toNat_inj.mp (Nat.eq_of_testBit_eq fun i => ?_)
    rw [UInt64.toNat_zero, Nat.zero_testBit]
    rcases Nat.lt_or_ge i 64 with hi | hi
    · exact h i hi
    · exact bit_of_le w hi

/-! ### Lanes -/

/-- The number in a lane. -/
def lane (w : UInt64) (j : Nat) : Nat := w.toNat / 2 ^ (8 * j) % 2 ^ 8

/-- A lane is an octet. -/
theorem lane_lt (w : UInt64) (j : Nat) : lane w j < 256 := Nat.mod_lt _ (by decide)

/-- It is the octet that is cut out of the word. -/
theorem toNat_byte (w : UInt64) {j : Nat} (hj : j < 8) : (byte w j).toNat = lane w j := by
  have hshift : (8 * j).toUInt64.toNat % 64 = 8 * j := by
    rw [Nat.toUInt64_eq, UInt64.toNat_ofNat']
    omega
  rw [byte, UInt64.toNat_toUInt8, UInt64.toNat_shiftRight, hshift, Nat.shiftRight_eq_div_pow, lane]

/-- The high bit of a lane tells whether half of what it can hold is reached. -/
theorem bit_high (w : UInt64) (j : Nat) : bit w (8 * j + 7) = decide (128 ≤ lane w j) := by
  rw [bit, Nat.testBit_eq_decide_div_mod_eq, Nat.pow_add, ← Nat.div_div_eq_div_mul, lane]
  refine decide_eq_decide.mpr ?_
  generalize w.toNat / 2 ^ (8 * j) = q
  omega

/-- In the mask of high bits the highest bit of each lane is set and no other. -/
theorem bit_highBits {j k : Nat} (hj : j < 8) (hk : k < 8) :
    bit highBits (8 * j + k) = decide (k = 7) := by
  have hall : ∀ j < 8, ∀ k < 8, bit highBits (8 * j + k) = decide (k = 7) := by decide
  exact hall j hj k hk

/-- A conjunction is one of each lane. -/
theorem lane_and (v w : UInt64) (j : Nat) : lane (v &&& w) j = lane v j &&& lane w j := by
  rw [lane, UInt64.toNat_and, Nat.and_div_two_pow, Nat.and_mod_two_pow, lane, lane]

/-- An exclusive disjunction is one of each lane. -/
theorem lane_xor (v w : UInt64) (j : Nat) : lane (v ^^^ w) j = lane v j ^^^ lane w j := by
  rw [lane, UInt64.toNat_xor, Nat.xor_div_two_pow, Nat.xor_mod_two_pow, lane, lane]

/-- It is zero for equal numbers only. -/
theorem xor_eq_zero {m n : Nat} : m ^^^ n = 0 ↔ m = n := by
  constructor
  · intro h
    calc m = m ^^^ n ^^^ n := by rw [Nat.xor_assoc, Nat.xor_self, Nat.xor_zero]
      _ = n := by rw [h, Nat.zero_xor]
  · rintro rfl
    exact Nat.xor_self m

/-- Each lane of the mask of low bits has all but its highest bit set. -/
theorem lane_lowBits {j : Nat} (hj : j < 8) : lane lowBits j = 127 := by
  have hall : ∀ j < 8, lane lowBits j = 127 := by decide
  exact hall j hj

/-- That mask leaves of each lane the remainder by 128. -/
theorem lane_and_lowBits (w : UInt64) {j : Nat} (hj : j < 8) :
    lane (w &&& lowBits) j = lane w j % 128 := by
  rw [lane_and, lane_lowBits hj]
  exact Nat.and_two_pow_sub_one_eq_mod (lane w j) 7

/-- A number times the word of ones is that number in every lane. -/
theorem lane_mul_ones {n : Nat} (hn : n < 256) {j : Nat} (hj : j < 8) :
    lane (n.toUInt64 * ones) j = n := by
  have hword : (n.toUInt64 * ones).toNat = n * ones.toNat := by
    have hones : ones.toNat = 0x0101010101010101 := rfl
    rw [UInt64.toNat_mul, Nat.toUInt64_eq, UInt64.toNat_ofNat', hones]
    omega
  -- a one stands in the lane, and what is below it is small enough not to reach it
  have hsplit : ∀ j < 8, ones.toNat = 2 ^ (8 * j) * (256 * (ones.toNat / 2 ^ (8 * (j + 1))) + 1) +
      ones.toNat % 2 ^ (8 * j) ∧ 255 * (ones.toNat % 2 ^ (8 * j)) < 2 ^ (8 * j) := by decide
  obtain ⟨hones, hbelow⟩ := hsplit j hj
  generalize ones.toNat / 2 ^ (8 * (j + 1)) = above at hones
  generalize ones.toNat % 2 ^ (8 * j) = below at hones hbelow
  have hproduct : n * ones.toNat = 2 ^ (8 * j) * (256 * (n * above) + n) + n * below := by grind
  have hsmall : n * below < 2 ^ (8 * j) :=
    Nat.lt_of_le_of_lt (Nat.mul_le_mul_right below (Nat.le_of_lt_succ hn)) hbelow
  rw [lane, hword, hproduct, Nat.mul_add_div (Nat.two_pow_pos _), Nat.div_eq_of_lt hsmall]
  omega

/-- A word that is filled with an octet has it in each lane. -/
theorem lane_fill (b : UInt8) {j : Nat} (hj : j < 8) : lane (fill b) j = b.toNat := by
  have hb : b.toUInt64 = b.toNat.toUInt64 := by
    refine UInt64.toNat_inj.mp ?_
    rw [UInt8.toNat_toUInt64, Nat.toUInt64_eq, UInt64.toNat_ofNat', Nat.mod_eq_of_lt]
    exact Nat.lt_trans b.toNat_lt (by decide)
  rw [fill, hb, lane_mul_ones b.toNat_lt hj]

/-- **No carry leaves a lane** if every lane can hold the sum of what the two words have in it. -/
theorem lane_add {v w : UInt64} (h : ∀ j < 8, lane v j + lane w j < 256) {j : Nat} (hj : j < 8) :
    lane (v + w) j = lane v j + lane w j := by
  -- what is below a lane does not carry into it
  have hbelow : ∀ j ≤ 8, v.toNat % 2 ^ (8 * j) + w.toNat % 2 ^ (8 * j) < 2 ^ (8 * j) := by
    intro j hj
    induction j with
    | zero => simp [Nat.mod_one]
    | succ j ih =>
      have hlow := ih (by omega)
      have hlane := h j (by omega)
      have hpow : 2 ^ (8 * (j + 1)) = 2 ^ (8 * j) * 2 ^ 8 := by rw [Nat.mul_succ, Nat.pow_add]
      have htop : 2 ^ (8 * j) * (lane v j + lane w j) + 2 ^ (8 * j) ≤ 2 ^ (8 * j) * 2 ^ 8 := by
        rw [← Nat.mul_succ]
        exact Nat.mul_le_mul_left _ (Nat.succ_le_of_lt hlane)
      rw [hpow, Nat.mod_mul, Nat.mod_mul]
      simp only [lane] at htop
      rw [Nat.mul_add] at htop
      omega
  have hsum : (v + w).toNat = v.toNat + w.toNat := by
    have htotal := hbelow 8 (Nat.le_refl 8)
    have hv := v.toNat_lt
    have hw := w.toNat_lt
    rw [UInt64.toNat_add]
    omega
  have hcarry := hbelow j (Nat.le_of_lt hj)
  have hlane : lane v j + lane w j < 2 ^ 8 := h j hj
  simp only [lane] at hlane ⊢
  rw [hsum, Nat.add_div (Nat.two_pow_pos _), if_neg (Nat.not_le.mpr hcarry),
    Nat.add_zero, Nat.add_mod]
  exact Nat.mod_eq_of_lt hlane

/-- Adding a number of at most 128 to the low bits of every lane reaches the high bit where they are
    large enough. -/
theorem bit_add_low (w : UInt64) {n : Nat} (hn : n ≤ 128) {j : Nat} (hj : j < 8) :
    bit ((w &&& lowBits) + n.toUInt64 * ones) (8 * j + 7) = decide (128 ≤ lane w j % 128 + n) := by
  have hsum : ∀ j < 8, lane (w &&& lowBits) j + lane (n.toUInt64 * ones) j < 256 := by
    intro j hj
    rw [lane_and_lowBits w hj, lane_mul_ones (by omega) hj]
    omega
  rw [bit_high, lane_add hsum hj, lane_and_lowBits w hj, lane_mul_ones (by omega) hj]

/-! ### Masks -/

/-- A mask has the high bits of the lanes that pass a test, and no other bit. -/
def IsMask (p : Nat → Bool) (m : UInt64) : Prop :=
  ∀ j < 8, ∀ k < 8, bit m (8 * j + k) = (decide (k = 7) && p j)

/-- What is cut down to the high bits is a mask. -/
theorem isMask_and_highBits {p : Nat → Bool} {w : UInt64} (h : ∀ j < 8, bit w (8 * j + 7) = p j) :
    IsMask p (w &&& highBits) := by
  intro j hj k hk
  rw [bit_and, bit_highBits hj hk]
  by_cases hk7 : k = 7
  · subst hk7
    simp [h j hj]
  · simp [hk7]

/-- A mask for a predicate is one for any other that says the same of the eight lanes. -/
theorem IsMask.congr {p q : Nat → Bool} {m : UInt64} (h : IsMask p m) (hpq : ∀ j < 8, p j = q j) :
    IsMask q m := by
  intro j hj k hk
  rw [h j hj k hk, hpq j hj]

/-- Zero is the mask for no lanes at all. -/
theorem isMask_zero : IsMask (fun _ => false) 0 := by
  intro j _ k _
  simp

/-- The complement among the high bits is the mask for the other lanes. -/
theorem IsMask.not {p : Nat → Bool} {m : UInt64} (h : IsMask p m) :
    IsMask (fun j => !p j) (~~~m &&& highBits) :=
  isMask_and_highBits fun j hj => by rw [bit_not m (by omega), h j hj 7 (by decide)]; simp

/-- A disjunction is the mask for the lanes of both. -/
theorem IsMask.or {p q : Nat → Bool} {m m' : UInt64} (h : IsMask p m) (h' : IsMask q m') :
    IsMask (fun j => p j || q j) (m ||| m') := by
  intro j hj k hk
  rw [bit_or, h j hj k hk, h' j hj k hk, Bool.and_or_distrib_left]

/-- The lanes that are not zero. -/
theorem isMask_nonzero (w : UInt64) : IsMask (fun j => decide (lane w j ≠ 0)) (nonzero w) := by
  refine isMask_and_highBits fun j hj => ?_
  -- the low bits of a lane pass 127 just in case one of them is set
  have hlow : lowBits = (127 : Nat).toUInt64 * ones := by decide
  have hsum : bit ((w &&& lowBits) + lowBits) (8 * j + 7) = decide (128 ≤ lane w j % 128 + 127) :=
    hlow ▸ bit_add_low w (n := 127) (by decide) hj
  have hlane := lane_lt w j
  rw [bit_or, hsum, bit_high, ← Bool.decide_or]
  refine decide_eq_decide.mpr ?_
  omega

/-- The lanes below a bound. -/
theorem isMask_below (w : UInt64) {bound : Nat} (hbound : bound ≤ 256) :
    IsMask (fun j => decide (lane w j < bound)) (below w bound) := by
  unfold below
  split
  · next hzero =>
    refine isMask_zero.congr fun j _ => ?_
    simp [hzero]
  · split
    · next hsmall =>
      refine isMask_and_highBits fun j hj => ?_
      have hlane := lane_lt w j
      rw [bit_not _ (by omega), bit_or, bit_high, bit_add_low w (by omega) hj,
        ← Bool.decide_or, ← decide_not]
      refine decide_eq_decide.mpr ?_
      omega
    · next hlarge =>
      refine isMask_and_highBits fun j hj => ?_
      have hlane := lane_lt w j
      rw [bit_not _ (by omega), bit_and, bit_high, bit_add_low w (by omega) hj,
        ← Bool.decide_and, ← decide_not]
      refine decide_eq_decide.mpr ?_
      omega

/-- No lane of an empty mask passes. -/
theorem IsMask.eq_zero_iff {p : Nat → Bool} {m : UInt64} (h : IsMask p m) :
    m = 0 ↔ ∀ j < 8, p j = false := by
  rw [Lanes.eq_zero_iff]
  constructor
  · intro hzero j hj
    simpa using (h j hj 7 (by decide)).symm.trans (hzero (8 * j + 7) (by omega))
  · intro hnone i hi
    have hbit := h (i / 8) (by omega) (i % 8) (by omega)
    rwa [Nat.div_add_mod, hnone (i / 8) (by omega), Bool.and_false] at hbit

/-! ### The first lane -/

/-- The bits of a number that is less by one, where a bit is the lowest one that is set. -/
theorem testBit_pred {n k : Nat} (hk : n.testBit k = true)
    (hlow : ∀ i < k, n.testBit i = false) (i : Nat) :
    (n.testBit i && !(n - 1).testBit i) = decide (k = i) := by
  have hmod : n % 2 ^ (k + 1) = 2 ^ k := by
    refine Nat.eq_of_testBit_eq fun i => ?_
    rw [Nat.testBit_mod_two_pow, Nat.testBit_two_pow]
    rcases Nat.lt_trichotomy i k with hi | rfl | hi
    · simp [hlow i hi, Nat.ne_of_gt hi]
    · simp [hk]
    · simp [show ¬ i < k + 1 by omega, Nat.ne_of_lt hi]
  have hsplit := Nat.div_add_mod n (2 ^ (k + 1))
  have hpow : 2 ^ k < 2 ^ (k + 1) := Nat.pow_lt_pow_right (by decide) (Nat.lt_succ_self k)
  have hpos := Nat.two_pow_pos k
  -- above the bit the two numbers are the same, and below it one has no bits and the other has all
  have hpred : n - 1 = 2 ^ (k + 1) * (n / 2 ^ (k + 1)) + (2 ^ k - 1) := by omega
  have hbit := Nat.testBit_two_pow_mul_add (n / 2 ^ (k + 1)) hpow i
  rw [← hmod, hsplit, hmod, Nat.testBit_two_pow] at hbit
  have hbit' := Nat.testBit_two_pow_mul_add (n / 2 ^ (k + 1))
    (show 2 ^ k - 1 < 2 ^ (k + 1) by omega) i
  rw [← hpred, Nat.testBit_two_pow_sub_one] at hbit'
  rw [hbit, hbit']
  rcases Nat.lt_trichotomy i k with hi | rfl | hi
  · simp [show i < k + 1 by omega, hi, Nat.ne_of_gt hi]
  · simp
  · simp [show ¬ i < k + 1 by omega, Nat.ne_of_lt hi]

/-- A word and its negation have only its lowest set bit in common. -/
theorem and_neg_eq {w : UInt64} {k : Nat} (hk : bit w k = true) (hlow : ∀ i < k, bit w i = false) :
    (w &&& (0 - w)).toNat = 2 ^ k := by
  have hpos : 0 < w.toNat := by
    rcases Nat.eq_zero_or_pos w.toNat with hzero | hpos
    · rw [bit, hzero, Nat.zero_testBit] at hk
      cases hk
    · exact hpos
  have hlt := w.toNat_lt
  have hneg : (0 - w).toNat = 2 ^ 64 - (w.toNat - 1 + 1) := by
    rw [UInt64.toNat_sub, UInt64.toNat_zero]
    omega
  refine Nat.eq_of_testBit_eq fun i => ?_
  rw [UInt64.toNat_and, Nat.testBit_and, hneg, Nat.testBit_two_pow_sub_succ (by omega),
    Nat.testBit_two_pow, ← testBit_pred hk hlow i]
  rcases Nat.lt_or_ge i 64 with hi | hi
  · simp [hi]
  · have hnone : w.toNat.testBit i = false := bit_of_le w hi
    simp [hnone]

/-- **The first lane of a mask** is the lowest one that passes. -/
theorem first_eq {p : Nat → Bool} {m : UInt64} (h : IsMask p m) {j : Nat} (hj : j < 8)
    (hp : p j = true) (hlow : ∀ i < j, p i = false) : first m = j := by
  have hbit : bit m (8 * j + 7) = true := by rw [h j hj 7 (by decide), hp]; rfl
  have hbelow : ∀ i < 8 * j + 7, bit m i = false := by
    intro i hi
    have hi' := h (i / 8) (by omega) (i % 8) (by omega)
    rw [Nat.div_add_mod] at hi'
    by_cases hsame : i / 8 = j
    · rw [hi', decide_eq_false (by omega), Bool.false_and]
    · rw [hi', hlow (i / 8) (by omega), Bool.and_false]
  rw [first, and_neg_eq hbit hbelow, Nat.log2_two_pow]
  omega

/-! ### The word of some bytes -/

/-- The bits of an octet that is cut out are those of its lane. -/
theorem bit_byte (w : UInt64) {j : Nat} (hj : j < 8) (k : Nat) :
    (byte w j).toNat.testBit k = (decide (k < 8) && bit w (8 * j + k)) := by
  rw [toNat_byte w hj, lane, Nat.testBit_mod_two_pow, Nat.testBit_div_two_pow, Nat.add_comm k, bit]

/-- The bytes of a word of bytes. -/
theorem byte_ofBytes {bs : List UInt8} (hbs : bs.length ≤ 8) {j : Nat} (hj : j < bs.length) :
    byte (ofBytes bs) j = bs[j] := by
  induction bs generalizing j with
  | nil => cases hj
  | cons b bs ih =>
    have hshift : ∀ i, bit (ofBytes bs <<< 8) i =
        (decide (i < 64) && (decide (8 ≤ i) && bit (ofBytes bs) (i - 8))) := by
      intro i
      rw [bit, UInt64.toNat_shiftLeft, Nat.testBit_mod_two_pow, Nat.testBit_shiftLeft]
      rfl
    have hb : ∀ i, bit b.toUInt64 i = b.toNat.testBit i := fun i => rfl
    refine UInt8.toNat_inj.mp (Nat.eq_of_testBit_eq fun k => ?_)
    have hlength : bs.length + 1 ≤ 8 := hbs
    rw [ofBytes, bit_byte _ (by omega), bit_or, hshift, hb]
    cases j with
    | zero =>
      by_cases hk : k < 8
      · simp [hk, show ¬ 8 ≤ k by omega]
      · have hnone : b.toNat.testBit k = false :=
          Nat.testBit_lt_two_pow
            (Nat.lt_of_lt_of_le b.toNat_lt (Nat.pow_le_pow_right (by decide) (Nat.not_lt.mp hk)))
        simp [hk, hnone]
    | succ j =>
      have hj' : j < bs.length := Nat.lt_of_succ_lt_succ hj
      have hrest := bit_byte (ofBytes bs) (show j < 8 by omega) k
      rw [ih (by omega) hj'] at hrest
      have hnone : b.toNat.testBit (8 * (j + 1) + k) = false :=
        Nat.testBit_lt_two_pow
          (Nat.lt_of_lt_of_le b.toNat_lt (Nat.pow_le_pow_right (by decide) (by omega)))
      have hindex : 8 * (j + 1) + k - 8 = 8 * j + k := by omega
      rw [List.getElem_cons_succ, hrest, hnone, hindex]
      by_cases hk : k < 8
      · simp [hk, show 8 * (j + 1) + k < 64 by omega, show 8 ≤ 8 * (j + 1) + k by omega]
      · simp [hk]

end Lanes

namespace Finder

open Lanes

/-- **The mask of a finder** flags the lanes whose byte it accepts. -/
theorem isMask_wordMask (f : Finder) (w : UInt64) :
    IsMask (fun j => f.accepts (Lanes.byte w j).toNat) (f.wordMask w) := by
  obtain ⟨test, b⟩ := f
  have hb : b.toNat < 256 := b.toNat_lt
  have hnonzero : IsMask (fun j => decide (lane w j ≠ b.toNat)) (nonzero (w ^^^ fill b)) := by
    refine (isMask_nonzero _).congr fun j hj => decide_eq_decide.mpr ?_
    rw [lane_xor, lane_fill b hj, Ne, xor_eq_zero]
  cases test with
  | eq =>
    refine hnonzero.not.congr fun j hj => Bool.eq_iff_iff.mpr ?_
    simp only [accepts, toNat_byte w hj, decide_not, Bool.not_not, decide_eq_true_eq, beq_iff_eq]
    omega
  | ne =>
    refine hnonzero.congr fun j hj => Bool.eq_iff_iff.mpr ?_
    simp only [accepts, toNat_byte w hj, decide_eq_true_eq, bne_iff_ne]
    omega
  | lt =>
    refine (isMask_below w (show b.toNat ≤ 256 by omega)).congr fun j hj => Bool.eq_iff_iff.mpr ?_
    simp [accepts, toNat_byte w hj]
  | gt =>
    refine (isMask_below w (show b.toNat + 1 ≤ 256 by omega)).not.congr fun j hj =>
      Bool.eq_iff_iff.mpr ?_
    simp only [accepts, toNat_byte w hj, Bool.not_eq_true', decide_eq_false_iff_not,
      decide_eq_true_eq]
    omega

/-- The mask of some finders flags the lanes whose byte one of them accepts. -/
theorem isMask_anyMask (fs : List Finder) (w : UInt64) :
    IsMask (fun j => anyAccepts fs (Lanes.byte w j).toNat) (anyMask fs w) := by
  have hfold : ∀ (fs : List Finder) (p : Nat → Bool) (m : UInt64), IsMask p m →
      IsMask (fun j => p j || anyAccepts fs (Lanes.byte w j).toNat)
        (fs.foldl (fun mask f => mask ||| f.wordMask w) m) := by
    intro fs
    induction fs with
    | nil => exact fun p m h => h.congr fun j _ => by simp [anyAccepts]
    | cons f fs ih =>
      exact fun p m h => (ih _ _ (h.or (f.isMask_wordMask w))).congr fun j _ => by
        simp [anyAccepts, Bool.or_assoc]
  exact (hfold fs _ 0 isMask_zero).congr fun j _ => by simp

end Finder

end Itemwise
