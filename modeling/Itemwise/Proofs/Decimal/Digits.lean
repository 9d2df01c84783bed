import Itemwise.Decimal.Digits

namespace Itemwise.Decimal

/-!
# Numbers and their digits

Writing a number in decimal digits and reading digits as a number undo each other, up to zeros in
front.

* `toNat_ofNat` — a number is read back from its digits;
* `length_ofNat_le` — a number that can be written has no more digits than that;
* `toNat_zeros_append` — zeros in front do not count;
* `ofNat_append_eq` — digits after those of a positive number are the digits of the number that they
  go on to;
* `ofNat_toNat` — digits that do not start with a zero are those of the number that they denote;
* `toNat_eq_zero` — digits that denote zero are all zeros.
-/

/-- Digits are those of the library. -/
theorem isDigit_eq (c : Char) : isDigit c = c.isDigit := rfl

/-- Where the digits stand among the characters. -/
theorem toNat_bounds {c : Char} (h : c.isDigit = true) : 48 ≤ c.toNat ∧ c.toNat ≤ 57 := by
  simp only [Char.isDigit, ge_iff_le, UInt32.le_iff_toNat_le, Bool.and_eq_true,
    decide_eq_true_eq] at h
  exact h

/-- A digit is the one of its value. -/
theorem digitChar_toNat {c : Char} (h : c.isDigit = true) :
    Nat.digitChar (c.toNat - '0'.toNat) = c := by
  obtain ⟨hlow, hhigh⟩ := toNat_bounds h
  have hzero : '0'.toNat = 48 := rfl
  apply Char.toNat_inj.mp
  rw [hzero, Nat.toNat_digitChar_of_lt_ten (by omega)]
  omega

/-- Without digits, the number stays what it is. -/
theorem toNatFrom_nil (acc : Nat) : toNatFrom acc [] = acc := rfl

/-- Reading digits is what the library has for it. -/
theorem toNatFrom_eq (acc : Nat) (ds : List Char) :
    toNatFrom acc ds = Nat.ofDigitChars 10 ds acc := by
  have hstep : (fun n c => n * 10 + (c.toNat - '0'.toNat) : Nat → Char → Nat) =
      fun n c => 10 * n + (c.toNat - '0'.toNat) := by
    funext n c
    rw [Nat.mul_comm]
  rw [Nat.ofDigitChars_eq_foldl, toNatFrom, hstep]

/-! ### Digits of a number -/

/-- **A number is read back from its digits.** -/
theorem toNat_ofNat (n : Nat) : toNat (ofNat n) = n := by
  rw [toNat, toNatFrom_eq]
  exact Nat.ofDigitChars_ten_toDigits

/-- Every number has a digit. -/
theorem ofNat_ne_nil (n : Nat) : ofNat n ≠ [] := Nat.toDigits_ne_nil

/-- A number is written in digits only. -/
theorem isDigit_of_mem_ofNat {n : Nat} {c : Char} (h : c ∈ ofNat n) : c.isDigit = true :=
  Nat.isDigit_of_mem_toDigits (by decide) (by decide) h

/-- Zero is written as one digit. -/
theorem ofNat_zero : ofNat 0 = ['0'] := Nat.toDigits_zero 10

/-- So is every number below ten. -/
theorem ofNat_of_lt {n : Nat} (h : n < 10) : ofNat n = [n.digitChar] := Nat.toDigits_of_lt_base h

/-- A number within the limit has no more digits than that. -/
theorem length_ofNat_le {n : Int} (hn : isWithinLimit n = true) :
    (ofNat n.natAbs).length ≤ digitLimit := by
  have hpos : 0 < digitLimit := by decide
  unfold isWithinLimit limit at hn
  -- the power is not to be evaluated
  generalize digitLimit = k at hpos hn ⊢
  exact (Nat.length_toDigits_le_iff (by decide) hpos).mpr (of_decide_eq_true hn)

/-- A small number has few digits. -/
theorem isWithinLimit_of_le {n : Int} (h : n.natAbs ≤ 10000) : isWithinLimit n = true := by
  have hfive : 5 ≤ digitLimit := by decide
  unfold isWithinLimit limit
  generalize digitLimit = k at hfive ⊢
  have hpow : 10 ^ 5 ≤ Nat.pow 10 k := Nat.pow_le_pow_right (by decide) hfive
  exact decide_eq_true (by omega)

/-- The digits of a positive number do not start with a zero. -/
theorem head?_ofNat_ne {n : Nat} (hn : 0 < n) : (ofNat n).head? ≠ some '0' := by
  -- by induction on the number: its digits are those of a tenth of it and one more
  induction n using Nat.strongRecOn with
  | ind n ih =>
    by_cases hlt : n < 10
    · rw [ofNat_of_lt hlt, List.head?_cons]
      intro hzero
      have hdigit := Nat.digitChar_eq_zero.mp (Option.some.inj hzero)
      omega
    · have hsplit : ofNat n = ofNat (n / 10) ++ [(n % 10).digitChar] := by
        unfold ofNat
        rw [Nat.toDigits_eq_if (by decide), if_neg hlt]
      have hfirst : (ofNat n).head? = (ofNat (n / 10)).head? := by
        rw [hsplit]
        cases hd : ofNat (n / 10) with
        | nil => exact absurd hd (ofNat_ne_nil _)
        | cons d ds => rfl
      rw [hfirst]
      exact ih (n / 10) (by omega) (by omega)

/-! ### Zeros in front -/

/-- Zeros in front do not change a number. -/
theorem toNat_zeros_append (zeros : Nat) (ds : List Char) :
    toNat (List.replicate zeros '0' ++ ds) = toNat ds := by
  induction zeros with
  | zero => rfl
  | succ zeros ih => exact ih

/-- A number with zeros in front is still made of digits. -/
theorem isDigit_of_mem_zeros_append {zeros n : Nat} {c : Char}
    (h : c ∈ List.replicate zeros '0' ++ ofNat n) :
    c.isDigit = true := by
  rcases List.mem_append.mp h with hzero | hdigit
  · rw [List.eq_of_mem_replicate hzero]
    rfl
  · exact isDigit_of_mem_ofNat hdigit

/-! ### Numbers of digits -/

/-- Digits after those of a positive number are the digits of the number that they go on to. -/
theorem ofNat_append_eq {acc : Nat} (hacc : 0 < acc) {ds : List Char}
    (hds : ∀ c ∈ ds, c.isDigit = true) :
    ofNat acc ++ ds = ofNat (toNatFrom acc ds) := by
  induction ds generalizing acc with
  | nil => rw [List.append_nil, toNatFrom_nil]
  | cons c ds ih =>
    have hc := hds c (by simp)
    obtain ⟨hlow, hhigh⟩ := toNat_bounds hc
    have hzero : '0'.toNat = 48 := rfl
    have hlt : c.toNat - '0'.toNat < 10 := by omega
    have hone : ofNat acc ++ [c] = ofNat (acc * 10 + (c.toNat - '0'.toNat)) := by
      have hdigits := Nat.toDigits_append_toDigits (by decide) hacc hlt
      rwa [Nat.toDigits_of_lt_base hlt, digitChar_toNat hc, Nat.mul_comm] at hdigits
    calc ofNat acc ++ c :: ds = (ofNat acc ++ [c]) ++ ds := by simp
      _ = ofNat (acc * 10 + (c.toNat - '0'.toNat)) ++ ds := by rw [hone]
      _ = ofNat (toNatFrom acc (c :: ds)) := ih (by omega) fun d hd => hds d (by simp [hd])

/-- **Digits that do not start with a zero are those of the number that they denote.** -/
theorem ofNat_toNat {ds : List Char} (hne : ds ≠ []) (hds : ∀ c ∈ ds, c.isDigit = true)
    (hhead : ds.head? ≠ some '0') : ofNat (toNat ds) = ds := by
  cases ds with
  | nil => contradiction
  | cons c ds =>
    have hc := hds c (by simp)
    obtain ⟨hlow, hhigh⟩ := toNat_bounds hc
    have hzero : '0'.toNat = 48 := rfl
    have hpos : 0 < c.toNat - '0'.toNat := by
      have hne : c.toNat ≠ '0'.toNat := fun heq => hhead (congrArg some (Char.toNat_inj.mp heq))
      omega
    have hfirst : ofNat (c.toNat - '0'.toNat) = [c] := by
      rw [ofNat_of_lt (by omega), digitChar_toNat hc]
    have happend := ofNat_append_eq hpos fun d hd => hds d (List.mem_cons_of_mem c hd)
    rw [hfirst, List.singleton_append] at happend
    calc ofNat (toNat (c :: ds)) = ofNat (toNatFrom (0 * 10 + (c.toNat - '0'.toNat)) ds) := rfl
      _ = ofNat (toNatFrom (c.toNat - '0'.toNat) ds) := by rw [Nat.zero_mul, Nat.zero_add]
      _ = c :: ds := happend.symm

/-- Digits that denote zero are all zeros. -/
theorem toNat_eq_zero {ds : List Char} (hds : ∀ c ∈ ds, c.isDigit = true) :
    toNat ds = 0 ↔ ∀ c ∈ ds, c = '0' := by
  constructor
  · intro h
    induction ds with
    | nil => exact List.forall_mem_nil _
    | cons c ds ih =>
      -- a first digit that is no zero would be the first one of zero
      have hc : c = '0' := by
        refine Decidable.byContradiction fun hne => ?_
        have hdigits := ofNat_toNat (List.cons_ne_nil c ds) hds (by simpa using hne)
        rw [h, ofNat_zero, List.cons.injEq] at hdigits
        exact hne hdigits.1.symm
      subst hc
      exact List.forall_mem_cons.mpr ⟨rfl, ih (fun d hd => hds d (by simp [hd])) h⟩
  · intro h
    induction ds with
    | nil => rfl
    | cons c ds ih =>
      obtain ⟨rfl, hzeros⟩ := List.forall_mem_cons.mp h
      exact ih (fun d hd => hds d (by simp [hd])) hzeros

end Itemwise.Decimal
