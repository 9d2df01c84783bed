import Itemwise.Text.Utf16

namespace Itemwise.Utf16

/-!
# What UTF-16 code units denote

* `Denotes` — the text of a sequence of units, by the rules for pairs, for surrogates outside of
  pairs and for all other units;
* `denotes_decode`, `Denotes.eq_decode` — every sequence denotes one text, the one that it is
  decoded to;
* `decode_flatMap_ofCode` — the units of characters denote these characters.
-/

/-- The text that a sequence of units denotes: a high unit right before a low one makes a character
    with it, any other surrogate reads as the replacement character, and any other unit is a
    character. -/
inductive Denotes : List Nat → List Char → Prop
  | nil : Denotes [] []
  | pair {u v : Nat} {us : List Nat} {cs : List Char} :
    isHigh u = true → isLow v = true → Denotes us cs →
    Denotes (u :: v :: us) (join u v :: cs)
  | lone {u : Nat} {us : List Nat} {cs : List Char} : isSurrogate u = true →
    (isHigh u = true → ∀ v ∈ us.head?, isLow v = false) → Denotes us cs →
      Denotes (u :: us) (replacement :: cs)
  | single {u : Nat} {us : List Nat} {cs : List Char} : isSurrogate u = false → Denotes us cs →
    Denotes (u :: us) (Char.ofNat u :: cs)

/-! ### Decoding, by the first unit -/

/-- A unit that is no surrogate is a character of its own. -/
theorem decode_single {u : Nat} (h : isSurrogate u = false) (us : List Nat) :
    decode (u :: us) = Char.ofNat u :: decode us := by
  obtain ⟨hhigh, hlow⟩ := Bool.or_eq_false_iff.mp h
  cases us with
  | nil => simp [decode, hhigh, hlow]
  | cons v us => simp [decode, hhigh, hlow]

/-- A surrogate that has no other half is replaced. -/
theorem decode_lone {u : Nat} {us : List Nat} (h : isSurrogate u = true)
    (hnext : isHigh u = true → ∀ v ∈ us.head?, isLow v = false) :
    decode (u :: us) = replacement :: decode us := by
  rw [isSurrogate] at h
  cases us with
  | nil => simp [decode, h]
  | cons v us =>
    have hpair : (isHigh u && isLow v) = false := by
      cases hhigh : isHigh u with
      | false => rfl
      | true => exact hnext hhigh v rfl
    simp [decode, h, hpair]

/-- Two halves are joined. -/
theorem decode_pair {u v : Nat} (hu : isHigh u = true) (hv : isLow v = true) (us : List Nat) :
    decode (u :: v :: us) = join u v :: decode us := by
  simp [decode, hu, hv]

/-- A sequence of units denotes what it is decoded to. -/
theorem denotes_decode (us : List Nat) : Denotes us (decode us) := by
  induction hn : us.length using Nat.strongRecOn generalizing us with
  | ind n ih =>
    subst hn
    cases us with
    | nil => exact .nil
    | cons u us =>
      have hrest : Denotes us (decode us) := ih _ (Nat.lt_succ_self _) us rfl
      cases h : isSurrogate u with
      | false =>
        rw [decode_single h]
        exact .single h hrest
      | true =>
        -- A surrogate is one of a pair if it is high and the next unit is low.
        by_cases hpair : isHigh u = true ∧ ∃ v ∈ us.head?, isLow v = true
        · obtain ⟨hu, v, hv, hlow⟩ := hpair
          obtain ⟨us, rfl⟩ := List.head?_eq_some_iff.mp hv
          rw [decode_pair hu hlow]
          exact .pair hu hlow (ih _ (by simp only [List.length_cons]; omega) us rfl)
        · have hnext : isHigh u = true → ∀ v ∈ us.head?, isLow v = false := by
            intro hu v hv
            exact Bool.eq_false_iff.mpr fun hlow => hpair ⟨hu, v, hv, hlow⟩
          rw [decode_lone h hnext]
          exact .lone h hnext hrest

/-- A sequence of units denotes nothing else. -/
theorem Denotes.eq_decode {us : List Nat} {cs : List Char} (h : Denotes us cs) :
    cs = decode us := by
  induction h with
  | nil => rfl
  | pair hu hv _ ih => rw [decode_pair hu hv, ih]
  | lone hu hnext _ ih => rw [decode_lone hu hnext, ih]
  | single hu _ ih => rw [decode_single hu, ih]

/-! ### The units of characters -/

/-- A code below 2^16 is one unit. -/
theorem ofCode_of_lt {n : Nat} (h : n < 0x10000) : ofCode n = [n] := if_pos h

/-- The surrogates are the units between two bounds. -/
theorem isSurrogate_eq_false_iff {n : Nat} : isSurrogate n = false ↔ n < 0xd800 ∨ 0xdfff < n := by
  simp only [isSurrogate, isHigh, isLow, Bool.or_eq_false_iff, Bool.and_eq_false_iff,
    decide_eq_false_iff_not]
  omega

/-- The halves of a character beyond the basic plane make it. -/
theorem join_ofCode {n : Nat} (h : 0x10000 ≤ n) :
    join (0xd800 + (n - 0x10000) / 0x400) (0xdc00 + (n - 0x10000) % 0x400) = Char.ofNat n := by
  have hcode : 0x10000 + (0xd800 + (n - 0x10000) / 0x400 - 0xd800) * 0x400 +
      (0xdc00 + (n - 0x10000) % 0x400 - 0xdc00) = n := by omega
  rw [join, hcode]

/-- The units of a character denote it. -/
theorem decode_ofCode_append {n : Nat} (h : n.isValidChar) (us : List Nat) :
    decode (ofCode n ++ us) = Char.ofNat n :: decode us := by
  by_cases hn : n < 0x10000
  · have hsingle : isSurrogate n = false := by
      rw [isSurrogate_eq_false_iff]
      exact h.imp_right And.left
    rw [ofCode_of_lt hn]
    exact decode_single hsingle us
  · have hbound : n < 0x110000 := by
      unfold Nat.isValidChar at h
      omega
    have hhigh : isHigh (0xd800 + (n - 0x10000) / 0x400) = true := by
      simp only [isHigh, Bool.and_eq_true, decide_eq_true_eq]
      omega
    have hlow : isLow (0xdc00 + (n - 0x10000) % 0x400) = true := by
      simp only [isLow, Bool.and_eq_true, decide_eq_true_eq]
      omega
    rw [ofCode, if_neg hn, ← join_ofCode (by omega)]
    exact decode_pair hhigh hlow us

/-- The units of characters are decoded to these characters. -/
theorem decode_flatMap_ofCode {ns : List Nat} (h : ∀ n ∈ ns, n.isValidChar) :
    decode (ns.flatMap ofCode) = ns.map Char.ofNat := by
  induction ns with
  | nil => rfl
  | cons n ns ih =>
    rw [List.flatMap_cons, decode_ofCode_append (h n (List.mem_cons_self ..)),
      ih fun m hm => h m (List.mem_cons_of_mem _ hm), List.map_cons]

end Itemwise.Utf16
