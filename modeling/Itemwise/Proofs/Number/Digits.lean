import Itemwise.Leaf.Number
import Itemwise.Proofs.Decimal.Digits
import Mathlib.Data.List.Forall2

namespace Itemwise

/-!
# Numerals among items

A character of a number may be given as a character, as its code, or as a single byte.

* `Value.IsItemOf` — the items of a code, with `Value.isMember_forms_iff`: an item of some code is a
  form of a character if and only if the code is that of the character;
* `Spelled`, `Items.OfCodes` — items that spell a text, and inputs that are made of items of codes;
* `DigitRun` — the digits that some items begin with, as many as there are, and what is left:
  `exists_digitRun`, `digitRun_of_spelled`;
* `Sign` — the minus sign that may come before them;
* `Leaf.digitRun_eq`, `Leaf.numeral?_eq` — what is read of a number are its sign and its digits,
  however they are given.

What counts as a minus sign is a parameter of `Sign`: items are compared as they are in the user
state.
-/

namespace Value

/-- The items of a code: the code itself, a single character, and a single byte. -/
inductive IsItemOf : Int → Value → Prop
  | code (n : Int) : IsItemOf n (.int n)
  | char (c : Char) : IsItemOf c.toNat (.ofChar c)
  | octet (b : UInt8) : IsItemOf b.toNat (.octets .fixed [b])

/-- An item that is a digit. -/
def IsDigit (v : Value) : Prop := ∃ c : Char, c.isDigit = true ∧ IsItemOf c.toNat v

/-- An item has one code. -/
theorem IsItemOf.unique {m n : Int} {v : Value} (hm : IsItemOf m v)
    (hn : IsItemOf n v) : m = n := by
  cases hm <;> cases hn <;> rfl

/-- Items of codes are plain. -/
theorem IsItemOf.isPlain {n : Int} {v : Value} (h : IsItemOf n v) : v.isPlain = true := by
  cases h <;> rfl

/-- An item of some code is one of the forms of a character if and only if it is an item of the code
    of that character. -/
theorem isMember_forms_iff {c : Char} {b : UInt8} (hb : b.toNat = c.toNat) {n : Int} {v : Value}
    (hv : IsItemOf n v) :
    v.isMember [.ofChar c, .int c.toNat, .octets .fixed [b]] = true ↔ IsItemOf c.toNat v := by
  have hcode : IsItemOf c.toNat v ↔ n = c.toNat := ⟨fun h => hv.unique h, fun h => h ▸ hv⟩
  rw [hcode]
  cases hv with
  | code n => simp [isMember, ofChar, eqv, number?]
  | char d =>
    simp only [isMember, List.any_cons, List.any_nil, ofChar, same_text, eqv, number?,
      List.cons_beq_cons, BEq.rfl, Bool.and_true, Bool.or_self, Bool.or_false, beq_iff_eq,
        ← Char.toNat_inj, Int.natCast_inj]
  | octet d =>
    simp only [isMember, List.any_cons, List.any_nil, ofChar, same_octets, eqv, number?,
      List.cons_beq_cons, BEq.rfl, Bool.and_true, Bool.or_false, Bool.false_or, beq_iff_eq, ← hb,
        ← UInt8.toNat_inj,
      Int.natCast_inj]

/-! ### Digits -/

/-- The value of a digit. -/
def digitValue (c : Char) : Nat := c.toNat - '0'.toNat

/-- An item is the digit of its code. -/
theorem digit?_of_isItemOf {n : Int} {v : Value} (h : IsItemOf n v) :
    Leaf.digit? v = Leaf.digitOfCode? n := by
  cases h <;> rfl

/-- An item of a digit is that digit. -/
theorem digit?_of_isDigit {c : Char} (hc : c.isDigit = true) {v : Value} (hv : IsItemOf c.toNat v) :
    Leaf.digit? v = some (digitValue c) := by
  have hbounds := Decimal.toNat_bounds hc
  have hzero : '0'.toNat = 48 := rfl
  rw [digit?_of_isItemOf hv, Leaf.digitOfCode?, if_pos (by omega), digitValue]
  congr 1
  omega

/-- Codes of digits are those of the digits. -/
theorem isDigit_of_digitOfCode? {n : Int} {v : Value} (hv : IsItemOf n v)
    (h : Leaf.digitOfCode? n ≠ none) : IsDigit v := by
  have hcode : 0x30 ≤ n ∧ n ≤ 0x39 := by
    refine Decidable.byContradiction fun hout => h ?_
    rw [Leaf.digitOfCode?, if_neg hout]
  have hvalid : n.toNat.isValidChar := .inl (by omega)
  have hchar : (Char.ofNat n.toNat).toNat = n.toNat := by
    rw [Char.ofNat, dif_pos hvalid]
    rfl
  refine ⟨Char.ofNat n.toNat, ?_, ?_⟩
  · simp only [Char.isDigit, ge_iff_le, UInt32.le_iff_toNat_le, Bool.and_eq_true, decide_eq_true_eq]
    change 48 ≤ (Char.ofNat n.toNat).toNat ∧ (Char.ofNat n.toNat).toNat ≤ 57
    omega
  · rw [hchar]
    exact (Int.toNat_of_nonneg (by omega : 0 ≤ n)).symm ▸ hv

/-- What is no digit has no value as a digit. -/
theorem digit?_eq_none {v : Value} (h : ¬ v.IsDigit) : Leaf.digit? v = none := by
  have hcode (n : Int) (hv : IsItemOf n v) : Leaf.digitOfCode? n = none :=
    Decidable.byContradiction fun hsome => h (isDigit_of_digitOfCode? hv hsome)
  unfold Leaf.digit?
  split
  · exact hcode _ (.code _)
  · exact hcode _ (.char _)
  · exact hcode _ (.octet _)
  · rfl

end Value

open Value

/-- Items that spell a text, one for each of its characters. -/
abbrev Spelled (cs : List Char) (vs : List Value) : Prop :=
  List.Forall₂ (fun c v => IsItemOf (Char.toNat c) v) cs vs

/-- The inputs with some codes: texts, byte sequences of any kind, and lists and tuples of items of
    these codes. -/
inductive Items.OfCodes : Items → List Int → Prop
  | text (cs : Array Char) : OfCodes (.text cs) (cs.toList.map fun c => (c.toNat : Int))
  | octets (k : OctetKind) (bs : Array UInt8) :
      OfCodes (.octets k bs) (bs.toList.map fun b => (b.toNat : Int))
  | list {xs : Array Value} {ns : List Int} : List.Forall₂ IsItemOf ns xs.toList →
      OfCodes (.list xs) ns
  | tuple {xs : Array Value} {ns : List Int} : List.Forall₂ IsItemOf ns xs.toList →
      OfCodes (.tuple xs) ns

/-- An input that is made of items of codes has one for each code. -/
theorem Items.OfCodes.forall₂ {items : Items} {ns : List Int} (h : items.OfCodes ns) :
    List.Forall₂ IsItemOf ns items.toList := by
  cases h with
  | text cs =>
    rw [toList, List.forall₂_map_left_iff, List.forall₂_map_right_iff, List.forall₂_same]
    exact fun c _ => .char c
  | octets k bs =>
    rw [toList, List.forall₂_map_left_iff, List.forall₂_map_right_iff, List.forall₂_same]
    exact fun b _ => .code _
  | list h => exact h
  | tuple h => exact h

/-- The item at a position is the first one of what is left there. -/
theorem Items.get?_eq_head?_drop (items : Items) (pos : Nat) :
    items.get? pos = (items.toList.drop pos).head? := by
  rw [get?_eq_toList, List.head?_drop]

/-- Items that do not begin with a digit. -/
def NoDigit (vs : List Value) : Prop := ∀ v ∈ vs.head?, ¬ v.IsDigit

/-- The digits that some items begin with, and what is left, which begins with no further one. -/
inductive DigitRun : List Char → List Value → List Value → Prop
  | stop {vs : List Value} : NoDigit vs → DigitRun [] vs vs
  | digit {c : Char} {v : Value} {ds : List Char} {vs rest : List Value} :
    c.isDigit = true → IsItemOf c.toNat v → DigitRun ds vs rest →
    DigitRun (c :: ds) (v :: vs) rest

/-- Every list of items begins with digits, if only with none. -/
theorem exists_digitRun (vs : List Value) : ∃ ds rest, DigitRun ds vs rest := by
  induction vs with
  | nil => exact ⟨[], [], .stop nofun⟩
  | cons v vs ih =>
    by_cases hv : v.IsDigit
    · obtain ⟨c, hc, hitem⟩ := hv
      obtain ⟨ds, rest, hrun⟩ := ih
      exact ⟨c :: ds, rest, .digit hc hitem hrun⟩
    · refine ⟨[], v :: vs, .stop fun w hw => ?_⟩
      obtain rfl := Option.mem_some_iff.mp hw
      exact hv

/-- Digits with no further one after them are all the digits there. -/
theorem digitRun_of_spelled {ds : List Char} {us rest : List Value}
    (hds : ∀ c ∈ ds, c.isDigit = true) (hus : Spelled ds us) (hrest : NoDigit rest) :
    DigitRun ds (us ++ rest) rest := by
  induction hus with
  | nil => exact .stop hrest
  | cons hv _ ih => exact .digit (hds _ (by simp)) hv (ih fun c hc => hds c (by simp [hc]))

namespace DigitRun

variable {ds : List Char} {vs rest : List Value}

/-- The digits that items begin with are digits. -/
theorem isDigit (h : DigitRun ds vs rest) : ∀ c ∈ ds, c.isDigit = true := by
  induction h with
  | stop => exact List.forall_mem_nil _
  | digit hc _ _ ih => exact List.forall_mem_cons.mpr ⟨hc, ih⟩

/-- What is left stands behind the digits. -/
theorem drop_eq (h : DigitRun ds vs rest) : vs.drop ds.length = rest := by
  induction h with
  | stop => rfl
  | digit _ _ _ ih => exact ih

/-- Nothing is lost between the digits and what is left. -/
theorem length_eq (h : DigitRun ds vs rest) : vs.length = ds.length + rest.length := by
  induction h with
  | stop => simp
  | digit _ _ _ ih => simp [ih]; omega

/-- If there are digits, the first item is one. -/
theorem isDigit_head (h : DigitRun ds vs rest) (hds : ds ≠ []) : ∃ v ∈ vs.head?, v.IsDigit := by
  cases h with
  | stop => contradiction
  | digit hc hv _ => exact ⟨_, rfl, _, hc, hv⟩

end DigitRun

/-- A minus sign that may come before a number where there are signed ones: whether there is one,
    and what is left. -/
inductive Sign (isMinus : Value → Prop) (signed : Bool) : Bool → List Value → List Value → Prop
  | minus {v : Value} {vs : List Value} : signed = true → isMinus v →
    Sign isMinus signed true (v :: vs) vs
  | plain {vs : List Value} : (signed = true → ∀ v ∈ vs.head?, ¬ isMinus v) →
      Sign isMinus signed false vs vs

/-- Before the digits there may be a sign, or none. -/
theorem exists_sign (isMinus : Value → Prop) (signed : Bool) (vs : List Value) :
    ∃ negative vs', Sign isMinus signed negative vs vs' := by
  by_cases h : signed = true ∧ ∃ v ∈ vs.head?, isMinus v
  · obtain ⟨hsigned, v, hv, hminus⟩ := h
    obtain ⟨vs', rfl⟩ := List.head?_eq_some_iff.mp hv
    exact ⟨true, vs', .minus hsigned hminus⟩
  · exact ⟨false, vs, .plain fun hsigned v hv hminus => h ⟨hsigned, v, hv, hminus⟩⟩

/-- What is left after a sign is as much shorter as the sign is long. -/
theorem Sign.length_eq {isMinus : Value → Prop} {signed negative : Bool} {us vs : List Value}
    (h : Sign isMinus signed negative us vs) :
    us.length = (if negative then 1 else 0) + vs.length := by
  cases h with
  | minus => exact Nat.add_comm _ 1
  | plain => exact (Nat.zero_add _).symm

/-- It does not matter how a minus sign is told where all that may be one is told alike. -/
theorem Sign.congr {isMinus isMinus' : Value → Prop} {signed negative : Bool} {us vs : List Value}
    (hus : ∀ v ∈ us.head?, isMinus v ↔ isMinus' v) (h : Sign isMinus signed negative us vs) :
    Sign isMinus' signed negative us vs := by
  cases h with
  | minus hsigned hminus => exact .minus hsigned ((hus _ rfl).mp hminus)
  | plain hplain =>
    exact .plain fun hsigned v hv hminus => hplain hsigned v hv ((hus v hv).mpr hminus)

namespace Leaf

/-- Whether an item counts as a minus sign in a user state. -/
def IsMinus (look : Value → Value) (v : Value) : Prop := (look v).isMember minusForms = true

variable {items : Items} {look : Value → Value} {ds : List Char} {rest : List Value}

/-- **The digits of an input.** From every position on, those that the items there begin with are
    read. -/
theorem digitRun_eq {pos : Nat} (h : DigitRun ds (items.toList.drop pos) rest) :
    digitRun items (items.size - pos) pos = .ok (ds.map digitValue) := by
  -- by induction on the run, with the position and the count of the items that are left general
  generalize hvs : items.toList.drop pos = vs at h
  generalize hleft : items.size - pos = left
  have hlength : vs.length = left := by
    rw [← hvs, List.length_drop, Items.length_toList, hleft]
  induction h generalizing pos left with
  | @stop vs hstop =>
    cases left with
    | zero => rfl
    | succ left =>
      have hnone : (items.get? pos).bind digit? = none := by
        rw [Items.get?_eq_head?_drop, hvs]
        cases vs with
        | nil => rfl
        | cons v vs => exact digit?_eq_none (hstop v rfl)
      rw [digitRun, Input.item?_sequence, Step.ok_bind, hnone]
      rfl
  | @digit c v ds vs rest hc hv _ ih =>
    subst hlength
    have hnext : items.toList.drop (pos + 1) = vs := by
      rw [← List.tail_drop, hvs, List.tail_cons]
    have hsome : (items.get? pos).bind digit? = some (digitValue c) := by
      rw [Items.get?_eq_head?_drop, hvs]
      exact digit?_of_isDigit hc hv
    have hlast : items.size - (pos + 1) = vs.length := by
      rw [← hnext, List.length_drop, Items.length_toList]
    rw [List.length_cons, digitRun, Input.item?_sequence, Step.ok_bind, hsome]
    show (digitRun items vs.length (pos + 1) >>= fun run => _) = _
    rw [ih hnext vs.length hlast rfl]
    rfl

/-- The integer that digits with a sign denote. -/
def signedValue (negative : Bool) (ds : List Char) : Int :=
  if negative then -(Decimal.toNat ds : Int) else Decimal.toNat ds

/-- How a sign is written. -/
def signText (negative : Bool) : List Char := if negative then ['-'] else []

/-- Without a minus sign, the value is that of the digits. -/
@[simp] theorem signedValue_false (ds : List Char) : signedValue false ds = Decimal.toNat ds := rfl

/-- With one, it is the negative of that. -/
@[simp] theorem signedValue_true (ds : List Char) :
    signedValue true ds = -(Decimal.toNat ds : Int) :=
  rfl

/-- No sign is written as nothing. -/
@[simp] theorem signText_false : signText false = [] := rfl

/-- The minus sign is written as it is. -/
@[simp] theorem signText_true : signText true = ['-'] := rfl

/-- The numeral of digits with a sign. -/
def numeralOf (negative : Bool) (ds : List Char) : Numeral := ⟨negative, ds.map digitValue⟩

/-- The value of a numeral is that of its digits, with the sign. -/
theorem value_numeralOf (negative : Bool) (ds : List Char) :
    (numeralOf negative ds).value = signedValue negative ds := by
  have hnumber : numberOf (ds.map digitValue) = Decimal.toNat ds := List.foldl_map ..
  rw [Numeral.value, numeralOf, hnumber]
  rfl

/-- A numeral is as wide as its sign and its digits. -/
theorem width_numeralOf (negative : Bool) (ds : List Char) :
    (numeralOf negative ds).width = (signText negative ++ ds).length := by
  cases negative <;> simp [Numeral.width, numeralOf, signText, Nat.add_comm]

/-- **The numeral of an input** is that of its sign and its digits, where there are digits and their
    value fits. -/
theorem numeral?_eq {pos : Nat} {signed negative : Bool} {vs : List Value} (kind : Option IntKind)
    (hsign : Sign (IsMinus look) signed negative (items.toList.drop pos) vs)
    (hrun : DigitRun ds vs rest) :
    numeral? items pos signed kind look =
      .ok (if ds = [] then none
        else if kind.all (·.fits (signedValue negative ds)) then some (numeralOf negative ds)
        else none) := by
  -- the sign that is looked for is the one that is there, and the digits are those after it
  have hparts : (signed && (items.get? pos).any fun v => (look v).isMember minusForms) = negative ∧
      vs = items.toList.drop (if negative then pos + 1 else pos) := by
    rw [Items.get?_eq_head?_drop]
    generalize hat : items.toList.drop pos = us at hsign
    cases hsign with
    | @minus v vs hsigned hminus =>
      refine ⟨by rw [hsigned, List.head?_cons, Option.any_some, hminus]; rfl, ?_⟩
      rw [if_pos rfl, ← List.tail_drop, hat, List.tail_cons]
    | plain hplain =>
      refine ⟨Bool.eq_false_iff.mpr fun h => ?_, hat.symm⟩
      obtain ⟨hsigned, hany⟩ := Bool.and_eq_true_iff.mp h
      cases hhead : vs.head? with
      | none =>
        rw [hhead] at hany
        cases hany
      | some v =>
        rw [hhead] at hany
        exact hplain hsigned v hhead hany
  obtain ⟨hnegative, hvs⟩ := hparts
  -- there are digits where the reader finds some, and their value is that of the numeral
  rw [hvs] at hrun
  rw [numeral?, Input.item?_sequence, Step.ok_bind, hnegative]
  show (digitRun items (items.size - (if negative then pos + 1 else pos))
      (if negative then pos + 1 else pos) >>= _) = _
  rw [digitRun_eq hrun]
  have hvalue : Numeral.value ⟨negative, ds.map digitValue⟩ = signedValue negative ds :=
    value_numeralOf negative ds
  show Except.ok (if (ds.map digitValue).isEmpty then none else _) = _
  rw [hvalue]
  cases ds <;> rfl

end Leaf

end Itemwise
