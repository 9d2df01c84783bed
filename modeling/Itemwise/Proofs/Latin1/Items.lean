import Itemwise.Leaf.Blank
import Itemwise.Leaf.Number
import Itemwise.Parser.Build
import Itemwise.Proofs.TextReader.Steps
import Mathlib.Algebra.Ring.Int.Defs
import Mathlib.Data.List.Forall2

namespace Itemwise

/-!
# Characters and their bytes

A text whose code points are all below 256 and the sequence of these code points as bytes hold the
same items in two forms: characters of one, and numbers of the other.

* `Latin1.encode?_eq_some_iff` — a text is encoded as the bytes of which it is the text;
* `Value.EncodesAs` — a value that a parser reads off a text, and the value that it reads off the
  bytes;
* `Value.AreUniform`, `Pattern.IsUniform` — items and patterns that a character fits if and only if
  its byte does;
* `Value.IsUnit`, `Value.areUniform_equivalents`, `Compiled.accepts_eq` — expected items and
  patterns are such, in all their forms together.
-/

/-- Two tests that find alike in each of some lists find alike in all of them. -/
theorem any_flatMap_congr {α β : Type} {f : α → List β} {xs : List α} {p q : β → Bool}
    (h : ∀ x ∈ xs, (f x).any p = (f x).any q) : (xs.flatMap f).any p = (xs.flatMap f).any q := by
  rw [List.any_flatMap, List.any_flatMap, Bool.eq_iff_iff, List.any_eq_true, List.any_eq_true]
  exact exists_congr fun x => and_congr_right fun hx => by rw [h x hx]

namespace Latin1

/-- A byte has the code of its character. -/
theorem toNat_ofByte (b : UInt8) : (ofByte b).toNat = b.toNat := by
  have hvalid : b.toNat.isValidChar := .inl (by have := b.toNat_lt; omega)
  rw [ofByte, Char.ofNat, dif_pos hvalid]
  rfl

/-- Different bytes have different characters. -/
theorem ofByte_injective : Function.Injective ofByte := by
  intro a b h
  have hcode := congrArg Char.toNat h
  rwa [toNat_ofByte, toNat_ofByte, UInt8.toNat_inj] at hcode

/-- A character has a byte if it is the character of that byte. -/
theorem toByte?_eq_some_iff {c : Char} {b : UInt8} : toByte? c = some b ↔ ofByte b = c := by
  unfold toByte?
  rw [← Char.toNat_inj, toNat_ofByte]
  have hlt := b.toNat_lt
  constructor
  · intro h
    split at h
    · next hc =>
      obtain rfl := Option.some.inj h
      rw [Nat.toUInt8_eq, UInt8.toNat_ofNat', Nat.mod_eq_of_lt hc]
    · cases h
  · intro h
    rw [← h, if_pos (by omega), Nat.toUInt8_eq, UInt8.ofNat_toNat]

/-- A text is encoded as the bytes of which it is the text, and as no others. -/
theorem encode?_eq_some_iff {cs : List Char} {bs : List UInt8} :
    encode? cs = some bs ↔ decode bs = cs := by
  unfold encode? decode
  induction cs generalizing bs with
  | nil => cases bs <;> simp
  | cons c cs ih =>
    cases bs with
    | nil => simp [Option.bind_eq_some_iff]
    | cons b bs => simp [Option.bind_eq_some_iff, toByte?_eq_some_iff, ih]

/-- Where all code points are below 256, there are such bytes. -/
theorem exists_encode? {cs : List Char} (h : ∀ c ∈ cs, c.toNat < 0x100) :
    ∃ bs, encode? cs = some bs := by
  refine ⟨cs.map fun c => c.toNat.toUInt8, encode?_eq_some_iff.mpr ?_⟩
  have hbyte (c : Char) (hc : c ∈ cs) : (ofByte ∘ fun c => c.toNat.toUInt8) c = id c :=
    toByte?_eq_some_iff.mp (if_pos (h c hc))
  rw [decode, List.map_map, List.map_congr_left hbyte, List.map_id]

end Latin1

/-! ### Values -/

namespace Value

/-- A value with texts in it, and the same value with their bytes in their place, or the code of its
    byte in place of a single character. -/
inductive EncodesAs : Value → Value → Prop
  | null : EncodesAs .null .null
  | int (n : Int) : EncodesAs (.int n) (.int n)
  | float (x : Floating) : EncodesAs (.float x) (.float x)
  | span (s : Span) : EncodesAs (.span s) (.span s)
  | char {c : Char} {b : UInt8} (h : Latin1.toByte? c = some b) : EncodesAs (.ofChar c) (.ofByte b)
  | text {cs : List Char} {bs : List UInt8} (h : Latin1.encode? cs = some bs) :
    EncodesAs (.text cs) (.octets .fixed bs)
  | list {vs ws : List Value} (h : List.Forall₂ EncodesAs vs ws) : EncodesAs (.list vs) (.list ws)
  | tuple {vs ws : List Value} (h : List.Forall₂ EncodesAs vs ws) :
      EncodesAs (.tuple vs) (.tuple ws)

/-- A character of one item is encoded as its byte. -/
theorem encodesAs_ofByte (b : UInt8) : EncodesAs (.ofChar (Latin1.ofByte b)) (.ofByte b) :=
  .char (Latin1.toByte?_eq_some_iff.mpr rfl)

/-- A text that is decoded is encoded as the bytes that it was decoded from. -/
theorem encodesAs_decode (bs : List UInt8) :
    EncodesAs (.text (Latin1.decode bs)) (.octets .fixed bs) :=
  .text (Latin1.encode?_eq_some_iff.mpr rfl)

/-! ### Expected items -/

/-- A character is one of some items if and only if its byte is. -/
def AreUniform (forms : List Value) : Prop :=
  ∀ b : UInt8, (ofChar (Latin1.ofByte b)).isMember forms = (ofByte b).isMember forms

/-- A single character or a single byte, as an item that is expected. -/
inductive IsUnit : Value → Prop
  | char (c : Char) : IsUnit (.text [c])
  | octet {k : OctetKind} (hk : k.isView = false) (b : UInt8) : IsUnit (.octets k [b])

/-- An expected item stands for its character, and for its code too. -/
theorem areUniform_equivalents {v : Value} (hv : v.IsUnit) : AreUniform v.equivalents := by
  intro b
  rw [Bool.eq_iff_iff]
  cases hv with
  | char c =>
    simp [equivalents, isMember, ofChar, ofByte, eqv, number?, ← Char.toNat_inj,
      Latin1.toNat_ofByte]
  | @octet k hk b' =>
    cases k with
    | fixed | growable =>
      simp [equivalents, isMember, ofChar, ofByte, eqv, number?, ← Char.toNat_inj,
        Latin1.toNat_ofByte]
    | view | backwardView => cases hk

/-- Forms that do not tell characters from bytes may be put together. -/
theorem areUniform_flatMap {α : Type} {f : α → List Value} {xs : List α}
    (h : ∀ x ∈ xs, AreUniform (f x)) :
    AreUniform (xs.flatMap f) :=
  fun b => any_flatMap_congr fun x hx => h x hx b

/-- A character, its code and bytes are such forms. -/
theorem areUniform_forms (c : Char) (bs : List UInt8) :
    AreUniform [.ofChar c, .int c.toNat, .octets .fixed bs] := by
  intro b
  rw [Bool.eq_iff_iff]
  simp [isMember, ofChar, ofByte, eqv, number?, ← Char.toNat_inj, Latin1.toNat_ofByte]

/-- So are the forms of a minus sign. -/
theorem areUniform_minusForms : AreUniform Leaf.minusForms := areUniform_forms '-' [0x2d]

/-- So are the forms of a point. -/
theorem areUniform_pointForms : AreUniform Leaf.pointForms := areUniform_forms '.' [0x2e]

/-- So is white space. -/
theorem areUniform_blanks : AreUniform Leaf.blanks := by
  intro b
  rw [Bool.eq_iff_iff]
  simp [Leaf.blanks, Leaf.blankChars, isMember, ofChar, ofByte, eqv, number?, ← Char.toNat_inj,
    Latin1.toNat_ofByte]
  omega

/-! ### Expected runs -/

open Latin1

/-- A text or a byte sequence, as a run of items that is expected. -/
inductive IsRun : Value → Prop
  | text (cs : List Char) : IsRun (.text cs)
  | octets {k : OctetKind} (hk : k.isView = false) (bs : List UInt8) : IsRun (.octets k bs)

/-- What is taken is an item if it is a single character or byte, and a run otherwise. -/
theorem IsRun.take_cases {σ : Type} {expected : Value} (h : expected.IsRun) :
    ((Parser.take expected : Parser σ) = .item expected ∧ expected.IsUnit) ∨
      (Parser.take expected : Parser σ) = .literal expected := by
  cases h with
  | text cs =>
    by_cases hone : cs.length = 1
    · obtain ⟨c, rfl⟩ := List.length_eq_one_iff.mp hone
      exact .inl ⟨rfl, .char c⟩
    · exact .inr (if_neg hone)
  | @octets k hk bs =>
    by_cases hone : bs.length = 1
    · obtain ⟨b, rfl⟩ := List.length_eq_one_iff.mp hone
      exact .inl ⟨if_pos (Bool.or_true _), .octet hk b⟩
    · exact .inr (if_neg (by simp [hk, hone]))

/-- A stretch of a text is a form of what is expected if and only if its bytes are. -/
theorem isMember_variants {expected : Value} (h : expected.IsRun) {forms : List Value}
    (hforms : expected.variants = .ok forms) (bs : List UInt8) :
    (Value.text (decode bs)).isMember forms = (Value.octets .fixed bs).isMember forms := by
  rw [Bool.eq_iff_iff]
  cases h with
  | text cs =>
    -- A text that cannot be encoded has no byte form, and is not the text of any bytes either.
    rw [Step.isMember_variants hforms, beq_iff_eq, ← encode?_eq_some_iff]
    obtain rfl := Except.ok.inj hforms
    cases encode? cs with
    | none => simp [isMember, eqv, number?]
    | some bs' => simpa [isMember, eqv, number?] using eq_comm
  | @octets k hk bs' =>
    obtain rfl := Except.ok.inj hforms
    have hdecode : decode bs = decode bs' ↔ bs = bs' :=
      (List.map_injective_iff.mpr ofByte_injective).eq_iff
    simp [hk, isMember, eqv, number?, hdecode]

end Value

/-! ### Patterns -/

/-- A pattern of single characters or bytes, or a range of characters or of codes of characters. -/
inductive Pattern.IsUniform : Pattern → Prop
  | item {v : Value} (hv : v.IsUnit) : IsUniform (.item v)
  | oneOf {vs : List Value} (hvs : ∀ v ∈ vs, v.IsUnit) : IsUniform (.oneOf vs)
  | chars (low high : Char) : IsUniform (.within ⟨.ofChar low, .ofChar high⟩)
  | codes {low high : Nat} (hhigh : high ≤ 0x10ffff) : IsUniform (.within ⟨.int low, .int high⟩)

namespace Bound

variable (op : Comparison) (n : Nat) (c d : Char) (b : UInt8)

/-! A bound and an item of one kind compare as their codes; others do not compare. -/

/-- Characters are compared by their codes. -/
theorem holds?_char_char :
    (value (.ofChar c)).holds? op (.ofChar d) = some (op.admits (compare c.toNat d.toNat)) := by
  simp only [holds?, Value.ofChar, Value.holds?, Step.compareBy_singleton]

/-- A code is compared with a byte as a number. -/
theorem holds?_code_byte :
    (value (.int n)).holds? op (.ofByte b) = some (op.admits (compare n b.toNat)) := by
  have hcompare : compare (n : Int) b.toNat = compare n b.toNat := by
    simp only [compare, compareOfLessAndEq, Int.ofNat_lt, Int.ofNat_inj]
  simp only [holds?, Value.ofByte, Value.holds?, Value.number?, Binary64.compare_ofInt, hcompare]

/-- A bound that is a code point is compared with characters by their codes. -/
theorem holds?_codePoint_char :
    (codePoint n).holds? op (.ofChar d) = some (op.admits (compare n d.toNat)) := by
  by_cases h : n = d.toNat <;> simp [holds?, Value.ofChar, compareBy, h]

/-- A character has no order with a byte. -/
theorem holds?_char_byte : (value (.ofChar c)).holds? op (.ofByte b) = none := by
  simp only [holds?, Value.ofChar, Value.ofByte, Value.holds?, Value.number?]

/-- A number has no order with a character. -/
theorem holds?_code_char : (value (.int n)).holds? op (.ofChar d) = none := by
  simp only [holds?, Value.ofChar, Value.holds?, Value.number?]

/-- A bound that is a code point has no order with a byte. -/
theorem holds?_codePoint_byte : (codePoint n).holds? op (.ofByte b) = none := rfl

end Bound

namespace Compiled

open Itemwise.Bound Itemwise.Value

/-- Doubled bounds make up for the kinds that do not compare. -/
theorem any_isWithin_boundsOf {p : Pattern} (hp : p.IsUniform) (b : UInt8) :
    (boundsOf p).any (isWithin (.ofChar (Latin1.ofByte b))) =
      (boundsOf p).any (isWithin (.ofByte b)) := by
  cases hp with
  | item hv => rfl
  | oneOf hvs => rfl
  | chars low high =>
    have hbounds : boundsOf (.within ⟨.ofChar low, .ofChar high⟩) =
        [(.value (.ofChar low), .value (.ofChar high)),
          (.value (.int low.toNat), .value (.int high.toNat))] := rfl
    simp [hbounds, isWithin, holds?_char_char, holds?_code_byte, holds?_code_char, holds?_char_byte,
      Latin1.toNat_ofByte]
  | @codes low high hhigh =>
    -- An empty range of codes is not doubled, and accepts no byte.
    have hbounds : boundsOf (.within ⟨.int low, .int high⟩) =
        (.value (.int low), .value (.int high)) :: if low ≤ high then
          [(.codePoint low, .codePoint high)] else [] := by
      have hcodes : (0 : Int) ≤ low ∧ (low : Int) ≤ high ∧ (high : Int) ≤ 0x10ffff ↔
          low ≤ high := by omega
      simp only [boundsOf, ItemRange.bounds, toInt?, hcodes, Int.toNat_natCast]
    rw [hbounds]
    split
    · simp [isWithin, holds?_codePoint_char, holds?_code_byte, holds?_code_char,
        holds?_codePoint_byte, Latin1.toNat_ofByte]
    · simp [isWithin, holds?_code_byte, holds?_code_char, Comparison.admits, Nat.compare_eq_gt,
        Nat.compare_eq_lt]
      omega

/-- A union of patterns that do not tell characters from bytes does not either. -/
theorem accepts_eq {ps : List Pattern} (hps : ∀ p ∈ ps, p.IsUniform) (b : UInt8) :
    (union ps).accepts (.ofChar (Latin1.ofByte b)) = (union ps).accepts (.ofByte b) := by
  have hliterals : AreUniform (union ps).literals := by
    refine areUniform_flatMap fun p hp => ?_
    cases hps p hp with
    | item hv => exact areUniform_equivalents hv
    | oneOf hvs => exact areUniform_flatMap fun v hv => areUniform_equivalents (hvs v hv)
    | chars low high => exact fun b => rfl
    | codes hhigh => exact fun b => rfl
  have hliteral : (union ps).isLiteral (.ofChar (Latin1.ofByte b)) =
      (union ps).isLiteral (.ofByte b) := by
    unfold isLiteral
    rw [hliterals b]
    rfl
  have hranges : (union ps).ranges.any (isWithin (.ofChar (Latin1.ofByte b))) =
      (union ps).ranges.any (isWithin (.ofByte b)) :=
    any_flatMap_congr fun p hp => any_isWithin_boundsOf (hps p hp) b
  unfold accepts
  rw [hliteral, hranges]

end Compiled
end Itemwise
