import Itemwise.Proofs.Latin1.Items
import Itemwise.Proofs.Scan.Search

namespace Itemwise

/-!
# Reading a text and its bytes

Whatever is read off a text, item by item or as a whole, is read off its bytes alike.

* `Latin1.asText`, `Latin1.asOctets` — some bytes as an input, in both forms;
* `Leaf.skipBlanks_latin1` — white space;
* `Leaf.locate_latin1`, `Search.find?_latin1` — needles, and single bytes;
* `Leaf.numeral?_latin1`, `Leaf.fraction_latin1` — the parts of numbers.
-/

/-! ### Inputs -/

namespace Latin1

/-- Bytes as a text. -/
def asText (bs : Array UInt8) : Items := .text (bs.map ofByte)

/-- Bytes as bytes. -/
def asOctets (bs : Array UInt8) : Items := .octets .fixed bs

variable (bs : Array UInt8)

/-- The text has as many characters as there are bytes. -/
@[simp] theorem size_asText : (asText bs).size = bs.size := Array.size_map

/-- The byte sequence has as many items as there are bytes. -/
@[simp] theorem size_asOctets : (asOctets bs).size = bs.size := rfl

/-- An item of the text is the character of the byte there. -/
@[simp] theorem get?_asText (i : Nat) :
    (asText bs).get? i = bs[i]?.map fun b => Value.ofChar (ofByte b) := by
  rw [asText, Items.get?, Array.getElem?_map, Option.map_map]
  rfl

/-- An item of the byte sequence is the byte there. -/
@[simp] theorem get?_asOctets (i : Nat) : (asOctets bs).get? i = bs[i]?.map Value.ofByte := rfl

/-- A slice of the text decodes the bytes between its bounds. -/
theorem slice_asText (start stop : Nat) :
    (asText bs).slice start stop = .text (decode (bs.extract start stop).toList) := by
  simp [asText, Items.slice, decode, Array.toList_extract]

/-- A slice of the byte sequence is the bytes between its bounds. -/
theorem slice_asOctets (start stop : Nat) :
    (asOctets bs).slice start stop = .octets .fixed (bs.extract start stop).toList := rfl

end Latin1

open Latin1

/-! ### White space -/

namespace Leaf

variable (bs : Array UInt8)

/-- A scan stops at one place in both, if its test does not tell characters from bytes. -/
theorem scanWhile_latin1 {test : Value → Except Fault Bool}
    (htest : ∀ b : UInt8, test (.ofChar (ofByte b)) = test (.ofByte b)) (left pos : Nat) :
    scanWhile (asText bs) test left pos = scanWhile (asOctets bs) test left pos := by
  induction left generalizing pos with
  | zero => rfl
  | succ left ih =>
    simp only [scanWhile, Input.item?_sequence, Step.ok_bind, get?_asText, get?_asOctets]
    cases bs[pos]? with
    | none => rfl
    | some b => simp only [Option.map_some, htest, ih]

/-- White space ends at one place in both. -/
theorem skipBlanks_latin1 (pos : Nat) :
    skipBlanks (asText bs) pos = skipBlanks (asOctets bs) pos := by
  have hblank (b : UInt8) : isBlank (.ofChar (ofByte b)) = isBlank (.ofByte b) :=
    congrArg Except.ok (Value.areUniform_blanks b)
  unfold skipBlanks
  rw [Input.size_sequence, Input.size_sequence, size_asText, size_asOctets,
    scanWhile_latin1 bs hblank]

/-! ### Needles -/

/-- A run of codes is found at one place in both. -/
theorem findRun_latin1 (run : List Nat) (start : Nat) :
    findRun Char.toNat (bs.map ofByte) run start = findRun UInt8.toNat bs run start := by
  unfold findRun Run.findArray?
  rw [Array.size_map]
  -- Both searches are one search for a run of codes.
  refine congrArg (Option.map _) (congrArg (Run.find? · _ _ _) ?_)
  funext j p
  rw [Array.getElem?_map]
  cases run.toArray[j]? <;> cases bs[p]? <;> simp [toNat_ofByte]

end Leaf

/-- A text of code points below 256 or a byte sequence, as a needle. -/
inductive Value.IsNeedle : Value → Prop
  | text {cs : List Char} (hcs : ∀ c ∈ cs, c.toNat < 0x100) : IsNeedle (.text cs)
  | octets {k : OctetKind} (hk : k.isView = false) (bs : List UInt8) : IsNeedle (.octets k bs)

namespace Leaf

/-- A needle that is no longer than a byte allows is looked for by the same codes in both. -/
theorem textNeedle_eq_octetNeedle {needle : Value} (h : needle.IsNeedle) :
    textNeedle needle = octetNeedle needle := by
  cases h with
  | text hcs =>
    obtain ⟨bs, hbs⟩ := exists_encode? hcs
    rw [octetNeedle, hbs, ← encode?_eq_some_iff.mp hbs, textNeedle, decode, List.map_map]
    show Except.ok (bs.map fun b => (ofByte b).toNat) = .ok (bs.map UInt8.toNat)
    simp only [toNat_ofByte]
  | octets hk bs => rw [textNeedle, octetNeedle, hk, if_neg Bool.false_ne_true]

/-- A needle is located at one place in both. -/
theorem locate_latin1 (bs : Array UInt8) {needle : Value} (h : needle.IsNeedle) (start : Nat)
    (look : Value → Value) :
    locate (asText bs) needle start look = locate (asOctets bs) needle start look := by
  show (textNeedle needle).map (fun run => findRun Char.toNat (bs.map ofByte) run start) =
    (octetNeedle needle).map fun run => findRun UInt8.toNat bs run start
  rw [textNeedle_eq_octetNeedle h]
  simp only [findRun_latin1]

/-! ### Numbers -/

/-- A character and its byte are the same digit. -/
theorem digit?_latin1 (b : UInt8) : digit? (.ofChar (ofByte b)) = digit? (.ofByte b) := by
  show digitOfCode? (ofByte b).toNat = digitOfCode? b.toNat
  rw [toNat_ofByte]

variable (bs : Array UInt8)

/-- Digits go equally far in both. -/
theorem digitRun_latin1 (left pos : Nat) :
    digitRun (asText bs) left pos = digitRun (asOctets bs) left pos := by
  induction left generalizing pos with
  | zero => rfl
  | succ left ih =>
    have hdigit : ((asText bs).get? pos).bind digit? = ((asOctets bs).get? pos).bind digit? := by
      rw [get?_asText, get?_asOctets]
      cases bs[pos]? with
      | none => rfl
      | some b => exact digit?_latin1 b
    simp only [digitRun, Input.item?_sequence, Step.ok_bind, hdigit, ih]

variable {look : Value → Value} (hlook : ∀ v : Value, v.isPlain = true → look v = v)

include hlook in
/-- Forms that do not tell characters from bytes have an item of both as a member, or of neither. -/
theorem any_isMember_latin1 {forms : List Value} (hforms : Value.AreUniform forms) (pos : Nat) :
    (((asText bs).get? pos).any fun v => (look v).isMember forms) =
      ((asOctets bs).get? pos).any fun v => (look v).isMember forms := by
  rw [get?_asText, get?_asOctets]
  cases bs[pos]? with
  | none => rfl
  | some b =>
    show (look _).isMember forms = (look _).isMember forms
    rw [hlook _ rfl, hlook _ rfl, hforms b]

include hlook in
/-- A numeral is the same in both. -/
theorem numeral?_latin1 (pos : Nat) (signed : Bool) (kind : Option IntKind) :
    numeral? (asText bs) pos signed kind look = numeral? (asOctets bs) pos signed kind look := by
  simp only [numeral?, Input.item?_sequence, Step.ok_bind, Input.size_sequence, size_asText,
    size_asOctets, any_isMember_latin1 bs hlook Value.areUniform_minusForms, digitRun_latin1]

include hlook in
/-- A fraction is the same in both. -/
theorem fraction_latin1 (pos : Nat) :
    fraction (asText bs) pos look = fraction (asOctets bs) pos look := by
  simp only [fraction, Input.item?_sequence, Step.ok_bind, Input.size_sequence, size_asText,
    size_asOctets, any_isMember_latin1 bs hlook Value.areUniform_pointForms, digitRun_latin1]

end Leaf

/-- A search for bytes comes to one index in both. -/
theorem Search.find?_latin1 (bs : Array UInt8) (start : Nat) (fs : List Finder)
    (look : Value → Value) :
    find? (asText bs) start fs look = find? (asOctets bs) start fs look := by
  show Except.ok (text fs (bs.map ofByte) start) = .ok (bytes fs bs start)
  rw [text_eq, bytes_eq, Array.toList_map, ← List.map_drop, firstFrom_map]
  simp only [toNat_ofByte]

end Itemwise
