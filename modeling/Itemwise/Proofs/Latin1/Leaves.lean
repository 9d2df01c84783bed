import Itemwise.Proofs.Latin1.Inputs
import Itemwise.Proofs.Run.Nesting

namespace Itemwise

/-!
# Leaves on a text and on its bytes

* `Latin1.Meets` — one context over both;
* `Coupling.latin1` — the runs of one parser on both;
* `Leaf.agree_satisfy`, `Leaf.agree_literal`, `Leaf.agree_upTo`, `Leaf.agree_scan`,
  `Leaf.agree_integer`, `Leaf.agree_decimal` — leaves that look for what is uniform come to outcomes
  that are alike, and so do all others.
-/

open Latin1

/-- The same context over a text and over its bytes. -/
inductive Latin1.Meets : Context → Context → Prop
  | mk (bs : Array UInt8) (pos : Nat) (depth : Int) (limit : Limit) :
    Meets ⟨.sequence (asText bs), pos, depth, limit⟩ ⟨.sequence (asOctets bs), pos, depth, limit⟩

/-- The runs of a parser on a text and on its bytes. -/
def Coupling.latin1 : Coupling := Abreast.coupling {
  shared _ := True
  excused _ := False
  meets := Latin1.Meets
  value := Value.EncodesAs
  endless := trivial
  null := .null
  pos_eq := by
    rintro _ _ ⟨bs, pos, depth, limit⟩
    rfl
  moveTo := by
    rintro _ _ q ⟨bs, pos, depth, limit⟩
    exact ⟨bs, q, depth, limit⟩
  rounds := by
    rintro _ _ ⟨bs, pos, depth, limit⟩
    exact congrArg (· + Nat.pow 10 18) (size_asText bs)
  slice := by
    rintro _ _ q ⟨bs, pos, depth, limit⟩
    refine Tolerance.agree_ok ?_
    rw [slice_asText, slice_asOctets]
    exact Value.encodesAs_decode _
  blanks := by
    rintro _ _ ⟨bs, pos, depth, limit⟩
    show Tolerance.Agree _ (· = ·) (Leaf.skipBlanks (asText bs) pos)
        (Leaf.skipBlanks (asOctets bs) pos)
    rw [Leaf.skipBlanks_latin1]
    exact Tolerance.agree_refl (fun _ => rfl) (fun _ => trivial) _ }

namespace Leaf

open Coupling

variable {c c' : Context} (hc : latin1.meets c c')

/-! ### Ends of leaves -/

include hc in
/-- Both runs are rejected at one place. -/
theorem agree_reject : latin1.Agree (latin1.Ends latin1.value c c') (reject c) (reject c') :=
  Tolerance.agree_ok (ends_start hc)

include hc in
/-- Both inputs are of one size. -/
theorem size_eq : c.items.size = c'.items.size := by
  obtain ⟨bs, pos, depth, limit⟩ := hc
  exact size_asText bs

include hc in
/-- Both runs accept up to one place, with values that encode each other. -/
theorem agree_accept {v v' : Value} (hv : v.EncodesAs v') {q q' : Nat} (hq : q = q') :
    latin1.Agree (latin1.Ends latin1.value c c') (accept c v q) (accept c' v' q') := by
  obtain rfl := hq
  unfold accept
  rw [size_eq hc]
  by_cases hle : q ≤ c'.items.size
  · rw [if_pos hle, if_pos hle]
    exact Tolerance.agree_ok (.success hv rfl)
  · rw [if_neg hle, if_neg hle]
    exact Tolerance.agree_error trivial

include hc in
/-- What both have consumed are slices that encode each other. -/
theorem agree_slice {q q' : Nat} (hq : q = q') :
    latin1.Agree Value.EncodesAs (c.sliceTo q) (c'.sliceTo q') :=
  latin1.slice hc hq

include hc in
/-- Such a slice is a text, and the bytes that it decodes. -/
theorem agree_stretch {q q' : Nat} (hq : q = q') :
    latin1.Agree (fun v v' => ∃ bs, v = .text (decode bs) ∧ v' = .octets .fixed bs) (c.sliceTo q)
      (c'.sliceTo q') := by
  obtain ⟨bs, pos, depth, limit⟩ := hc
  obtain rfl := hq
  exact Tolerance.agree_ok ⟨_, slice_asText bs pos q, slice_asOctets bs pos q⟩

/-! ### Single items -/

include hc in
/-- Both see a character and its byte, or the end. -/
theorem agree_item? :
    latin1.Agree (fun v v' => ∃ b : Option UInt8, v = b.map (fun b => .ofChar (ofByte b)) ∧
      v' = b.map .ofByte) c.item? c'.item? := by
  obtain ⟨bs, pos, depth, limit⟩ := hc
  exact Tolerance.agree_ok ⟨bs[pos]?, get?_asText bs pos, get?_asOctets bs pos⟩

include hc in
/-- Both take the next item. -/
theorem agree_anyItem : latin1.Agree (latin1.Ends latin1.value c c') (anyItem c) (anyItem c') := by
  refine (agree_item? hc).bind ?_
  rintro _ _ ⟨b, rfl, rfl⟩
  cases b with
  | none => exact agree_reject hc
  | some b =>
    exact agree_accept hc (Value.encodesAs_ofByte b) (congrArg (· + 1) (latin1.reaches_start hc))

/-- What both runs ask alike has one answer. -/
theorem agree_eq {α : Type} {a a' : Except Fault α} (h : a = a') : latin1.Agree (· = ·) a a' :=
  h ▸ Tolerance.agree_refl (fun _ => rfl) (fun _ => trivial) a

include hc in
/-- Both take the next item, if the test does not tell it from its byte. -/
theorem agree_satisfy {test : Value → Except Fault Bool} {look : Value → Value}
    (htest : ∀ b : UInt8, test (look (.ofChar (ofByte b))) = test (look (.ofByte b))) :
    latin1.Agree (latin1.Ends latin1.value c c') (satisfy test look c) (satisfy test look c') := by
  refine (agree_item? hc).bind ?_
  rintro _ _ ⟨b, rfl, rfl⟩
  cases b with
  | none => exact agree_reject hc
  | some b =>
    refine (agree_eq (htest b)).bind ?_
    rintro pass _ rfl
    cases pass with
    | false => exact agree_reject hc
    | true =>
      exact agree_accept hc (Value.encodesAs_ofByte b) (congrArg (· + 1) (latin1.reaches_start hc))

variable {look : Value → Value} (hlook : ∀ v : Value, v.isPlain = true → look v = v)

include hc hlook in
/-- Both take an expected item, or miss it. -/
theorem agree_item {expected : Value} (h : expected.IsUnit) :
    latin1.Agree (latin1.Ends latin1.value c c') (item expected look c)
      (item expected look c') := by
  refine agree_satisfy hc fun b => ?_
  rw [hlook _ rfl, hlook _ rfl, Value.areUniform_equivalents h b]

include hc hlook in
/-- Both take an item that a pattern fits, or miss it. -/
theorem agree_oneOf {ps : List Pattern} (h : ∀ p ∈ ps, p.IsUniform) :
    latin1.Agree (latin1.Ends latin1.value c c') (oneOf (.union ps) look c)
      (oneOf (.union ps) look c') := by
  refine agree_satisfy hc fun b => ?_
  rw [hlook _ rfl, hlook _ rfl, Compiled.accepts_eq h b]

include hc in
/-- Both are at the end, or both are not. -/
theorem agree_eof : latin1.Agree (latin1.Ends latin1.value c c') (eof c) (eof c') := by
  unfold eof
  rw [size_eq hc, show c.pos = c'.pos from latin1.reaches_start hc]
  by_cases hend : c'.items.size ≤ c'.pos
  · rw [if_pos hend, if_pos hend]
    exact Tolerance.agree_ok (.success .null rfl)
  · rw [if_neg hend, if_neg hend]
    exact agree_reject hc

include hc in
/-- Both are at one position. -/
theorem agree_position :
    latin1.Agree (latin1.Ends latin1.value c c') (position c) (position c') := by
  unfold position
  rw [show c.pos = c'.pos from latin1.reaches_start hc]
  exact Tolerance.agree_ok (.success (.int _) rfl)

/-! ### Stretches -/

include hc in
/-- Both take all that is left. -/
theorem agree_rest : latin1.Agree (latin1.Ends latin1.value c c') (rest c) (rest c') :=
  (agree_slice hc (size_eq hc)).bind fun _ _ hv => agree_accept hc hv (size_eq hc)

include hc in
/-- Both yield a slice without items. -/
theorem agree_empty : latin1.Agree (latin1.Ends latin1.value c c') (empty c) (empty c') := by
  unfold empty
  rw [size_eq hc, show c.pos = c'.pos from latin1.reaches_start hc]
  by_cases hend : c'.items.size ≤ c'.pos
  · rw [if_pos hend, if_pos hend]
    exact (agree_slice hc rfl).bind fun _ _ hv => Tolerance.agree_ok (.success hv rfl)
  · rw [if_neg hend, if_neg hend]
    exact agree_reject hc

include hc in
/-- Both skip as much white space. -/
theorem agree_whitespace :
    latin1.Agree (latin1.Ends latin1.value c c') (whitespace c) (whitespace c') :=
  (latin1.blanks hc).bind fun _ _ hq => agree_accept hc .null hq

/-! ### Runs of items -/

include hc hlook in
/-- Both take an expected stretch, or miss it. -/
theorem agree_literal {expected : Value} (h : expected.IsRun) :
    latin1.Agree (latin1.Ends latin1.value c c') (literal expected look c)
      (literal expected look c') := by
  refine (agree_eq (Eq.refl expected.length)).bind ?_
  rintro size _ rfl
  cases hforms : expected.variants with
  | error f => exact Tolerance.agree_error trivial
  | ok forms =>
    have hpos : c.pos + size = c'.pos + size := congrArg (· + size) (latin1.reaches_start hc)
    refine (agree_stretch hc hpos).bind ?_
    rintro _ _ ⟨bs, rfl, rfl⟩
    -- The forms of what is expected do not depend on the input, so both stretches are looked up
    -- among the same.
    have hlength : (Value.text (decode bs)).length? = (Value.octets .fixed bs).length? :=
      congrArg some (List.length_map ofByte)
    rw [hlook _ rfl, hlook _ rfl, hlength, Value.isMember_variants h hforms]
    by_cases hfits : (Value.octets .fixed bs).length? = some size ∧
      (Value.octets .fixed bs).isMember forms = true
    · rw [if_pos hfits, if_pos hfits]
      exact agree_accept hc (Value.encodesAs_decode bs) hpos
    · rw [if_neg hfits, if_neg hfits]
      exact agree_reject hc

include hc in
/-- Both go up to a needle, or miss it. -/
theorem agree_upTo {needle : Value} (h : needle.IsNeedle) :
    latin1.Agree (latin1.Ends latin1.value c c') (upTo needle look c) (upTo needle look c') := by
  have hlocate : locate c.items needle c.pos look = locate c'.items needle c'.pos look := by
    obtain ⟨bs, pos, depth, limit⟩ := hc
    exact locate_latin1 bs h pos look
  refine (agree_eq hlocate).bind ?_
  rintro found _ rfl
  cases found with
  | none => exact agree_reject hc
  | some e => exact (agree_slice hc rfl).bind fun _ _ hv => agree_accept hc hv rfl

include hc in
/-- Both go up to the bytes that are looked for, or miss them. -/
theorem agree_scan (mode : ScanMode) (finders : List Finder) :
    latin1.Agree (latin1.Ends latin1.value c c') (scan mode finders look c)
      (scan mode finders look c') := by
  have hfind : Search.find? c.items c.pos finders look =
      Search.find? c'.items c'.pos finders look := by
    obtain ⟨bs, pos, depth, limit⟩ := hc
    exact Search.find?_latin1 bs pos finders look
  refine (agree_eq hfind).bind ?_
  rintro found _ rfl
  cases found with
  | none => exact agree_reject hc
  | some i =>
    have hdistance : Value.EncodesAs (.int ((i : Int) - c.pos)) (.int ((i : Int) - c'.pos)) := by
      rw [show c.pos = c'.pos from latin1.reaches_start hc]
      exact .int _
    cases mode with
    | through => exact agree_accept hc hdistance rfl
    | before => exact agree_accept hc hdistance rfl
    | stretch => exact (agree_slice hc rfl).bind fun _ _ hv => agree_accept hc hv rfl

/-! ### Numbers -/

include hc hlook in
/-- Both read one numeral. -/
theorem agree_numeral? (signed : Bool) (kind : Option IntKind) :
    latin1.Agree (· = ·) (numeral? c.items c.pos signed kind look)
      (numeral? c'.items c'.pos signed kind look) := by
  obtain ⟨bs, pos, depth, limit⟩ := hc
  exact agree_eq (numeral?_latin1 bs hlook pos signed kind)

include hc hlook in
/-- Both read one integer, or the same fault. -/
theorem agree_integer (signed : Bool) (kind : Option IntKind) :
    latin1.Agree (latin1.Ends latin1.value c c') (integer signed kind look c)
      (integer signed kind look c') := by
  refine (agree_numeral? hc hlook signed kind).bind ?_
  rintro n _ rfl
  cases n with
  | none => exact agree_reject hc
  | some n => exact agree_accept hc (.int _) (congrArg (· + n.width) (latin1.reaches_start hc))

include hc hlook in
/-- Both read one number with a fraction, or the same fault. -/
theorem agree_decimal (kind : Option IntKind) :
    latin1.Agree (latin1.Ends latin1.value c c') (decimal kind look c) (decimal kind look c') := by
  refine (agree_numeral? hc hlook true kind).bind ?_
  rintro n _ rfl
  cases n with
  | none => exact agree_reject hc
  | some n =>
    have hstop : c.pos + n.width = c'.pos + n.width :=
      congrArg (· + n.width) (latin1.reaches_start hc)
    have hfraction : fraction c.items (c.pos + n.width) look =
        fraction c'.items (c'.pos + n.width) look := by
      obtain ⟨bs, pos, depth, limit⟩ := hc
      exact fraction_latin1 bs hlook _
    refine (agree_eq hfraction).bind ?_
    rintro ds _ rfl
    -- Without digits behind it the point is not consumed.
    cases ds with
    | nil => exact agree_accept hc (.float _) hstop
    | cons d ds => exact agree_accept hc (.float _) (congrArg (· + 1 + (d :: ds).length) hstop)

end Leaf
end Itemwise
