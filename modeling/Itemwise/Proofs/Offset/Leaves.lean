import Itemwise.Proofs.Offset.Inputs
import Itemwise.Proofs.Run.Leaves
import Itemwise.Proofs.Run.Same

namespace Itemwise

/-!
# Leaves on an input and on what is left of it

* `Offset.Meets` — a context over an input, and the same one over what is left of it;
* `Coupling.offset` — the runs of one parser in both, of which the first is always as far ahead as
  it started;
* `Parser.IgnoresPosition` — the parsers that do not tell where they are;
* `Parser.agree_leaf?_offset` — every such leaf comes to the same in both.

A leaf looks at items one after the other, so what it comes to is within the input that it is run
on; this is what keeps a position from being refused in the one run and not in the other.
-/

/-- The same context over an input and over what is left of it after `k` items, where everything
    stands that much earlier. -/
inductive Offset.Meets (xs : Items) (k : Nat) : Context → Context → Prop
  | mk (pos : Nat) (depth : Int) (limit : Limit) (h : k + pos ≤ xs.size) :
    Meets xs k ⟨.sequence xs, k + pos, depth, limit⟩ ⟨.sequence (xs.drop k), pos, depth, limit⟩

namespace Offset.Meets

variable {xs : Items} {k : Nat} {c c' : Context}

/-- The positions of the two runs differ by the items that are left out. -/
theorem pos_eq (h : Offset.Meets xs k c c') : c.pos = k + c'.pos := by
  obtain ⟨pos, depth, limit, -⟩ := h
  rfl

/-- So do the sizes of their inputs. -/
theorem size_eq (h : Offset.Meets xs k c c') : c.items.size = k + c'.items.size := by
  obtain ⟨pos, depth, limit, hpos⟩ := h
  rw [Input.size_sequence, Input.size_sequence, Items.size_drop]
  omega

/-- Both contexts are within their input. -/
theorem pos_le (h : Offset.Meets xs k c c') : c'.pos ≤ c'.items.size := by
  obtain ⟨pos, depth, limit, hpos⟩ := h
  rw [Input.size_sequence, Items.size_drop]
  show pos ≤ xs.size - k
  omega

/-- They still do after both have moved on. -/
theorem moveTo (h : Offset.Meets xs k c c') {q : Nat} (hq : q ≤ c'.items.size) :
    Offset.Meets xs k (c.moveTo (k + q)) (c'.moveTo q) := by
  have hsize := h.size_eq
  obtain ⟨pos, depth, limit, hpos⟩ := h
  rw [Input.size_sequence] at hsize
  exact ⟨q, depth, limit, by omega⟩

/-- Both see one item. -/
theorem item?_eq (h : Offset.Meets xs k c c') : c.item? = c'.item? := by
  obtain ⟨pos, depth, limit, -⟩ := h
  exact congrArg Except.ok (Items.get?_drop xs k pos).symm

/-- Both have consumed one slice. -/
theorem sliceTo_eq (h : Offset.Meets xs k c c') (q : Nat) : c.sliceTo (k + q) = c'.sliceTo q := by
  obtain ⟨pos, depth, limit, -⟩ := h
  exact congrArg Except.ok (Items.slice_drop xs k pos q).symm

/-- White space ends that much earlier for the second one. -/
theorem skipBlanks_eq (h : Offset.Meets xs k c c') :
    Leaf.skipBlanks c.items c.pos = (Leaf.skipBlanks c'.items c'.pos).map (k + ·) := by
  obtain ⟨pos, depth, limit, -⟩ := h
  exact Leaf.skipBlanks_drop xs k pos

end Offset.Meets

/-- What is a function of the other's result is related to it, as far as that result is known. -/
theorem Tolerance.agree_map {T : Tolerance} (hT : ∀ f, T.shared f) {α β : Type} {a : Except Fault α}
    {b : Except Fault β} {f : β → α} {Q : β → Prop} (h : a = b.map f)
    (hb : Yields (fun _ => True) Q b) :
    T.Agree (fun x y => x = f y ∧ Q y) a b := by
  obtain rfl := h
  cases b with
  | ok y => exact Tolerance.agree_ok ⟨rfl, hb⟩
  | error e => exact Tolerance.agree_error (hT e)

/-- What both ask alike has one result. -/
theorem Tolerance.agree_of_eq {T : Tolerance} (hT : ∀ f, T.shared f) {α : Type}
    {a b : Except Fault α} {Q : α → Prop} (h : a = b) (hb : Yields (fun _ => True) Q b) :
    T.Agree (fun x y => x = y ∧ Q y) a b := by
  refine T.agree_map hT (f := id) ?_ hb
  rw [h]
  cases b <;> rfl

/-- The runs of a parser on an input and on what is left of it after `k` items. -/
def Coupling.offset (xs : Items) (k : Nat) : Coupling where
  shared _ := True
  excused _ := False
  meets := Offset.Meets xs k
  value v v' := v = v'
  reaches _ c' q q' := q = k + q' ∧ c'.Reaches q'
  fails _ _ x x' := ∃ n, x = .position (k + n) ∧ x' = .position n
  endless := trivial
  null := rfl
  reaches_start h := ⟨h.pos_eq, Nat.le_refl _, h.pos_le⟩
  meets_moveTo := by
    rintro c c' _ q h ⟨rfl, -, hq⟩
    exact h.moveTo hq
  reaches_trans := by
    rintro c c' q q' _ r ⟨-, hq, -⟩ ⟨rfl, hr, hsize⟩
    exact ⟨rfl, Nat.le_trans hq hr, hsize⟩
  fails_position := by
    rintro c c' _ q ⟨rfl, -⟩
    exact ⟨q, rfl, rfl⟩
  fails_trans _ h := h
  lt_iff := by
    rintro c c' _ q _ r ⟨rfl, -⟩ ⟨rfl, -⟩
    exact Nat.add_lt_add_iff_left
  isAt_eq := by
    rintro c c' _ _ h ⟨n, rfl, rfl⟩
    rw [h.pos_eq, Place.isAt_position, Place.isAt_position]
    simp
  precedes_eq := by
    rintro c c' _ _ _ _ ⟨m, rfl, rfl⟩ ⟨n, rfl, rfl⟩
    simp
  rounds := by
    refine .inr ?_
    rintro c c' _ q h ⟨rfl, hq, hsize⟩
    refine ⟨⟨?_, ?_⟩, hq, hsize⟩
    · rw [h.pos_eq]
      exact Nat.add_le_add_left hq k
    · rw [h.size_eq]
      exact Nat.add_le_add_left hsize k
  slice := by
    rintro c c' _ q h ⟨rfl, -⟩
    rw [h.sliceTo_eq]
    exact Tolerance.agree_refl (fun _ => rfl) (fun _ => trivial) _
  blanks h := Tolerance.agree_map (fun _ => trivial) h.skipBlanks_eq
    (Leaf.yields_skipBlanks (fun _ _ => trivial) _ h.pos_le)

namespace Leaf

open Coupling

variable {xs : Items} {k : Nat} {c c' : Context} (hc : (offset xs k).meets c c')

/-! ### Ends of leaves -/

include hc in
/-- Both are rejected where they are. -/
theorem agree_reject_offset :
    (offset xs k).Agree ((offset xs k).Ends (offset xs k).value c c') (reject c) (reject c') :=
  Tolerance.agree_ok (ends_start hc)

include hc in
/-- Both accept one value, the second one that much earlier. -/
theorem agree_accept_offset (v : Value) {q q' : Nat} (hq : q = k + q') (hahead : c'.Reaches q') :
    (offset xs k).Agree ((offset xs k).Ends (offset xs k).value c c') (accept c v q)
    (accept c' v q') := by
  have hle : q ≤ c.items.size := by
    rw [hq, hc.size_eq]
    exact Nat.add_le_add_left hahead.2 k
  rw [accept_of_le v hle, accept_of_le v hahead.2]
  exact Tolerance.agree_ok (.success rfl ⟨hq, hahead⟩)

include hc in
/-- A stretch is the same, and so is whatever is made of it. -/
theorem agree_stretch_offset {α : Type} {R : α → α → Prop} (q : Nat) {l l' : Value → Except Fault α}
    (h : ∀ v, (offset xs k).Agree R (l v) (l' v)) :
    (offset xs k).Agree R (c.sliceTo (k + q) >>= l) (c'.sliceTo q >>= l') := by
  rw [hc.sliceTo_eq]
  refine (Tolerance.agree_refl (R := (· = ·)) (fun _ => rfl) (fun _ => trivial) _).bind ?_
  rintro v _ rfl
  exact h v

/-! ### Single items -/

include hc in
/-- Both take the next item alike, or miss it. -/
theorem agree_satisfy_offset (test : Value → Except Fault Bool) (look : Value → Value) :
    (offset xs k).Agree ((offset xs k).Ends (offset xs k).value c c') (satisfy test look c)
    (satisfy test look c') := by
  refine (Tolerance.agree_of_eq (fun _ => trivial) hc.item?_eq
    (c'.items.yields_item? (fun _ _ => trivial) c'.pos)).bind ?_
  rintro item _ ⟨rfl, hahead⟩
  cases item with
  | none => exact agree_reject_offset hc
  | some v =>
    refine (Tolerance.agree_refl (R := (· = ·)) (fun _ => rfl) (fun _ => trivial)
      (test (look v))).bind ?_
    rintro pass _ rfl
    cases pass with
    | false => exact agree_reject_offset hc
    | true =>
      refine agree_accept_offset hc v ?_ ⟨Nat.le_succ _, hahead rfl⟩
      rw [hc.pos_eq, Nat.add_assoc]

include hc in
/-- Both take whatever item comes next. -/
theorem agree_anyItem_offset :
    (offset xs k).Agree ((offset xs k).Ends (offset xs k).value c c') (anyItem c) (anyItem c') := by
  refine (Tolerance.agree_of_eq (fun _ => trivial) hc.item?_eq
    (c'.items.yields_item? (fun _ _ => trivial) c'.pos)).bind ?_
  rintro item _ ⟨rfl, hahead⟩
  cases item with
  | none => exact agree_reject_offset hc
  | some v =>
    refine agree_accept_offset hc v ?_ ⟨Nat.le_succ _, hahead rfl⟩
    rw [hc.pos_eq, Nat.add_assoc]

include hc in
/-- Both runs are at the end, or neither is. -/
theorem size_le_pos_iff_offset : c.items.size ≤ c.pos ↔ c'.items.size ≤ c'.pos := by
  rw [hc.size_eq, hc.pos_eq]
  exact Nat.add_le_add_iff_left

include hc in
/-- Both yield a value where they are. -/
theorem agree_here_offset (v : Value) :
    (offset xs k).Agree ((offset xs k).Ends (offset xs k).value c c') (.ok (.success v c.pos))
    (.ok (.success v c'.pos)) :=
  Tolerance.agree_ok (.success rfl ((offset xs k).reaches_start hc))

include hc in
/-- Both are at the end, or both are not. -/
theorem agree_eof_offset :
    (offset xs k).Agree ((offset xs k).Ends (offset xs k).value c c') (eof c) (eof c') := by
  have hend := size_le_pos_iff_offset hc
  unfold eof
  by_cases h : c.items.size ≤ c.pos
  · rw [if_pos h, if_pos (hend.mp h)]
    exact agree_here_offset hc .null
  · rw [if_neg h, if_neg fun h' => h (hend.mpr h')]
    exact agree_reject_offset hc

/-! ### Stretches -/

include hc in
/-- Both take all that is left. -/
theorem agree_rest_offset :
    (offset xs k).Agree ((offset xs k).Ends (offset xs k).value c c') (Leaf.rest c)
    (Leaf.rest c') := by
  unfold Leaf.rest
  rw [hc.size_eq]
  exact agree_stretch_offset hc _ fun v => agree_accept_offset hc v rfl ⟨hc.pos_le, Nat.le_refl _⟩

include hc in
/-- Both yield a slice without items. -/
theorem agree_empty_offset :
    (offset xs k).Agree ((offset xs k).Ends (offset xs k).value c c') (empty c) (empty c') := by
  have hend := size_le_pos_iff_offset hc
  unfold empty
  by_cases h : c.items.size ≤ c.pos
  · rw [if_pos h, if_pos (hend.mp h), hc.size_eq]
    exact agree_stretch_offset hc _ fun v => agree_here_offset hc v
  · rw [if_neg h, if_neg fun h' => h (hend.mpr h')]
    exact agree_reject_offset hc

include hc in
/-- Both skip as much white space. -/
theorem agree_whitespace_offset :
    (offset xs k).Agree ((offset xs k).Ends (offset xs k).value c c') (whitespace c)
    (whitespace c') :=
  ((offset xs k).blanks hc).bind fun _ _ hq => agree_accept_offset hc .null hq.1 hq.2

include hc in
/-- Both take the items that pass a test. -/
theorem agree_itemWhile_offset (test : Value → Except Fault Bool) (look : Value → Value) :
    (offset xs k).Agree ((offset xs k).Ends (offset xs k).value c c') (itemWhile test look c)
    (itemWhile test look c') := by
  have hremaining : c.remaining = c'.remaining := by
    show c.items.size - c.pos = c'.items.size - c'.pos
    rw [hc.size_eq, hc.pos_eq, Nat.add_sub_add_left]
  have hscan : scanWhile c.items (fun v => test (look v)) c.remaining c.pos =
      (scanWhile c'.items (fun v => test (look v)) c'.remaining c'.pos).map (k + ·) := by
    rw [hremaining]
    obtain ⟨pos, depth, limit, -⟩ := hc
    exact scanWhile_drop xs k _ _ pos
  have htest : ∀ v, Raises (fun _ => True) (test (look v)) :=
    fun v => raises_iff.mpr fun _ _ => trivial
  have hstop := yields_scanWhile (fun _ _ => trivial) htest c'.items c'.remaining c'.pos
  refine (Tolerance.agree_map (fun _ => trivial) hscan hstop).bind ?_
  rintro _ q ⟨rfl, hlow, hhigh⟩
  refine agree_stretch_offset hc q fun v => agree_accept_offset hc v rfl ⟨hlow, ?_⟩
  -- No more items are looked at than are left.
  have hpos := hc.pos_le
  have hleft : c'.remaining = c'.items.size - c'.pos := rfl
  omega

include hc in
/-- Both take an expected stretch, or miss it. -/
theorem agree_literal_offset (expected : Value) (look : Value → Value) :
    (offset xs k).Agree ((offset xs k).Ends (offset xs k).value c c') (literal expected look c)
    (literal expected look c') := by
  unfold literal
  cases expected.length with
  | error f => exact Tolerance.agree_error trivial
  | ok size =>
    cases expected.variants with
    | error f => exact Tolerance.agree_error trivial
    | ok forms =>
      have hq : c.pos + size = k + (c'.pos + size) := by rw [hc.pos_eq, Nat.add_assoc]
      have hslice : c.sliceTo (c.pos + size) = c'.sliceTo (c'.pos + size) := by
        rw [hq, hc.sliceTo_eq]
      simp only [Step.ok_bind]
      refine (Tolerance.agree_of_eq (fun _ => trivial) hslice
        (c'.items.yields_slice (fun _ _ => trivial) hc.pos_le)).bind ?_
      rintro chunk _ ⟨rfl, hahead⟩
      by_cases h : chunk.length? = some size ∧ (look chunk).isMember forms = true
      · rw [if_pos h, if_pos h]
        exact agree_accept_offset hc chunk hq ⟨Nat.le_add_right _ _, hahead h.1⟩
      · rw [if_neg h, if_neg h]
        exact agree_reject_offset hc

/-! ### Needles and bytes -/

include hc in
/-- Both go up to a needle, or miss it. -/
theorem agree_upTo_offset (needle : Value) (look : Value → Value) :
    (offset xs k).Agree ((offset xs k).Ends (offset xs k).value c c') (upTo needle look c)
    (upTo needle look c') := by
  have hlocate : locate c.items needle c.pos look =
      (locate c'.items needle c'.pos look).map (Option.map fun e => (k + e.1, e.2)) := by
    obtain ⟨pos, depth, limit, hpos⟩ := hc
    exact locate_drop (by omega) needle pos look
  refine (Tolerance.agree_map (fun _ => trivial) hlocate
    (yields_locate (fun _ _ => trivial) c'.items needle hc.pos_le look)).bind ?_
  rintro _ found ⟨rfl, hlies⟩
  cases found with
  | none => exact agree_reject_offset hc
  | some e =>
    obtain ⟨i, width⟩ := e
    have hbounds := hlies i width rfl
    exact agree_stretch_offset hc i fun v =>
      agree_accept_offset hc v (Nat.add_assoc k i width) ⟨by omega, hbounds.2⟩

include hc in
/-- Both go up to the bytes that are looked for, or miss them. -/
theorem agree_scan_offset (mode : ScanMode) (finders : List Finder) (look : Value → Value) :
    (offset xs k).Agree ((offset xs k).Ends (offset xs k).value c c') (scan mode finders look c)
    (scan mode finders look c') := by
  have hfind : Search.find? c.items c.pos finders look =
      (Search.find? c'.items c'.pos finders look).map (Option.map (k + ·)) := by
    obtain ⟨pos, depth, limit, -⟩ := hc
    exact Search.find?_drop xs k pos finders look
  refine (Tolerance.agree_map (fun _ => trivial) hfind
    (yields_find? (fun _ _ => trivial) c'.items hc.pos_le finders look)).bind ?_
  rintro _ found ⟨rfl, hahead⟩
  cases found with
  | none => exact agree_reject_offset hc
  | some i =>
    obtain ⟨hlow, hhigh⟩ := hahead i rfl
    have hdistance : ((k + i : Nat) : Int) - c.pos = (i : Int) - c'.pos := by
      rw [hc.pos_eq]
      omega
    cases mode with
    | through =>
      simp only [Option.map_some, hdistance]
      exact agree_accept_offset hc _ (Nat.add_assoc k i 1) ⟨Nat.le_succ_of_le hlow, hhigh⟩
    | before =>
      simp only [Option.map_some, hdistance]
      exact agree_accept_offset hc _ rfl ⟨hlow, Nat.le_of_lt hhigh⟩
    | stretch =>
      exact agree_stretch_offset hc i fun v =>
        agree_accept_offset hc v rfl ⟨hlow, Nat.le_of_lt hhigh⟩

/-! ### Numbers -/

include hc in
/-- Both read one numeral, which does not reach beyond the end. -/
theorem agree_numeral?_offset (signed : Bool) (kind : Option IntKind) (look : Value → Value) :
    (offset xs k).Agree (fun o o' => o = o' ∧ ∀ n, o' = some n → c'.pos + n.width ≤ c'.items.size)
      (numeral? c.items c.pos signed kind look) (numeral? c'.items c'.pos signed kind look) := by
  have hnumeral : numeral? c.items c.pos signed kind look =
      numeral? c'.items c'.pos signed kind look := by
    obtain ⟨pos, depth, limit, -⟩ := hc
    exact numeral?_drop xs k pos signed kind look
  exact Tolerance.agree_of_eq (fun _ => trivial) hnumeral
    (yields_numeral? (fun _ _ => trivial) c'.items hc.pos_le signed kind look)

include hc in
/-- Both read one integer, or the same fault. -/
theorem agree_integer_offset (signed : Bool) (kind : Option IntKind) (look : Value → Value) :
    (offset xs k).Agree ((offset xs k).Ends (offset xs k).value c c') (integer signed kind look c)
      (integer signed kind look c') := by
  refine (agree_numeral?_offset hc signed kind look).bind ?_
  rintro o _ ⟨rfl, hwidth⟩
  cases o with
  | none => exact agree_reject_offset hc
  | some n =>
    refine agree_accept_offset hc _ ?_ ⟨Nat.le_add_right _ _, hwidth n rfl⟩
    rw [hc.pos_eq, Nat.add_assoc]

include hc in
/-- Both read one number with a fraction, or the same fault. -/
theorem agree_decimal_offset (kind : Option IntKind) (look : Value → Value) :
    (offset xs k).Agree ((offset xs k).Ends (offset xs k).value c c') (decimal kind look c)
    (decimal kind look c') := by
  refine (agree_numeral?_offset hc true kind look).bind ?_
  rintro o _ ⟨rfl, hwidth⟩
  cases o with
  | none => exact agree_reject_offset hc
  | some n =>
    have hstop := hwidth n rfl
    have hfraction : fraction c.items (c.pos + n.width) look =
        fraction c'.items (c'.pos + n.width) look := by
      obtain ⟨pos, depth, limit, -⟩ := hc
      rw [Nat.add_assoc]
      exact fraction_drop xs k (pos + n.width) look
    refine (Tolerance.agree_of_eq (fun _ => trivial) hfraction
      (yields_fraction (fun _ _ => trivial) c'.items (c'.pos + n.width) look)).bind ?_
    rintro ds _ ⟨rfl, hdigits⟩
    cases ds with
    | nil =>
      refine agree_accept_offset hc _ ?_ ⟨Nat.le_add_right _ _, hstop⟩
      rw [hc.pos_eq, Nat.add_assoc]
    | cons d ds =>
      refine agree_accept_offset hc _ ?_ ⟨by omega, hdigits (List.cons_ne_nil d ds)⟩
      rw [hc.pos_eq]
      omega

end Leaf

/-! ### All leaves -/

/-- The parser does not tell where in the input it is, and is no step of a caller's own. -/
def Parser.IgnoresPosition {σ : Type} : Parser σ → Prop
  | .position | .raw .. | .measure .span _ => False
  | _ => True

/-- **Leaves only look at what is left.** What a leaf finds does not depend on where the input
    began. -/
theorem Parser.agree_leaf?_offset {σ : Type} {p : Parser σ} {l : (Value → Value) → Leaf}
    (hp : p.IgnoresPosition) (hl : p.leaf? = some l) (look : Value → Value) {xs : Items} {k : Nat}
    {c c' : Context} (hc : (Coupling.offset xs k).meets c c') :
    (Coupling.offset xs k).Agree ((Coupling.offset xs k).Ends (Coupling.offset xs k).value c c')
    (l look c) (l look c') := by
  cases p with
  | anyItem => cases hl; exact Leaf.agree_anyItem_offset hc
  | item expected => cases hl; exact Leaf.agree_satisfy_offset hc _ look
  | satisfy p => cases hl; exact Leaf.agree_satisfy_offset hc _ look
  | oneOf patterns compiled => cases hl; exact Leaf.agree_satisfy_offset hc _ look
  | literal expected => cases hl; exact Leaf.agree_literal_offset hc expected look
  | itemWhile p => cases hl; exact Leaf.agree_itemWhile_offset hc _ look
  | upTo needle => cases hl; exact Leaf.agree_upTo_offset hc needle look
  | scan mode finders => cases hl; exact Leaf.agree_scan_offset hc mode finders look
  | rest => cases hl; exact Leaf.agree_rest_offset hc
  | eof => cases hl; exact Leaf.agree_eof_offset hc
  | empty => cases hl; exact Leaf.agree_empty_offset hc
  | position => exact hp.elim
  | const v => cases hl; exact Leaf.agree_here_offset hc v
  | failure => cases hl; exact Leaf.agree_reject_offset hc
  | integer signed kind => cases hl; exact Leaf.agree_integer_offset hc signed kind look
  | decimal kind => cases hl; exact Leaf.agree_decimal_offset hc kind look
  | whitespace => cases hl; exact Leaf.agree_whitespace_offset hc
  | _ => cases hl

end Itemwise
