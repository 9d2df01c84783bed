import Itemwise.Proofs.Number.Integers

namespace Itemwise

/-!
# Decimal numbers

A decimal number is converted from its text: the sign, the digits, and a fraction if a digit follows
the point.

* `Fraction` — the fraction that some items begin with;
* `Leaf.decimal_eq` — the outcome of a decimal parser from the sign, the digits and the fraction
  that stand there;
* `NumberText` — the text of the number that some items begin with;
* `SameCodes` — items of the same codes in different forms, which begin with numbers of the same
  text;
* `Parser.run_decimal_text` — the value is that of the text, whatever items it is given as.
-/

open Value

/-- The fraction that some items begin with: there is none unless a digit follows the point. -/
inductive Fraction (isPoint : Value → Prop) : List Char → List Value → Prop
  | none {vs : List Value} : (∀ p vs', vs = p :: vs' → isPoint p → NoDigit vs') →
    Fraction isPoint [] vs
  | point {p : Value} {vs : List Value} {ds : List Char} {rest : List Value} :
    isPoint p → DigitRun ds vs rest → ds ≠ [] →
    Fraction isPoint ('.' :: ds) (p :: vs)

/-- Some items begin with a fraction or with none, which is one as well. -/
theorem exists_fraction (isPoint : Value → Prop) (vs : List Value) :
    ∃ f, Fraction isPoint f vs := by
  by_cases h : ∃ p vs', vs = p :: vs' ∧ isPoint p ∧ ¬ NoDigit vs'
  · obtain ⟨p, vs', rfl, hpoint, hdigit⟩ := h
    obtain ⟨ds, rest, hrun⟩ := exists_digitRun vs'
    refine ⟨'.' :: ds, .point hpoint hrun ?_⟩
    rintro rfl
    cases hrun with
    | stop hstop => exact hdigit hstop
  · refine ⟨[], .none fun p vs' hvs hpoint => Classical.byContradiction
      fun hdigit => h ⟨p, vs', hvs, hpoint, hdigit⟩⟩

/-- A fraction is no longer than the items it is read from. -/
theorem Fraction.length_le {isPoint : Value → Prop} {f : List Char} {vs : List Value}
    (h : Fraction isPoint f vs) :
    f.length ≤ vs.length := by
  cases h with
  | none => exact Nat.zero_le _
  | point _ hrun _ =>
    have hlength := hrun.length_eq
    simp only [List.length_cons]
    omega

/-- A fraction is empty or begins with the point. -/
theorem Fraction.eq_of_mem_head? {isPoint : Value → Prop} {f : List Char} {vs : List Value}
    (h : Fraction isPoint f vs) :
    ∀ d ∈ f.head?, d = '.' := by
  cases h with
  | none => exact nofun
  | point => exact fun d hd => (Option.mem_some_iff.mp hd).symm

/-- It does not matter how a point is told where all that may be one is told alike. -/
theorem Fraction.congr {isPoint isPoint' : Value → Prop} {f : List Char} {vs : List Value}
    (hvs : ∀ v ∈ vs.head?, isPoint v ↔ isPoint' v) (h : Fraction isPoint f vs) :
    Fraction isPoint' f vs := by
  cases h with
  | none hnone =>
    refine .none fun p vs' heq hpoint => hnone p vs' heq ?_
    subst heq
    exact (hvs p rfl).mpr hpoint
  | point hpoint hrun hne => exact .point ((hvs _ rfl).mp hpoint) hrun hne

/-! ### Outcomes -/

namespace Leaf

/-- Whether an item counts as a decimal point in a user state. -/
def IsPoint (look : Value → Value) (v : Value) : Prop := (look v).isMember pointForms = true

variable {items : Items} {c : Context} {look : Value → Value} {negative : Bool} {ds f : List Char}
  {vs rest : List Value}

/-- The fraction of an input is the one that the items at its point begin with. -/
theorem fraction_eq {pos : Nat} (h : Fraction (IsPoint look) f (items.toList.drop pos)) :
    fraction items pos look = .ok (f.tail.map digitValue) := by
  unfold fraction
  rw [Input.item?_sequence, Step.ok_bind, Items.get?_eq_head?_drop]
  generalize hat : items.toList.drop pos = us at h
  have hnext : items.toList.drop (pos + 1) = us.tail := by rw [← List.tail_drop, hat]
  cases h with
  | none hnone =>
    by_cases hpoint : us.head?.any (fun v => (look v).isMember pointForms) = true
    · -- the point has no digit behind it
      have hstop : DigitRun [] (items.toList.drop (pos + 1)) us.tail := by
        rw [hnext]
        cases us with
        | nil => cases hpoint
        | cons p us => exact .stop (hnone p us rfl hpoint)
      rw [if_pos hpoint]
      exact digitRun_eq hstop
    · rw [if_neg hpoint]
      rfl
  | @point p vs ds rest hpoint hrun hne =>
    have hany : (p :: vs).head?.any (fun v => (look v).isMember pointForms) = true := hpoint
    have hdigits : DigitRun ds (items.toList.drop (pos + 1)) rest := by
      rw [hnext]
      exact hrun
    rw [if_pos hany]
    exact digitRun_eq hdigits

/-- The digits of a number are written as they were read. -/
theorem digitText_map_digitValue {ds : List Char} (hds : ∀ c ∈ ds, c.isDigit = true) :
    digitText (ds.map digitValue) = ds := by
  unfold digitText
  rw [List.map_map]
  refine (List.map_congr_left fun c hc => ?_).trans ds.map_id
  have hbounds := Decimal.toNat_bounds (hds c hc)
  have hzero : '0'.toNat = 48 := rfl
  have hcode : 0x30 + digitValue c = c.toNat := by
    unfold digitValue
    omega
  show Char.ofNat (0x30 + digitValue c) = c
  rw [hcode, Char.ofNat_toNat]

/-- Behind a number are the items that its digits leave. -/
theorem drop_of_digitRun {isMinus : Value → Prop} {signed : Bool} {us : List Value}
    (hsign : Sign isMinus signed negative us vs) (hrun : DigitRun ds vs rest) :
    us.drop (signText negative ++ ds).length = rest := by
  cases hsign with
  | minus => exact hrun.drop_eq
  | plain => exact hrun.drop_eq

/-- **The outcome of a decimal parser.** It is past the digits and the fraction that stand there if
    there are digits and the integer before the point fits, and fails where it started otherwise. -/
theorem decimal_eq (hitems : c.items = .sequence items) (kind : Option IntKind)
    (hsign : Sign (IsMinus look) true negative (items.toList.drop c.pos) vs)
    (hrun : DigitRun ds vs rest) (hfraction : Fraction (IsPoint look) f rest) :
    decimal kind look c =
      .ok (if ds = [] then .failure c.pos
        else bounded (signedValue negative ds)
          (.float (Reading.float (signText negative ++ ds ++ f))) c.pos
          (c.pos + (signText negative ++ ds ++ f).length) kind) := by
  unfold decimal
  rw [hitems, numeral?_eq kind hsign hrun, Step.ok_bind]
  by_cases hds : ds = []
  · rw [if_pos hds, if_pos hds]
    rfl
  · rw [if_neg hds, if_neg hds, bounded]
    by_cases hfits : kind.all (·.fits (signedValue negative ds)) = true
    · have hsize := le_size_of_digitRun hsign hrun hds
      have hle := hfraction.length_le
      have hstop : c.pos + (signText negative ++ ds ++ f).length ≤ c.items.size := by
        rw [hitems, Input.size_sequence, List.length_append]
        omega
      have hrest : items.toList.drop (c.pos + (signText negative ++ ds).length) = rest := by
        rw [← List.drop_drop, drop_of_digitRun hsign hrun]
      have hread : fraction items (c.pos + (signText negative ++ ds).length) look =
          .ok (f.tail.map digitValue) :=
        fraction_eq (hrest.symm ▸ hfraction)
      have htext : signText negative ++ digitText (ds.map digitValue) =
          signText negative ++ ds := by
        rw [digitText_map_digitValue hrun.isDigit]
      rw [if_pos hfits, if_pos hfits]
      show (fraction items (c.pos + (numeralOf negative ds).width) look >>= fun fs => _) = _
      rw [width_numeralOf, hread, Step.ok_bind]
      cases hfraction with
      | none =>
        rw [List.append_nil] at hstop ⊢
        show accept c (.float (Reading.float (signText negative ++ digitText (ds.map digitValue))))
            _ = _
        rw [htext, accept_of_le _ hstop]
      | @point p vs fs _ _ hfs hne =>
        have hlength : c.pos + (signText negative ++ ds).length + 1 + (fs.map digitValue).length =
            c.pos + (signText negative ++ ds ++ '.' :: fs).length := by
          simp only [List.length_map, List.length_append, List.length_cons]
          omega
        have haccept : accept c
            (.float (Reading.float (signText negative ++ digitText (ds.map digitValue) ++
              '.' :: digitText (fs.map digitValue))))
            (c.pos + (signText negative ++ ds).length + 1 + (fs.map digitValue).length) =
              .ok (.success (.float (Reading.float (signText negative ++ ds ++ '.' :: fs)))
                (c.pos + (signText negative ++ ds ++ '.' :: fs).length)) := by
          rw [htext, digitText_map_digitValue hfs.isDigit, hlength, accept_of_le _ hstop]
        -- the fraction that is read is not empty
        obtain ⟨d, fs', hcons⟩ := List.exists_cons_of_ne_nil fun h => hne (List.map_eq_nil_iff.mp h)
        rw [hcons] at haccept
        rw [List.tail_cons, hcons]
        exact haccept
    · rw [if_neg hfits, if_neg hfits]
      rfl

/-- A point is an item of its code, however the item is looked at. -/
theorem isPoint_iff {look : Value → Value} (hlook : ∀ v : Value, v.isPlain = true → look v = v)
    {n : Int} {v : Value} (hv : IsItemOf n v) : IsPoint look v ↔ IsItemOf '.'.toNat v := by
  unfold IsPoint
  rw [hlook v hv.isPlain]
  exact isMember_forms_iff (by decide) hv

end Leaf

/-! ### The text of a number -/

/-- The text of the number that some items begin with: a minus sign if there is one, all digits
    behind it, of which there is one at least, and the fraction. -/
inductive NumberText : List Char → List Value → Prop
  | intro {negative : Bool} {ds f : List Char} {us vs rest : List Value} :
    Sign (IsItemOf '-'.toNat) true negative us vs →
    DigitRun ds vs rest → ds ≠ [] → Fraction (IsItemOf '.'.toNat) f rest →
      NumberText (Leaf.signText negative ++ ds ++ f) us

/-- There is the text of a number where digits stand, perhaps behind a minus sign. -/
theorem exists_numberText_iff {us : List Value} :
    (∃ text, NumberText text us) ↔
      ∃ negative vs ds rest, Sign (IsItemOf '-'.toNat) true negative us vs ∧
        DigitRun ds vs rest ∧ ds ≠ [] := by
  constructor
  · rintro ⟨_, @⟨negative, ds, f, _, vs, rest, hsign, hrun, hds, -⟩⟩
    exact ⟨negative, vs, ds, rest, hsign, hrun, hds⟩
  · rintro ⟨negative, vs, ds, rest, hsign, hrun, hds⟩
    obtain ⟨f, hfraction⟩ := exists_fraction (IsItemOf '.'.toNat) rest
    exact ⟨_, .intro hsign hrun hds hfraction⟩

/-- Items of one code, perhaps in different forms. -/
def SameCode (v w : Value) : Prop := ∃ n, IsItemOf n v ∧ IsItemOf n w

/-- Values of one code are items of the same codes. -/
theorem SameCode.isItemOf_iff {v w : Value} (h : SameCode v w) (n : Int) :
    IsItemOf n v ↔ IsItemOf n w := by
  obtain ⟨m, hv, hw⟩ := h
  exact ⟨fun hn => hv.unique hn ▸ hw, fun hn => hw.unique hn ▸ hv⟩

/-- Values of one code are digits alike. -/
theorem SameCode.isDigit_iff {v w : Value} (h : SameCode v w) : v.IsDigit ↔ w.IsDigit :=
  exists_congr fun c => and_congr_right fun _ => h.isItemOf_iff c.toNat

section SameCodes

variable {us us' : List Value}

/-- What is made of items of codes has items with codes only. -/
theorem exists_code_of_mem {ns : List Int} (h : List.Forall₂ IsItemOf ns us) :
    ∀ v ∈ us, ∃ n, IsItemOf n v := by
  induction h with
  | nil => exact List.forall_mem_nil _
  | cons hv _ ih => exact List.forall_mem_cons.mpr ⟨⟨_, hv⟩, ih⟩

/-- Two such lists have one code in each place. -/
theorem sameCodes {ns : List Int} (h : List.Forall₂ IsItemOf ns us)
    (h' : List.Forall₂ IsItemOf ns us') :
    List.Forall₂ SameCode us us' := by
  induction h generalizing us' with
  | nil =>
    cases h'
    exact .nil
  | cons hv _ ih =>
    cases h' with
    | cons hw h' => exact .cons ⟨_, hv, hw⟩ (ih h')

/-- If no digit comes first in one of them, none does in the other. -/
theorem NoDigit.of_sameCodes (hus : List.Forall₂ SameCode us us') (h : NoDigit us) :
    NoDigit us' := by
  cases hus with
  | nil => exact h
  | cons hv _ =>
    intro w hw hdigit
    obtain rfl := Option.mem_some_iff.mp hw
    exact h _ rfl (hv.isDigit_iff.mpr hdigit)

/-- Digits that one of them begins with are those that the other one begins with. -/
theorem DigitRun.of_sameCodes {ds : List Char} {rest : List Value} (h : DigitRun ds us rest)
    (hus : List.Forall₂ SameCode us us') :
    ∃ rest', DigitRun ds us' rest' ∧ List.Forall₂ SameCode rest rest' := by
  induction h generalizing us' with
  | stop hstop => exact ⟨us', .stop (hstop.of_sameCodes hus), hus⟩
  | digit hc hv _ ih =>
    cases hus with
    | cons hw hus =>
      obtain ⟨rest', hrun, hrest⟩ := ih hus
      exact ⟨rest', .digit hc ((hw.isItemOf_iff _).mp hv) hrun, hrest⟩

/-- The same sign comes first in both. -/
theorem Sign.of_sameCodes {n : Int} {signed negative : Bool} {vs : List Value}
    (h : Sign (IsItemOf n) signed negative us vs) (hus : List.Forall₂ SameCode us us') :
    ∃ vs', Sign (IsItemOf n) signed negative us' vs' ∧ List.Forall₂ SameCode vs vs' := by
  cases h with
  | minus hsigned hminus =>
    cases hus with
    | cons hv hus => exact ⟨_, .minus hsigned ((hv.isItemOf_iff n).mp hminus), hus⟩
  | plain hplain =>
    refine ⟨us', .plain fun hsigned w hw hminus => ?_, hus⟩
    cases hus with
    | nil => cases hw
    | cons hv _ =>
      obtain rfl := Option.mem_some_iff.mp hw
      exact hplain hsigned _ rfl ((hv.isItemOf_iff n).mpr hminus)

/-- The same fraction comes first in both. -/
theorem Fraction.of_sameCodes {n : Int} {f : List Char} (h : Fraction (IsItemOf n) f us)
    (hus : List.Forall₂ SameCode us us') : Fraction (IsItemOf n) f us' := by
  cases h with
  | none hnone =>
    refine .none fun p' vs' heq hpoint => ?_
    subst heq
    cases hus with
    | cons hp hvs => exact (hnone _ _ rfl ((hp.isItemOf_iff n).mpr hpoint)).of_sameCodes hvs
  | point hpoint hrun hne =>
    cases hus with
    | cons hp hvs =>
      obtain ⟨rest', hrun', -⟩ := hrun.of_sameCodes hvs
      exact .point ((hp.isItemOf_iff n).mp hpoint) hrun' hne

/-- Items of the same codes begin with numbers of the same text. -/
theorem NumberText.of_sameCodes {text : List Char} (h : NumberText text us)
    (hus : List.Forall₂ SameCode us us') :
    NumberText text us' := by
  obtain ⟨hsign, hrun, hds, hfraction⟩ := h
  obtain ⟨vs', hsign', hvs⟩ := hsign.of_sameCodes hus
  obtain ⟨rest', hrun', hrest⟩ := hrun.of_sameCodes hvs
  exact .intro hsign' hrun' hds (hfraction.of_sameCodes hrest)

end SameCodes

/-- Inputs with the same codes have the same texts of numbers. -/
theorem numberText_iff_of_codes {ns : List Int} {us us' : List Value}
    (h : List.Forall₂ IsItemOf ns us) (h' : List.Forall₂ IsItemOf ns us') (text : List Char) :
    NumberText text us ↔ NumberText text us' :=
  ⟨fun ht => ht.of_sameCodes (sameCodes h h'), fun ht => ht.of_sameCodes (sameCodes h' h)⟩

/-! ### Numbers converted from their text -/

namespace Parser

open Leaf

variable {σ : Type} [Memory σ] (setting : Setting σ) {c : Context} {items : Items} {ns : List Int}

/-- The outcome of a decimal parser by the text of the number that stands there. -/
theorem run_decimal_of_codes (hitems : c.items = .sequence items)
    (hcodes : items.OfCodes ns) (s : σ) :
    (∀ text, NumberText text (items.toList.drop c.pos) →
      (Parser.decimal none).run setting c s =
        .ok (.success (.float (Reading.float text)) (c.pos + text.length)) s) ∧
    ((∀ text, ¬ NumberText text (items.toList.drop c.pos)) →
      (Parser.decimal none).run setting c s = .ok (.failure c.pos) s) := by
  have hlook := Memory.whole_of_isPlain s
  have hrun_eq : (Parser.decimal none).run setting c s =
      (Action.ofExcept (Leaf.decimal none (Memory.whole s) c) : Action σ _) s :=
        run_leaf setting rfl c s
  -- all items have codes, so that a minus sign and a point are told by theirs
  have hcoded := exists_code_of_mem hcodes.forall₂
  have hminus (v : Value) (hv : v ∈ (items.toList.drop c.pos).head?) :
      IsItemOf '-'.toNat v ↔ IsMinus (Memory.whole s) v := by
    obtain ⟨n, hn⟩ := hcoded v (List.mem_of_mem_drop (List.mem_of_mem_head? hv))
    exact (isMinus_iff hlook hn).symm
  constructor
  · rintro text @⟨negative, ds, f, _, vs, rest, hsign, hrun, hds, hfraction⟩
    have hpoint (v : Value) (hv : v ∈ rest.head?) : IsItemOf '.'.toNat v ↔
        IsPoint (Memory.whole s) v := by
      rw [← drop_of_digitRun hsign hrun] at hv
      obtain ⟨n, hn⟩ := hcoded v
        (List.mem_of_mem_drop (List.mem_of_mem_drop (List.mem_of_mem_head? hv)))
      exact (isPoint_iff hlook hn).symm
    rw [hrun_eq, decimal_eq hitems none (hsign.congr hminus) hrun (hfraction.congr hpoint),
      if_neg hds, bounded_none]
    rfl
  · intro hnone
    obtain ⟨negative, vs, hsign⟩ := exists_sign (IsItemOf '-'.toNat) true (items.toList.drop c.pos)
    obtain ⟨ds, rest, hrun⟩ := exists_digitRun vs
    obtain ⟨f, hfraction⟩ := exists_fraction (IsPoint (Memory.whole s)) rest
    -- with a digit there would be the text of a number
    have hds : ds = [] := Decidable.byContradiction fun hds => by
      obtain ⟨text, htext⟩ := exists_numberText_iff.mpr ⟨negative, vs, ds, rest, hsign, hrun, hds⟩
      exact hnone text htext
    rw [hrun_eq, decimal_eq hitems none (hsign.congr hminus) hrun hfraction, if_pos hds]
    rfl

/-- **A decimal number is converted from its text.** Where digits stand, perhaps behind a minus
    sign, the value is that of the sign, the digits and the fraction, and the position is past them;
    the parser fails at the start elsewhere.  An input of the same codes in any other form has the
    same text there, and the same outcome. -/
theorem run_decimal_text (hitems : c.items = .sequence items) (hcodes : items.OfCodes ns) (s : σ) :
    ((∃ text, NumberText text (items.toList.drop c.pos)) ↔
      ∃ negative vs ds rest, Sign (IsItemOf '-'.toNat) true negative (items.toList.drop c.pos) vs ∧
        DigitRun ds vs rest ∧ ds ≠ []) ∧
    (∀ text, NumberText text (items.toList.drop c.pos) →
      (Parser.decimal none).run setting c s =
        .ok (.success (.float (Reading.float text)) (c.pos + text.length)) s) ∧
    ((∀ text, ¬ NumberText text (items.toList.drop c.pos)) →
      (Parser.decimal none).run setting c s = .ok (.failure c.pos) s) ∧
    ∀ (c' : Context) (items' : Items), c'.items = .sequence items' → items'.OfCodes ns →
      c'.pos = c.pos → (∀ text, NumberText text (items.toList.drop c.pos) ↔
        NumberText text (items'.toList.drop c'.pos)) ∧
      (Parser.decimal none).run setting c' s = (Parser.decimal none).run setting c s := by
  obtain ⟨hsome, hnone⟩ := run_decimal_of_codes setting hitems hcodes s
  refine ⟨exists_numberText_iff, hsome, hnone, fun c' items' hitems' hcodes' hpos => ?_⟩
  obtain ⟨hsome', hnone'⟩ := run_decimal_of_codes setting hitems' hcodes' s
  have htext (text : List Char) :
      NumberText text (items.toList.drop c.pos) ↔ NumberText text (items'.toList.drop c'.pos) := by
    rw [hpos]
    exact numberText_iff_of_codes (List.forall₂_drop c.pos hcodes.forall₂)
      (List.forall₂_drop c.pos hcodes'.forall₂) text
  refine ⟨htext, ?_⟩
  by_cases h : ∃ text, NumberText text (items.toList.drop c.pos)
  · obtain ⟨text, ht⟩ := h
    rw [hsome text ht, hsome' text ((htext text).mp ht), hpos]
  · have hnever (text : List Char) (ht : NumberText text (items.toList.drop c.pos)) :
      False := h ⟨text, ht⟩
    rw [hnone hnever, hnone' fun text ht => hnever text ((htext text).mpr ht), hpos]

/-- A number whose items are of all forms, before a point that no digit follows, and the same number
    in a text. -/
theorem run_decimal_text_mixed :
    (Parser.decimal none).run brackets
        ⟨.sequence (.tuple #[.ofChar '-', .int 0x31, .octets .fixed [0x32], .ofChar '.', .int 0x35,
          .ofChar '.']), 0, 0,
          { levels := 50 }⟩ () =
      .ok (.success (.float (Reading.float "-12.5".toList)) 5) () ∧
    (Parser.decimal none).run brackets ⟨.sequence (.text "-12.5.".toList.toArray), 0, 0,
      { levels := 50 }⟩ () = .ok (.success (.float (Reading.float "-12.5".toList)) 5) () := by
  have hpoint : IsItemOf '.'.toNat (.ofChar '.') := .char '.'
  have hstop (vs : List Value) : NoDigit (.ofChar '.' :: vs) := by
    rintro v hv ⟨d, hd, hitem⟩
    obtain rfl := Option.mem_some_iff.mp hv
    have hcode : (d.toNat : Int) = '.'.toNat := hitem.unique hpoint
    have hbounds := Decimal.toNat_bounds hd
    have hdot : '.'.toNat = 46 := rfl
    omega
  have htuple : Items.OfCodes
      (.tuple #[.ofChar '-', .int 0x31, .octets .fixed [0x32], .ofChar '.', .int 0x35, .ofChar '.'])
      ("-12.5.".toList.map fun c => (c.toNat : Int)) :=
    .tuple (.cons (.char '-') (.cons (.code 0x31) (.cons (.octet 0x32)
      (.cons hpoint (.cons (.code 0x35) (.cons hpoint .nil))))))
  have htext : NumberText "-12.5".toList
      [.ofChar '-', .int 0x31, .octets .fixed [0x32], .ofChar '.', .int 0x35, .ofChar '.'] :=
    .intro (.minus rfl (.char '-'))
      (.digit (c := '1') rfl (.code 0x31) (.digit (c := '2') rfl (.octet 0x32) (.stop (hstop _))))
      (by decide)
      (.point hpoint (.digit (c := '5') rfl (.code 0x35) (.stop (hstop _))) (by decide))
  obtain ⟨-, hsuccess, -, hsame⟩ :=
    run_decimal_text brackets (c := ⟨_, 0, 0, { levels := 50 }⟩) rfl htuple ()
  have hmixed := hsuccess _ htext
  exact ⟨hmixed, (hsame ⟨_, 0, 0, { levels := 50 }⟩ _ rfl (.text _) rfl).2.trans hmixed⟩

end Parser

end Itemwise
