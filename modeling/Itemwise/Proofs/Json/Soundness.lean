import Itemwise.Proofs.Json.Completeness
import Itemwise.Proofs.TextReader.Inversion

namespace Itemwise.Json

open TextReader

/-!
# The reader reads only documents

What the reader has read was written as the grammar says, and nothing in it is a fault.

* `string_eq_read`, `number_eq_read` — strings and numbers;
* `bracketed_eq_read` — parts between brackets, with commas in between;
* `IsWritten`, `bare_eq_read`, `nested_eq_read` — values, by induction on the levels of nesting;
* `document_eq_read` — documents.
-/

/-! ### Tokens -/

/-- What is read behind white space stands behind white space. -/
theorem eat_eq_read_blank {α : Type} {r : TextReader α} {cs rest : List Char} {a : α}
    (h : r.eat cs = .read a rest) :
    ∃ ws cs', IsBlank ws ∧ cs = ws ++ cs' ∧ r cs' = .read a rest :=
  ⟨cs.takeWhile isBlank, cs.dropWhile isBlank,
    fun c hc => isBlank_iff.mp (List.all_eq_true.mp List.all_takeWhile c hc),
    List.takeWhile_append_dropWhile.symm, eat_eq_read h⟩

/-- A character that is read behind white space stands behind it. -/
theorem token_eq_read {c d : Char} {cs rest : List Char} (h : Reader.token c cs = .read d rest) :
    ∃ ws, IsBlank ws ∧ cs = ws ++ c :: rest := by
  obtain ⟨ws, cs', hws, rfl, hchar⟩ := eat_eq_read_blank h
  obtain ⟨rfl, hd⟩ := char_eq_read hchar
  exact ⟨ws, hws, by rw [beq_iff_eq.mp hd]⟩

/-! ### Strings -/

/-- A body may begin with an escaped code. -/
theorem isBody_unicode {w b : List Char} (hlen : w.length = 4) (hw : ∀ c ∈ w, IsHex c)
    (hb : IsBody b) :
    IsBody ('\\' :: 'u' :: (w ++ b)) := by
  match w, hlen, hw with
  | [h₁, h₂, h₃, h₄], _, hw =>
    simp only [List.mem_cons, List.not_mem_nil, or_false, forall_eq_or_imp, forall_eq] at hw
    exact .unicode hw.1 hw.2.1 hw.2.2.1 hw.2.2.2 hb

/-- Behind a backslash, what is read as a code is one. -/
theorem unicode_eq_read {cs rest : List Char} {x : Char × (List Char × Unit) × Unit}
    (h : ((char (· == 'u')).and (((char isHex).again 4).stretch.and done)) cs = .read x rest) :
    ∃ p, cs = p ++ rest ∧ ∀ b, IsBody b → IsBody ('\\' :: (p ++ b)) := by
  obtain ⟨mid, hu, hafter⟩ := and_eq_read h
  obtain ⟨mid', hhex, hdone⟩ := and_eq_read hafter
  obtain ⟨hagain, -⟩ := stretch_eq_read ((isForward_char isHex).again 4) hhex
  obtain ⟨w, hmid, hlen, hw⟩ := again_char_eq_read hagain
  obtain ⟨hcs, hueq⟩ := char_eq_read hu
  obtain rfl := done_eq_read hdone
  refine ⟨'u' :: w, by rw [hcs, hmid, beq_iff_eq.mp hueq]; rfl, fun b hb => ?_⟩
  exact isBody_unicode hlen (fun c hc => isHex_iff.mp (hw c hc)) hb

/-- After a backslash stand a `u` and hexadecimal digits, or a letter. -/
theorem escape_eq_read {cs rest w : List Char} (h : Reader.escape cs = .read w rest) :
    ∃ p, cs = p ++ rest ∧ ∀ b, IsBody b → IsBody (p ++ b) := by
  obtain ⟨x, hx, -⟩ := map_eq_read h
  obtain ⟨mid, hslash, hafter⟩ := and_eq_read hx
  obtain ⟨mid', hfirst, hdone⟩ := and_eq_read hafter
  obtain ⟨rfl, heq⟩ := char_eq_read hslash
  obtain rfl := done_eq_read hdone
  obtain ⟨r, hr, hread⟩ := first_eq_read hfirst
  simp only [List.mem_cons, List.not_mem_nil, or_false] at hr
  obtain rfl | rfl := hr
  · obtain ⟨y, hy, -⟩ := map_eq_read hread
    obtain ⟨p, rfl, hp⟩ := unicode_eq_read hy
    exact ⟨'\\' :: p, by simp [beq_iff_eq.mp heq], hp⟩
  · obtain ⟨c, hc, -⟩ := map_eq_read hread
    obtain ⟨rfl, hmem⟩ := char_eq_read hc
    exact ⟨['\\', c], by simp [beq_iff_eq.mp heq],
      fun b hb => .escape (List.contains_iff_mem.mp hmem) hb⟩

/-- A body may begin with plain characters. -/
theorem isBody_plain_append {w b : List Char} (hw : ∀ c ∈ w, isPlain c = true) (hb : IsBody b) :
    IsBody (w ++ b) := by
  induction w with
  | nil => exact hb
  | cons c w ih =>
    have hc := isPlain_iff.mp (hw c (by simp))
    exact .plain hc.2.2 hc.1 hc.2.1 (ih fun d hd => hw d (by simp [hd]))

/-- What is read as a part of a body is one, whatever the body goes on with. -/
theorem part_eq_read {cs rest w : List Char} (h : Reader.part cs = .read w rest) :
    ∃ p, cs = p ++ rest ∧ ∀ b, IsBody b → IsBody (p ++ b) := by
  obtain ⟨r, hr, hread⟩ := first_eq_read h
  simp only [List.mem_cons, List.not_mem_nil, or_false] at hr
  obtain rfl | rfl := hr
  · obtain ⟨rfl, -, hw⟩ := run1_eq_read hread
    exact ⟨w, rfl, fun b hb => isBody_plain_append hw hb⟩
  · exact escape_eq_read hread

/-- An escape is read from the front of the text, and is not empty. -/
theorem isForward_escape : Reader.escape.IsForward := by
  have hunicode := (isForward_char (· == 'u')).and
    (((isForward_char isHex).again 4).stretch.and isForward_done)
  have hafter : (first
      [((char (· == 'u')).and (((char isHex).again 4).stretch.and done)).map (·.2.1.1),
        (char escapeLetters.contains).map fun c => [c]]).IsForward :=
    isForward_first (by simpa using ⟨hunicode.map _, (isForward_char _).map _⟩)
  exact ((isForward_char _).and (hafter.and isForward_done)).map _

/-- So is a part of a body. -/
theorem isForward_part : Reader.part.IsForward :=
  isForward_first (by simpa using ⟨isForward_run1 isPlain, isForward_escape⟩)

/-- What the rounds over the parts of a body have read may stand before any body. -/
theorem rounds_part_eq {ws : List (List Char)} {cs mid : List Char}
    (h : Rounds Reader.part done ws cs mid) :
    ∃ p, cs = p ++ mid ∧ ∀ b, IsBody b → IsBody (p ++ b) := by
  induction h with
  | nil => exact ⟨[], rfl, fun b hb => hb⟩
  | @cons a as u cs mid mid' rest hpart hdone _ ih =>
    obtain ⟨p, rfl, hp⟩ := part_eq_read hpart
    obtain rfl := done_eq_read hdone
    obtain ⟨p', rfl, hp'⟩ := ih
    exact ⟨p ++ p', by simp, fun b hb => by simpa using hp _ (hp' b hb)⟩

/-- The parts of the body of a string are a body together. -/
theorem body_eq_read {cs rest b : List Char} (h : Reader.body cs = .read b rest) :
    cs = b ++ rest ∧ IsBody b := by
  obtain ⟨x, hx, rfl⟩ := map_eq_read h
  obtain ⟨hparts, hcs⟩ := stretch_eq_read (isForward_part.separated isForward_done true false) hx
  obtain ⟨ws, mid, hws, hlast⟩ := separated_eq_read hparts
  obtain ⟨p, hp, hbody⟩ := rounds_part_eq hws
  obtain ⟨-, rfl, -⟩ | ⟨w, -, hw⟩ := hlast
  · obtain rfl := List.append_cancel_right (hp.symm.trans hcs)
    exact ⟨hcs, by simpa using hbody [] .nil⟩
  · obtain ⟨p', rfl, hp'⟩ := part_eq_read hw
    have heq : x.1 = p ++ p' := List.append_cancel_right (by rw [List.append_assoc, ← hp, hcs])
    exact ⟨hcs, by simpa [heq] using hbody _ (hp' [] .nil)⟩

/-- **Strings.** Between two quotes stands the body of a string. -/
theorem string_eq_read {cs rest b : List Char} (h : Reader.string cs = .read b rest) :
    cs = '"' :: (b ++ '"' :: rest) ∧ IsBody b := by
  obtain ⟨x, hx, rfl⟩ := map_eq_read h
  obtain ⟨mid, hopen, hafter⟩ := and_eq_read hx
  obtain ⟨mid', hbody, hend⟩ := and_eq_read hafter
  obtain ⟨mid'', hclose, hdone⟩ := and_eq_read hend
  obtain ⟨hcs, hopening⟩ := char_eq_read hopen
  obtain ⟨hmid, hb⟩ := body_eq_read hbody
  obtain ⟨hmid', hclosing⟩ := char_eq_read hclose
  obtain rfl := done_eq_read hdone
  rw [hcs, hmid, hmid', beq_iff_eq.mp hopening, beq_iff_eq.mp hclosing]
  exact ⟨rfl, hb⟩

/-! ### Numbers -/

/-- Digits that are read are digits. -/
theorem digits_eq_read {cs rest ds : List Char} (h : Reader.digits cs = .read ds rest) :
    cs = ds ++ rest ∧ AreDigits ds := by
  obtain ⟨hcs, hne, hds⟩ := run1_eq_read h
  exact ⟨hcs, hne, fun c hc => isDigit_iff.mp (hds c hc)⟩

/-- A whole number that is read is one. -/
theorem whole_eq_read {cs rest w : List Char} (h : Reader.whole cs = .read w rest) :
    ∃ w, cs = w ++ rest ∧ IsWhole w := by
  obtain ⟨r, hr, hread⟩ := first_eq_read h
  simp only [List.mem_cons, List.not_mem_nil, or_false] at hr
  obtain rfl | rfl := hr
  · obtain ⟨c, hc, -⟩ := map_eq_read hread
    obtain ⟨rfl, hzero⟩ := char_eq_read hc
    exact ⟨['0'], by rw [beq_iff_eq.mp hzero]; rfl, .zero⟩
  · obtain ⟨x, hx, -⟩ := map_eq_read hread
    obtain ⟨hparts, -⟩ :=
      stretch_eq_read ((isForward_char _).and ((isForward_run _).and isForward_done)) hx
    obtain ⟨mid, hc, hafter⟩ := and_eq_read hparts
    obtain ⟨mid', hds, hdone⟩ := and_eq_read hafter
    obtain ⟨rfl, hrange⟩ := char_eq_read hc
    obtain ⟨rfl, hdigits⟩ := run_eq_read hds
    obtain rfl := done_eq_read hdone
    simp only [Bool.and_eq_true, decide_eq_true_eq] at hrange
    exact ⟨_ :: _, rfl, .digits hrange.1 hrange.2 fun c hc => isDigit_iff.mp (hdigits c hc)⟩

/-- A fraction that is read is one, and none is read if there is none. -/
theorem fraction_eq_read {cs rest : List Char} {o : Option (List Char)}
    (h : Reader.fraction.optional cs = .read o rest) :
    ∃ f, cs = f ++ rest ∧ (f = [] ∨ IsFraction f) ∧ (o = none ↔ f = []) := by
  obtain ⟨ds, rfl, hread⟩ | ⟨rfl, rfl⟩ := optional_eq_read h
  · obtain ⟨x, hx, -⟩ := map_eq_read hread
    obtain ⟨mid, hpoint, hafter⟩ := and_eq_read hx
    obtain ⟨mid', hds, hdone⟩ := and_eq_read hafter
    obtain ⟨hcs, heq⟩ := char_eq_read hpoint
    obtain ⟨hmid, hdigits⟩ := digits_eq_read hds
    obtain rfl := done_eq_read hdone
    refine ⟨'.' :: x.2.1, by rw [hcs, hmid, beq_iff_eq.mp heq]; rfl, .inr (.point hdigits), by simp⟩
  · exact ⟨[], rfl, .inl rfl, by simp⟩

/-- A sign that is read is a plus or a minus. -/
theorem sign_eq_read {cs rest : List Char} {o : Option Char}
    (h : (char ['+', '-'].contains).optional cs = .read o rest) :
    ∃ sign, cs = sign ++ rest ∧ (sign = [] ∨ sign = ['+'] ∨ sign = ['-']) := by
  obtain ⟨c, rfl, hread⟩ | ⟨rfl, rfl⟩ := optional_eq_read h
  · obtain ⟨rfl, hmem⟩ := char_eq_read hread
    have hc : c = '+' ∨ c = '-' := by simpa using hmem
    exact ⟨[c], rfl, by simpa using hc⟩
  · exact ⟨[], rfl, .inl rfl⟩

/-- An exponent that is read is one, and none is read if there is none. -/
theorem exponent_eq_read {cs rest : List Char} {o : Option (Char × Option Char × List Char × Unit)}
    (h : Reader.exponent.optional cs = .read o rest) :
    ∃ e, cs = e ++ rest ∧ (e = [] ∨ IsExponent e) ∧ (o = none ↔ e = []) := by
  obtain ⟨x, rfl, hread⟩ | ⟨rfl, rfl⟩ := optional_eq_read h
  · obtain ⟨mid, hmark, hafter⟩ := and_eq_read hread
    obtain ⟨mid', hsign, hafter'⟩ := and_eq_read hafter
    obtain ⟨mid'', hds, hdone⟩ := and_eq_read hafter'
    obtain ⟨hcs, hmem⟩ := char_eq_read hmark
    obtain ⟨sign, hmid, hsigns⟩ := sign_eq_read hsign
    obtain ⟨hmid', hdigits⟩ := digits_eq_read hds
    obtain rfl := done_eq_read hdone
    have hm : x.1 = 'e' ∨ x.1 = 'E' := by simpa using hmem
    exact ⟨x.1 :: (sign ++ x.2.2.1), by rw [hcs, hmid, hmid']; simp,
      .inr (.mark hm hsigns hdigits), by simp⟩
  · exact ⟨[], rfl, .inl rfl, by simp⟩

/-- A minus sign that is read is one. -/
theorem minus_eq_read {cs rest : List Char} {o : Option Char}
    (h : (char (· == '-')).optional cs = .read o rest) :
    ∃ sign, cs = sign ++ rest ∧ (sign = [] ∨ sign = ['-']) := by
  obtain ⟨c, rfl, hread⟩ | ⟨rfl, rfl⟩ := optional_eq_read h
  · obtain ⟨rfl, heq⟩ := char_eq_read hread
    exact ⟨['-'], by rw [beq_iff_eq.mp heq]; rfl, .inr rfl⟩
  · exact ⟨[], rfl, .inl rfl⟩

/-- A whole number with a minus or without is an integer. -/
theorem isInteger_append {sign w : List Char} (hsign : sign = [] ∨ sign = ['-']) (hw : IsWhole w) :
    IsInteger (sign ++ w) := by
  obtain rfl | rfl := hsign
  · exact .unsigned hw
  · exact .negative hw

/-- **The parts of a number that are read make one up**, and are missing where they are not
    written. -/
theorem numberParts_eq_read {cs rest : List Char} {x : Reader.NumberParts}
    (h : Reader.numberParts cs = .read x rest) :
    ∃ i f e, cs = i ++ f ++ e ++ rest ∧ IsInteger i ∧ (f = [] ∨ IsFraction f) ∧
      (e = [] ∨ IsExponent e) ∧
      (x.2.2.1 = none ↔ f = []) ∧ (x.2.2.2.1 = none ↔ e = []) := by
  obtain ⟨mid₁, hminus, h₁⟩ := and_eq_read h
  obtain ⟨mid₂, hwhole, h₂⟩ := and_eq_read h₁
  obtain ⟨mid₃, hfraction, h₃⟩ := and_eq_read h₂
  obtain ⟨mid₄, hexponent, hdone⟩ := and_eq_read h₃
  obtain ⟨sign, rfl, hsign⟩ := minus_eq_read hminus
  obtain ⟨w, rfl, hw⟩ := whole_eq_read hwhole
  obtain ⟨f, rfl, hfs, hfnone⟩ := fraction_eq_read hfraction
  obtain ⟨e, rfl, hes, henone⟩ := exponent_eq_read hexponent
  obtain rfl := done_eq_read hdone
  exact ⟨sign ++ w, f, e, by simp, isInteger_append hsign hw, hfs, hes, hfnone, henone⟩

/-- The parts of a number are read from the front of the text. -/
theorem isForward_numberParts : Reader.numberParts.IsForward := by
  have hwhole : Reader.whole.IsForward := by
    have hdigits := (isForward_char fun c => decide ('1' ≤ c) && decide (c ≤ '9')).and
      ((isForward_run Decimal.isDigit).and isForward_done)
    exact isForward_first (by simpa using ⟨(isForward_char _).map _, hdigits.stretch.map _⟩)
  have hfraction : Reader.fraction.IsForward :=
    ((isForward_char _).and ((isForward_run1 _).and isForward_done)).map _
  have hexponent : Reader.exponent.IsForward :=
    (isForward_char _).and ((isForward_char _).optional.and ((isForward_run1 _).and isForward_done))
  exact (isForward_char _).optional.and
    (hwhole.and (hfraction.optional.and (hexponent.optional.and isForward_done)))

/-- **Numbers.** A number that is read is written as one, and is not too long. -/
theorem number_eq_read {cs rest : List Char} {t : Tree} (h : Reader.number cs = .read t rest) :
    ∃ w, cs = w ++ rest ∧ IsValue t w ∧ ∀ deep levels, t.fault? deep levels = none := by
  obtain ⟨x, hx, ht⟩ := convert_eq_read h
  obtain ⟨hparts, hcs⟩ := stretch_eq_read isForward_numberParts hx
  obtain ⟨i, f, e, hifes, hi, hf, he, hfnone, henone⟩ := numberParts_eq_read hparts
  have hw : x.1 = i ++ f ++ e := List.append_cancel_right (hcs.symm.trans hifes)
  obtain ⟨w, m, whole, o, o', u⟩ := x
  obtain rfl : w = i ++ f ++ e := hw
  refine ⟨_, hcs, ?_⟩
  -- with a fraction or an exponent the number is no integer, and never a fault
  have hdecimal : f ≠ [] ∨ e ≠ [] → t = .decimal (i ++ f ++ e) →
      IsValue t (i ++ f ++ e) ∧ ∀ deep levels, t.fault? deep levels = none := by
    rintro hne rfl
    exact ⟨.decimal (.parts hi hf he hne), Tree.fault?_decimal (w := _)⟩
  match o, o', hfnone, henone, ht with
  | none, none, hfnone, henone, ht =>
    obtain rfl := hfnone.mp rfl
    obtain rfl := henone.mp rfl
    simp only [Reader.numberOf, Reader.shortInteger] at ht
    split at ht
    · cases ht
    · next hshort =>
      obtain rfl := Except.ok.inj ht
      simp only [List.append_nil] at hshort ⊢
      exact ⟨.integer hi, fun deep levels => by rw [Tree.fault?_integer, if_neg hshort]⟩
  | some _, _, hfnone, _, ht =>
    exact hdecimal (.inl fun hf => by simpa using hfnone.mpr hf) (Except.ok.inj ht).symm
  | none, some _, _, henone, ht =>
    exact hdecimal (.inr fun he => by simpa using henone.mpr he) (Except.ok.inj ht).symm

/-! ### Parts between brackets -/

section Bracketed

variable {α : Type} {one : TextReader α} {P : α → List Char → Prop}

/-- What a reader reads is written in a way. -/
def Writes (one : TextReader α) (P : α → List Char → Prop) : Prop :=
  ∀ cs a rest, one cs = .read a rest → ∃ w, cs = w ++ rest ∧ P a w

/-- A part with white space after it. -/
def Spaced (P : α → List Char → Prop) (a : α) (w : List Char) : Prop :=
  ∃ v ws, w = v ++ ws ∧ IsBlank ws ∧ P a v

/-- Parts with commas after them are written so, one by one. -/
theorem rounds_eq_leading (hone : Writes one P) {as : List α} {cs mid : List Char}
    (h : Rounds one (Reader.token ',') as cs mid) :
    ∃ w, cs = w ++ mid ∧ Leading (Spaced P) as w := by
  induction h with
  | nil => exact ⟨[], rfl, .nil⟩
  | cons hread hcomma _ ih =>
    obtain ⟨v, rfl, hv⟩ := hone _ _ _ hread
    obtain ⟨ws, hws, rfl⟩ := token_eq_read hcomma
    obtain ⟨w, rfl, hw⟩ := ih
    exact ⟨v ++ ws ++ ',' :: w, by simp, .cons ⟨v, ws, rfl, hws, hv⟩ hw⟩

/-- **Brackets.** Between brackets stand white space, or parts with commas in between. -/
theorem bracketed_eq_read (hone : Writes one P) {opening closing : Char} {as : List α}
    {cs rest : List Char} (h : Reader.bracketed opening closing one cs = .read as rest) :
    ∃ w, cs = opening :: (w ++ closing :: rest) ∧
      ((as = [] ∧ IsBlank w) ∨ Listed (Spaced P) as w) := by
  obtain ⟨x, hx, rfl⟩ := map_eq_read h
  obtain ⟨mid, hopen, hafter⟩ := and_eq_read hx
  obtain ⟨mid', hparts, hend⟩ := and_eq_read hafter
  obtain ⟨mid'', hclose, hdone⟩ := and_eq_read hend
  obtain ⟨rfl, hopening⟩ := char_eq_read hopen
  obtain ⟨ws, hws, rfl⟩ := token_eq_read hclose
  obtain rfl := done_eq_read hdone
  rw [beq_iff_eq.mp hopening]
  obtain ⟨as, mid', hrounds, hlast⟩ := separated_eq_read hparts
  obtain ⟨w, rfl, hw⟩ := rounds_eq_leading hone hrounds
  obtain ⟨rfl, rfl, htrailing⟩ | ⟨a, has, hread⟩ := hlast
  · -- no separator may come last, so there is none
    have hnil : x.2.1 = [] := by
      by_cases hnil : x.2.1 = []
      · exact hnil
      · exact absurd (htrailing (.inl hnil)) (by simp)
    rw [hnil] at hw
    cases hw
    exact ⟨ws, rfl, .inl ⟨hnil, hws⟩⟩
  · obtain ⟨v, rfl, hv⟩ := hone _ _ _ hread
    refine ⟨w ++ (v ++ ws), by simp, .inr ?_⟩
    rw [has]
    exact hw.listed ⟨v, ws, rfl, hws, hv⟩

end Bracketed

/-! ### Values -/

/-- A value with white space before it, in which nothing is a fault inside a container. -/
def IsWritten (deep : Fault) (levels : Nat) (t : Tree) (w : List Char) : Prop :=
  ∃ ws v, w = ws ++ v ∧ IsBlank ws ∧ IsValue t v ∧ t.nestedFault? deep levels = none

/-- A key and a value with white space before the key, in which nothing is a fault inside an
    object. -/
def IsMemberWritten (deep : Fault) (levels : Nat) (m : List Char × Tree) (w : List Char) : Prop :=
  ∃ ws ws' v, w = ws ++ '"' :: (m.1 ++ '"' :: (ws' ++ ':' :: v)) ∧ IsBlank ws ∧
    IsBody m.1 ∧ IsBlank ws' ∧
    IsWritten deep levels m.2 v

variable {deep : Fault} {levels : Nat}

/-- A written value with white space after it is one with white space around it. -/
theorem isPadded_of_spaced {t : Tree} {w : List Char} (h : Spaced (IsWritten deep levels) t w) :
    IsPadded t w := by
  obtain ⟨_, ws', rfl, hws', ws, v, rfl, hws, hv, -⟩ := h
  rw [List.append_assoc]
  exact .pad hws hv hws'

/-- The same for a member. -/
theorem isMember_of_spaced {m : List Char × Tree} {w : List Char}
    (h : Spaced (IsMemberWritten deep levels) m w) :
    IsMember m w := by
  obtain ⟨_, ws'', rfl, hws'', ws, ws', v, rfl, hws, hb, hws', ht⟩ := h
  simpa using IsMember.colon hws hb hws' (isPadded_of_spaced ⟨v, ws'', rfl, hws'', ht⟩)

/-- A written value with white space after it is within the levels there are. -/
theorem nestedFault?_of_spaced {t : Tree} {w : List Char} (h : Spaced (IsWritten deep levels) t w) :
    t.nestedFault? deep levels = none := by
  obtain ⟨_, _, -, -, _, _, -, -, -, hfault⟩ := h
  exact hfault

/-- So is the value of a member. -/
theorem nestedFault?_of_memberSpaced {m : List Char × Tree} {w : List Char}
    (h : Spaced (IsMemberWritten deep levels) m w) : m.2.nestedFault? deep levels = none := by
  obtain ⟨_, ws', -, hws', _, _, v, -, -, -, -, ht⟩ := h
  exact nestedFault?_of_spaced ⟨v, ws', rfl, hws', ht⟩

/-- A key that is read is written between quotes, with a colon behind it. -/
theorem key_eq_read {cs rest b : List Char}
    (h : ((Reader.string.eat.and ((Reader.token ':').and done)).map (·.1)) cs = .read b rest) :
    ∃ ws ws', cs = ws ++ '"' :: (b ++ '"' :: (ws' ++ ':' :: rest)) ∧ IsBlank ws ∧ IsBody b ∧
      IsBlank ws' := by
  obtain ⟨x, hx, rfl⟩ := map_eq_read h
  obtain ⟨mid, hstring, hcolon⟩ := and_eq_read hx
  obtain ⟨mid', htoken, hdone⟩ := and_eq_read hcolon
  obtain ⟨ws, cs', hws, rfl, hquoted⟩ := eat_eq_read_blank hstring
  obtain ⟨rfl, hb⟩ := string_eq_read hquoted
  obtain ⟨ws', hws', rfl⟩ := token_eq_read htoken
  obtain rfl := done_eq_read hdone
  exact ⟨ws, ws', rfl, hws, hb, hws'⟩

/-- A member that is read is written as one. -/
theorem member_eq_read (hinside : Writes (Reader.nested deep levels) (IsWritten deep levels)) :
    Writes (Reader.member (Reader.nested deep levels)) (IsMemberWritten deep levels) := by
  intro cs m rest h
  obtain ⟨x, hx, rfl⟩ := map_eq_read h
  obtain ⟨mid, hkey, hafter⟩ := and_eq_read hx
  obtain ⟨mid', hvalue, hdone⟩ := and_eq_read hafter
  obtain ⟨ws, ws', rfl, hws, hb, hws'⟩ := key_eq_read hkey
  obtain rfl := done_eq_read hdone
  obtain ⟨v, rfl, hv⟩ := hinside _ _ _ hvalue
  exact ⟨ws ++ '"' :: (x.1 ++ '"' :: (ws' ++ ':' :: v)), by simp, ws, ws', v, rfl,
    hws, hb, hws', hv⟩

/-- A word that is read stands for the value. -/
theorem keyword_eq_read {cs rest : List Char} {t : Tree} (h : Reader.keyword cs = .read t rest) :
    ∃ w, cs = w ++ rest ∧ IsValue t w ∧ t.fault? deep levels = none := by
  obtain ⟨r, hr, hread⟩ := first_eq_read h
  simp only [List.mem_cons, List.not_mem_nil, or_false] at hr
  obtain rfl | rfl | rfl := hr
  · obtain ⟨w, hw, rfl⟩ := map_eq_read hread
    exact ⟨_, word_eq_read hw, .true, Tree.fault?_bool ..⟩
  · obtain ⟨w, hw, rfl⟩ := map_eq_read hread
    exact ⟨_, word_eq_read hw, .false, Tree.fault?_bool ..⟩
  · obtain ⟨w, hw, rfl⟩ := map_eq_read hread
    exact ⟨_, word_eq_read hw, .null, Tree.fault?_null ..⟩

/-- An array that is read is written as one, and is within the levels there are. -/
theorem array_eq_read (hinside : Writes (Reader.nested deep levels) (IsWritten deep levels))
    {cs rest : List Char} {ts : List Tree}
    (h : Reader.array (Reader.nested deep levels) cs = .read ts rest) :
    ∃ w, cs = w ++ rest ∧ IsValue (.array ts) w ∧ (Tree.array ts).fault? deep levels = none := by
  obtain ⟨w, rfl, ⟨rfl, hw⟩ | hw⟩ := bracketed_eq_read hinside h
  · refine ⟨'[' :: (w ++ [']']), by simp, .emptyArray hw, ?_⟩
    cases levels with
    | zero =>
      -- where no level is left, the array would not have been read
      rw [Reader.array, bracketed_fault (f := deep) rfl] at h
      cases h
    | succ levels => rfl
  · refine ⟨'[' :: (w ++ [']']), by simp, ?_, ?_⟩
    · exact .array (isElements_of_listed (hw.imp fun _ _ => isPadded_of_spaced))
    · have hne : ts ≠ [] := by
        cases hw <;> simp
      rw [Tree.fault?_array deep levels hne, firstFault_eq_none]
      exact hw.forall_mem fun t _ ht => nestedFault?_of_spaced ht

/-- So is an object. -/
theorem object_eq_read (hinside : Writes (Reader.nested deep levels) (IsWritten deep levels))
    {cs rest : List Char} {ms : List (List Char × Tree)}
    (h : Reader.object (Reader.nested deep levels) cs = .read ms rest) :
    ∃ w, cs = w ++ rest ∧ IsValue (.object ms) w ∧ (Tree.object ms).fault? deep levels = none := by
  rw [Tree.fault?_object, firstFault_eq_none]
  obtain ⟨w, rfl, ⟨rfl, hw⟩ | hw⟩ := bracketed_eq_read (member_eq_read hinside) h
  · exact ⟨'\x7b' :: (w ++ ['\x7d']), by simp, .emptyObject hw, by simp⟩
  · refine ⟨'\x7b' :: (w ++ ['\x7d']), by simp, ?_, ?_⟩
    · exact .object (isMembers_of_listed (hw.imp fun _ _ => isMember_of_spaced))
    · exact hw.forall_mem fun m _ hm => nestedFault?_of_memberSpaced hm

/-- **Values.** What is read as a value is the text of one, if that holds of what is inside it. -/
theorem bare_eq_read (hinside : Writes (Reader.nested deep levels) (IsWritten deep levels))
    {cs rest : List Char} {t : Tree}
    (h : Reader.bare (Reader.nested deep levels) cs = .read t rest) :
    ∃ w, cs = w ++ rest ∧ IsValue t w ∧ t.fault? deep levels = none := by
  obtain ⟨r, hr, hread⟩ := first_eq_read h
  simp only [List.mem_cons, List.not_mem_nil, or_false] at hr
  obtain rfl | rfl | rfl | rfl | rfl := hr
  · obtain ⟨b, hb, rfl⟩ := map_eq_read hread
    obtain ⟨rfl, hbody⟩ := string_eq_read hb
    exact ⟨'"' :: (b ++ ['"']), by simp, .string hbody, Tree.fault?_string ..⟩
  · obtain ⟨w, hw, ht, hfault⟩ := number_eq_read hread
    exact ⟨w, hw, ht, hfault deep levels⟩
  · obtain ⟨ms, hms, rfl⟩ := map_eq_read hread
    exact object_eq_read hinside hms
  · obtain ⟨ts, hts, rfl⟩ := map_eq_read hread
    exact array_eq_read hinside hts
  · exact keyword_eq_read hread

/-- So is a value, with white space before it. -/
theorem value_eq_read (hinside : Writes (Reader.nested deep levels) (IsWritten deep levels))
    {cs rest : List Char} {t : Tree}
    (h : Reader.value (Reader.nested deep levels) cs = .read t rest) :
    ∃ ws v, cs = ws ++ (v ++ rest) ∧ IsBlank ws ∧ IsValue t v ∧ t.fault? deep levels = none := by
  obtain ⟨ws, cs', hws, rfl, hbare⟩ := eat_eq_read_blank h
  obtain ⟨v, rfl, hv, hfault⟩ := bare_eq_read hinside hbare
  exact ⟨ws, v, rfl, hws, hv, hfault⟩

/-- **Nested values.** What is read inside a container is a value, whatever number of levels is
    left. -/
theorem nested_eq_read (deep : Fault) (levels : Nat) :
    Writes (Reader.nested deep levels) (IsWritten deep levels) := by
  induction levels with
  | zero =>
    intro cs t rest h
    cases h
  | succ levels ih =>
    intro cs t rest h
    obtain ⟨ws, v, rfl, hws, hv, hfault⟩ := value_eq_read ih h
    exact ⟨ws ++ v, by simp, ws, v, rfl, hws, hv, hfault⟩

/-- **Documents.** What is read as a document is the text of one, up to its end. -/
theorem document_eq_read {text rest : List Char} {t : Tree}
    (h : Reader.document (Reader.nested deep levels) text = .read t rest) :
    rest = [] ∧ IsPadded t text ∧ t.fault? deep levels = none := by
  obtain ⟨x, hx, rfl⟩ := map_eq_read h
  obtain ⟨mid, hvalue, hend⟩ := and_eq_read hx
  obtain ⟨mid', hend, hdone⟩ := and_eq_read hend
  obtain ⟨ws, v, rfl, hws, hv, hfault⟩ := value_eq_read (nested_eq_read deep levels) hvalue
  obtain ⟨ws', cs, hws', rfl, hatEnd⟩ := eat_eq_read_blank hend
  obtain ⟨rfl, rfl⟩ := atEnd_eq_read hatEnd
  obtain rfl := done_eq_read hdone
  rw [List.append_nil]
  exact ⟨rfl, .pad hws hv hws', hfault⟩

end Itemwise.Json
