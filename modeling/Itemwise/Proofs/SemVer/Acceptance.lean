import Itemwise.Proofs.SemVer.Reader

namespace Itemwise.SemVer

open TextReader

/-!
# What the version parser accepts

The parser accepts the texts of versions and nothing else, and yields the version whose text it is.

* `Recognizes` — a reader reads the words of a language, where nothing follows that could go on with
  them, and reads nothing else;
* `recognizes_component`, `recognizes_identifier`, `recognizes_preReleaseIdentifier`,
  `Recognizes.identifiers` — what the readers of the grammar recognize;
* `optional_part_append`, `optional_part_eq_read` — the same for a part that may not be there;
* `version_append`, `version_eq_read` — a whole version;
* `parse_isVersion` — what is accepted, and what it yields.

A pre-release identifier is tried as one with something else than digits first, and as digits only
after that; both look at the longest run of identifier characters, so together they take the whole
of it or nothing.
-/

/-! ### Characters -/

/-- The parser's test is the one for characters of an identifier. -/
theorem isIdentifierChar_iff {c : Char} : isIdentifierChar c = true ↔ IsIdentifierChar c := by
  have hdigit : c.isDigit = ('0' ≤ c && c ≤ '9' : Bool) := rfl
  have hlower : c.isLower = ('a' ≤ c && c ≤ 'z' : Bool) := rfl
  have hupper : c.isUpper = ('A' ≤ c && c ≤ 'Z' : Bool) := by
    rw [← Bool.decide_and]
    rfl
  unfold isIdentifierChar IsIdentifierChar Char.isAlphanum Char.isAlpha
  rw [hdigit, hlower, hupper]
  simp only [Bool.or_eq_true, beq_iff_eq]
  grind

/-- It turns every other character down. -/
theorem isIdentifierChar_eq_false {c : Char} (h : ¬ IsIdentifierChar c) :
    isIdentifierChar c = false :=
  Bool.eq_false_iff.mpr fun hc => h (isIdentifierChar_iff.mp hc)

/-- A digit may stand in an identifier. -/
theorem IsIdentifierChar.of_isDigit {c : Char} (h : c.isDigit = true) : IsIdentifierChar c := by
  simp [IsIdentifierChar, Char.isAlphanum, h]

/-- What does not go on with an identifier does not go on with digits either. -/
theorem isDigit_eq_false_of_stop {post : List Char}
    (hpost : ∀ c ∈ post.head?, ¬ IsIdentifierChar c) :
    ∀ c ∈ post.head?, Decimal.isDigit c = false := by
  intro c hc
  rw [Decimal.isDigit_eq, Bool.eq_false_iff]
  exact fun hdigit => hpost c hc (.of_isDigit hdigit)

/-! ### Languages -/

/-- A reader reads the words of a language, where nothing follows that could go on with them, and
    reads nothing else. -/
structure Recognizes (r : TextReader (List Char)) (P : List Char → Prop)
    (GoesOn : Char → Prop) : Prop where
  forward : r.IsForward
  append : ∀ {w post : List Char}, P w → (∀ c ∈ post.head?, ¬ GoesOn c) →
    r (w ++ post) = .read w post
  eq_read : ∀ {cs w rest : List Char}, r cs = .read w rest → cs = w ++ rest ∧ P w

/-- A character that is there is read. -/
theorem char_append (c : Char) (post : List Char) : char (· == c) (c :: post) = .read c post := by
  simp [char]

/-- Where another one stands, or none, the reader gives up at its start. -/
theorem char_of_ne {c : Char} {post : List Char} (h : ∀ d ∈ post.head?, d ≠ c) :
    char (· == c) post = .stuck post := by
  cases post with
  | nil => rfl
  | cons d post => simp [char, h d rfl]

/-! ### Numbers -/

/-- Digits are refused just in case they start with a zero and are not all zeros. -/
theorem componentOf_eq {ds w : List Char} (hds : ∀ c ∈ ds, c.isDigit = true) :
    Reader.componentOf (ds, ds) = some w ↔ w = ds ∧ (ds.head? = some '0' → ∀ c ∈ ds, c = '0') := by
  rw [← Decimal.toNat_eq_zero hds]
  unfold Reader.componentOf
  by_cases hrefused : ds.head? = some '0' ∧ Decimal.toNat ds ≠ 0
  · rw [if_pos hrefused]
    exact ⟨nofun, fun ⟨_, hzeros⟩ => absurd (hzeros hrefused.1) hrefused.2⟩
  · rw [if_neg hrefused, Option.some.injEq]
    have hzeros : ds.head? = some '0' → Decimal.toNat ds = 0 :=
      fun hhead => Decidable.byContradiction fun hne => hrefused ⟨hhead, hne⟩
    exact ⟨fun heq => ⟨heq.symm, hzeros⟩, fun ⟨heq, _⟩ => heq.symm⟩

/-- The reader of a number takes numbers, up to where their digits end. -/
theorem recognizes_component : Recognizes Reader.component IsComponent (·.isDigit = true) where
  forward := (isForward_run1 _).stretch.mapIf _
  append := by
    intro w post hw hpost
    have hrun : run1 Decimal.isDigit (w ++ post) = .read w post :=
      run1_append hw.ne_nil hw.isDigit fun c hc => Bool.eq_false_iff.mpr (hpost c hc)
    exact mapIf_of_read (stretch_of_read hrun) ((componentOf_eq hw.isDigit).mpr ⟨rfl, hw.zeros⟩)
  eq_read := by
    intro cs w rest h
    obtain ⟨⟨text, ds⟩, hread, hw⟩ := mapIf_eq_read h
    obtain ⟨hrun, hcs⟩ := stretch_eq_read (isForward_run1 _) hread
    obtain ⟨hds, hne, hdigits⟩ := run1_eq_read hrun
    -- the text that the number takes is its digits
    obtain rfl : text = ds := List.append_cancel_right (hcs.symm.trans hds)
    obtain ⟨rfl, hzeros⟩ := (componentOf_eq hdigits).mp hw
    exact ⟨hds, hne, hdigits, hzeros⟩

/-! ### Identifiers -/

/-- The reader of an identifier takes identifiers, up to where their characters end. -/
theorem recognizes_identifier : Recognizes Reader.identifier IsIdentifier IsIdentifierChar where
  forward := isForward_run1 _
  append := fun hw hpost =>
    run1_append hw.1 (fun c hc => isIdentifierChar_iff.mpr (hw.2 c hc)) fun c hc =>
      isIdentifierChar_eq_false (hpost c hc)
  eq_read := by
    intro cs w rest h
    obtain ⟨hcs, hne, hw⟩ := run1_eq_read h
    exact ⟨hcs, hne, fun c hc => isIdentifierChar_iff.mp (hw c hc)⟩

/-- Digits are plain if there is one of them or no zero in front. -/
theorem isPlain_iff {ds : List Char} :
    Reader.isPlain ds = true ↔ ds.length = 1 ∨ ds.head? ≠ some '0' := by
  simp [Reader.isPlain]

/-- Digits and an identifier after them are read forward. -/
theorem isForward_digitsAndIdentifier :
    ((run Decimal.isDigit).optional.and (Reader.identifier.and done)).IsForward :=
  (isForward_run _).optional.and ((isForward_run1 _).and isForward_done)

/-- Digits of which none is left out are read as they are, unless they start with a zero that is not
    alone. -/
theorem numeric_append {ds post : List Char} (hne : ds ≠ []) (hds : ∀ c ∈ ds, c.isDigit = true)
    (hplain : ds.length = 1 ∨ ds.head? ≠ some '0')
    (hpost : ∀ c ∈ post.head?, ¬ IsIdentifierChar c) :
    Reader.numeric (ds ++ post) = .read ds post := by
  have hrun : run1 Decimal.isDigit (ds ++ post) = .read ds post :=
    run1_append hne hds (isDigit_eq_false_of_stop hpost)
  exact mapIf_of_read hrun (by simp [isPlain_iff.mpr hplain])

/-- Digits alone are no identifier with something else in it. -/
theorem alphanumeric_of_digits {ds post : List Char} (hds : ∀ c ∈ ds, c.isDigit = true)
    (hpost : ∀ c ∈ post.head?, ¬ IsIdentifierChar c) :
    Reader.alphanumeric.attempt (ds ++ post) = .stuck (ds ++ post) := by
  have hrun : run Decimal.isDigit (ds ++ post) = .read ds post :=
    run_append hds (isDigit_eq_false_of_stop hpost)
  have hstuck : Reader.identifier post = .stuck post :=
    run1_of_stop fun c hc => isIdentifierChar_eq_false (hpost c hc)
  have hread : Reader.alphanumeric (ds ++ post) = .stuck post := by
    unfold Reader.alphanumeric TextReader.map stretch
    rw [and_of_read (optional_of_read hrun), and_of_stuck hstuck]
    rfl
  exact attempt_of_stuck hread

/-- An identifier with something else than digits in it is read as it is. -/
theorem alphanumeric_append {w post : List Char} (hw : IsIdentifier w)
    (hother : ∃ c ∈ w, c.isDigit = false) (hpost : ∀ c ∈ post.head?, ¬ IsIdentifierChar c) :
    Reader.alphanumeric.attempt (w ++ post) = .read w post := by
  -- the digits in front are read first, and something is left after them, which does not start with
  -- a digit
  obtain ⟨ds, tail, hrun⟩ : ∃ ds tail, run Decimal.isDigit w = .read ds tail := ⟨_, _, rfl⟩
  obtain ⟨rfl, hds⟩ := run_eq_read hrun
  have htail : tail ≠ [] := by
    rintro rfl
    obtain ⟨c, hc, hnot⟩ := hother
    rw [List.append_nil] at hc
    exact absurd (hds c hc) (by simp [Decimal.isDigit_eq, hnot])
  have hhead : (tail ++ post).head? = tail.head? := by
    cases tail with
    | nil => contradiction
    | cons c tail => rfl
  have hdigits : run Decimal.isDigit (ds ++ (tail ++ post)) = .read ds (tail ++ post) := by
    refine run_append hds fun c hc => ?_
    rw [hhead] at hc
    exact run_stops hrun c hc
  have hidentifier : Reader.identifier (tail ++ post) = .read tail post :=
    recognizes_identifier.append ⟨htail, fun c hc => hw.2 c (by simp [hc])⟩ hpost
  have hread : ((run Decimal.isDigit).optional.and (Reader.identifier.and done))
      (ds ++ tail ++ post) = .read (some ds, tail, ()) post := by
    rw [List.append_assoc, and_of_read (optional_of_read hdigits), and_of_read hidentifier]
    rfl
  refine attempt_of_read ?_
  rw [Reader.alphanumeric, map_of_read (stretch_of_read hread)]

/-- What is read as such an identifier is one. -/
theorem alphanumeric_eq_read {cs w rest : List Char}
    (h : Reader.alphanumeric.attempt cs = .read w rest) :
    cs = w ++ rest ∧ IsIdentifier w ∧ ∃ c ∈ w, c.isDigit = false := by
  obtain ⟨⟨text, o, tail, _⟩, hstretch, rfl⟩ := map_eq_read (attempt_eq_read h)
  obtain ⟨hread, hcs⟩ := stretch_eq_read isForward_digitsAndIdentifier hstretch
  obtain ⟨mid, hdigits, hafter⟩ := and_eq_read hread
  obtain ⟨mid', hidentifier, hdone⟩ := and_eq_read hafter
  obtain rfl := done_eq_read hdone
  obtain ⟨rfl, htail, hchars⟩ := recognizes_identifier.eq_read hidentifier
  obtain ⟨ds, rfl, hrun⟩ | ⟨rfl, rfl⟩ := optional_eq_read hdigits
  · obtain ⟨rfl, hds⟩ := run_eq_read hrun
    obtain rfl : text = ds ++ tail := by
      rw [← List.append_assoc] at hcs
      exact (List.append_cancel_right hcs).symm
    cases tail with
    | nil => contradiction
    | cons c tail =>
      refine ⟨hcs, ⟨by simp, ?_⟩, c, by simp, run_stops hrun c rfl⟩
      intro d hd
      exact (List.mem_append.mp hd).elim (fun hd => .of_isDigit (hds d hd)) (hchars d)
  · -- a run of digits is always read, if only an empty one
    cases hdigits

/-- The reader for one part of a pre-release takes those, up to where their characters end. -/
theorem recognizes_preReleaseIdentifier :
    Recognizes Reader.preReleaseIdentifier IsPreReleaseIdentifier IsIdentifierChar where
  forward := by
    refine isForward_first fun r hr => ?_
    obtain rfl | rfl : r = Reader.alphanumeric.attempt ∨ r = Reader.numeric := by simpa using hr
    · exact (isForward_digitsAndIdentifier.stretch.map _).attempt
    · exact (isForward_run1 _).mapIf _
  append := by
    intro w post hw hpost
    obtain ⟨hidentifier, hkind⟩ := hw
    by_cases hother : ∃ c ∈ w, c.isDigit = false
    · have hread := alphanumeric_append hidentifier hother hpost
      rw [Reader.preReleaseIdentifier, first_of_ne_stuck (by simp [hread]), hread]
    · have hdigits : ∀ c ∈ w, c.isDigit = true := by
        intro c hc
        cases hdigit : c.isDigit with
        | true => rfl
        | false => exact absurd ⟨c, hc, hdigit⟩ hother
      have hplain : w.length = 1 ∨ w.head? ≠ some '0' := by
        obtain ⟨hone, _⟩ | ⟨_, hhead⟩ | hnot := hkind
        · exact .inl hone
        · exact .inr hhead
        · exact absurd hnot hother
      have hread := numeric_append hidentifier.1 hdigits hplain hpost
      rw [Reader.preReleaseIdentifier, first_of_stuck (alphanumeric_of_digits hdigits hpost),
        first_of_ne_stuck (by simp [hread]), hread]
  eq_read := by
    intro cs w rest h
    obtain ⟨r, hr, hread⟩ := first_eq_read h
    obtain rfl | rfl : r = Reader.alphanumeric.attempt ∨ r = Reader.numeric := by simpa using hr
    · obtain ⟨hcs, hw, hother⟩ := alphanumeric_eq_read hread
      exact ⟨hcs, hw, .inr (.inr hother)⟩
    · obtain ⟨ds, hrun, hguard⟩ := mapIf_eq_read hread
      obtain ⟨rfl, hplain⟩ := Option.guard_eq_some_iff.mp hguard
      obtain ⟨hcs, hne, hds⟩ := run1_eq_read hrun
      refine ⟨hcs, ⟨hne, fun c hc => .of_isDigit (hds c hc)⟩, ?_⟩
      obtain hone | hhead := isPlain_iff.mp hplain
      · exact .inl ⟨hone, hds⟩
      · exact .inr (.inl ⟨hds, hhead⟩)

/-! ### Words with dots in between -/

section Dotted

variable {one : TextReader (List Char)} {P : List Char → Prop}

/-- The rounds of a repetition before the last one read words with a dot after each. -/
theorem isDotted_of_rounds (h : Recognizes one P IsIdentifierChar) {ws : List (List Char)}
    {cs mid w rest : List Char} (hrounds : Rounds one (char (· == '.')) ws cs mid)
    (hlast : one mid = .read w rest) :
    ∃ w', cs = w' ++ rest ∧ IsDotted P w' := by
  induction hrounds with
  | nil =>
    obtain ⟨hcs, hw⟩ := h.eq_read hlast
    exact ⟨w, hcs, .last hw⟩
  | cons hfirst hdot _ ih =>
    obtain ⟨rfl, hw⟩ := h.eq_read hfirst
    obtain ⟨rfl, hc⟩ := char_eq_read hdot
    obtain ⟨w', rfl, hw'⟩ := ih hlast
    rw [beq_iff_eq] at hc
    subst hc
    exact ⟨_, by rw [List.append_assoc, List.cons_append], .more hw hw'⟩

variable (h : Recognizes one P IsIdentifierChar) (hP : ∀ w, P w → IsIdentifier w)

include h hP

/-- Words with dots in between are read one by one. -/
theorem separated_append {w post : List Char} (hw : IsDotted P w)
    (hpost : ∀ c ∈ post.head?, ¬ (IsIdentifierChar c ∨ c = '.')) (dangling : Bool) :
    ∃ ws, separated one (char (· == '.')) false dangling (w ++ post) = .read ws post ∧
      1 ≤ ws.length := by
  have hgrows : ∀ {w} (post : List Char), P w → post ≠ w ++ post := by
    intro w post hw heq
    have hlen := congrArg List.length heq
    have hpos := List.length_pos_iff.mpr (hP w hw).1
    rw [List.length_append] at hlen
    omega
  -- by induction on the words: after each of them but the last there is a dot
  induction hw generalizing dangling with
  | @last w hw =>
    have hread := h.append hw fun c hc hgoes => hpost c hc (.inl hgoes)
    have hdot : char (· == '.') post = .stuck post :=
      char_of_ne fun c hc heq => hpost c hc (.inr heq)
    exact ⟨[w], separated_of_last hread (hgrows post hw) hdot false dangling, Nat.le_refl 1⟩
  | @more w w' hw _ ih =>
    obtain ⟨ws, hws, _⟩ := ih true
    have hread : one (w ++ '.' :: (w' ++ post)) = .read w ('.' :: (w' ++ post)) := by
      refine h.append hw fun c hc => ?_
      obtain rfl : '.' = c := by simpa using hc
      decide
    have hlt : (w' ++ post).length < (w ++ '.' :: (w' ++ post)).length := by
      simp only [List.length_append, List.length_cons]
      omega
    refine ⟨w :: ws, ?_, by simp⟩
    rw [List.append_assoc, List.cons_append,
      separated_of_more hread (hgrows _ hw) (char_append '.' _) hlt, hws, TextOutcome.map_read]

/-- What takes one word makes a reader that takes words with dots in between. -/
theorem Recognizes.identifiers :
    Recognizes (Reader.identifiers one) (IsDotted P) fun c => IsIdentifierChar c ∨ c = '.' where
  forward := (((h.forward.separated (isForward_char _) false false).atLeast 1).stretch).map _
  append := by
    intro w post hw hpost
    obtain ⟨ws, hws, hlen⟩ := separated_append h hP hw hpost false
    exact map_of_read (stretch_of_read (atLeast_of_read hws hlen)) Prod.fst
  eq_read := by
    intro cs w rest hread
    have hforward : (separated one (char (· == '.')) false false).IsForward :=
      h.forward.separated (isForward_char _) false false
    obtain ⟨⟨text, ws⟩, hstretch, rfl⟩ := map_eq_read hread
    obtain ⟨hatLeast, hcs⟩ := stretch_eq_read (hforward.atLeast 1) hstretch
    obtain ⟨hws, hlen⟩ := atLeast_eq_read hatLeast
    obtain ⟨ws', mid, hrounds, ⟨rfl, -, htrailing⟩ | ⟨w, -, hlast⟩⟩ := separated_eq_read hws
    · -- there is a word, so a dot would come last
      have hne : ws ≠ [] := List.ne_nil_of_length_pos hlen
      exact absurd (htrailing (.inl hne)) Bool.false_ne_true
    · obtain ⟨w', hcs', hw'⟩ := isDotted_of_rounds h hrounds hlast
      obtain rfl : text = w' := List.append_cancel_right (hcs.symm.trans hcs')
      exact ⟨hcs, hw'⟩

/-! ### Parts -/

/-- A part is read if it is there, where nothing follows that could go on with it or be one. -/
theorem optional_part_append {mark : Char} {w post : List Char} (hw : w = [] ∨ IsDotted P w)
    (hpost : ∀ c ∈ post.head?, ¬ (IsIdentifierChar c ∨ c = '.') ∧ c ≠ mark) :
    ∃ o, (Reader.part mark one).optional (marked mark w ++ post) = .read o post ∧
      o.getD [] = w := by
  obtain rfl | hw := hw
  · have hstuck : char (· == mark) post = .stuck post := char_of_ne fun c hc => (hpost c hc).2
    have hmarked : ((char (· == mark)).and ((Reader.identifiers one).and done)).map (·.2.1) post =
        .stuck post := by
      rw [TextReader.map, and_of_stuck hstuck, TextOutcome.map_stuck]
    exact ⟨none, optional_of_stuck (attempt_of_stuck hmarked), rfl⟩
  · have hread := (h.identifiers hP).append hw fun c hc => (hpost c hc).1
    have hpart : Reader.part mark one (mark :: (w ++ post)) = .read w post := by
      refine attempt_of_read (map_of_read (a := (mark, w, ())) ?_ _)
      rw [and_of_read (char_append mark _), and_of_read hread]
      rfl
    rw [marked_of_ne_nil (hw.ne_nil fun w hw => (hP w hw).1), List.cons_append]
    exact ⟨some w, optional_of_read hpart, rfl⟩

/-- What is read as a part that may not be there is one, or nothing. -/
theorem optional_part_eq_read {mark : Char} {cs rest : List Char} {o : Option (List Char)}
    (hread : (Reader.part mark one).optional cs = .read o rest) :
    cs = marked mark (o.getD []) ++ rest ∧ (o.getD [] = [] ∨ IsDotted P (o.getD [])) := by
  obtain ⟨w, rfl, hpart⟩ | ⟨rfl, rfl⟩ := optional_eq_read hread
  · obtain ⟨⟨c, w', _⟩, hmarked, rfl⟩ := map_eq_read (attempt_eq_read hpart)
    obtain ⟨mid, hc, hafter⟩ := and_eq_read hmarked
    obtain ⟨mid', hidentifiers, hdone⟩ := and_eq_read hafter
    obtain rfl := done_eq_read hdone
    obtain ⟨rfl, hmark⟩ := char_eq_read hc
    obtain ⟨rfl, hw⟩ := (h.identifiers hP).eq_read hidentifiers
    rw [beq_iff_eq] at hmark
    rw [Option.getD_some, marked_of_ne_nil (hw.ne_nil fun w hw => (hP w hw).1),
      List.cons_append, ← hmark]
    exact ⟨rfl, .inr hw⟩
  · exact ⟨rfl, .inl rfl⟩

end Dotted

/-! ### Versions -/

/-- A number and its dot are read. -/
theorem dotted_append {ds : List Char} (hds : IsComponent ds) (post : List Char) :
    Reader.dotted (ds ++ '.' :: post) = .read ds post := by
  have hread : Reader.component (ds ++ '.' :: post) = .read ds ('.' :: post) := by
    refine recognizes_component.append hds fun c hc => ?_
    obtain rfl : '.' = c := by simpa using hc
    decide
  refine map_of_read (a := (ds, '.', ())) ?_ _
  rw [and_of_read hread, and_of_read (char_append '.' post)]
  rfl

/-- What is read so is a number and its dot. -/
theorem dotted_eq_read {cs ds rest : List Char} (h : Reader.dotted cs = .read ds rest) :
    cs = ds ++ '.' :: rest ∧ IsComponent ds := by
  obtain ⟨⟨_, c, _⟩, hread, rfl⟩ := map_eq_read h
  obtain ⟨mid, hcomponent, hafter⟩ := and_eq_read hread
  obtain ⟨mid', hc, hdone⟩ := and_eq_read hafter
  obtain rfl := done_eq_read hdone
  obtain ⟨rfl, hdot⟩ := char_eq_read hc
  obtain ⟨rfl, hds⟩ := recognizes_component.eq_read hcomponent
  rw [beq_iff_eq] at hdot
  exact ⟨by rw [← hdot], hds⟩

/-- What comes after the numbers starts with a mark. -/
theorem eq_mark_of_mem_head? {p m : List Char} {c : Char}
    (hc : c ∈ (marked '-' p ++ marked '+' m).head?) :
    c = '-' ∨ c = '+' := by
  cases p with
  | cons d p => exact .inl (by simpa [marked] using hc.symm)
  | nil =>
    cases m with
    | cons d m => exact .inr (by simpa [marked] using hc.symm)
    | nil => cases hc

/-- The reader of the parts of a version. -/
theorem parts_append {a b c p m : List Char} (ha : IsComponent a) (hb : IsComponent b)
    (hc : IsComponent c) (hp : p = [] ∨ IsDotted IsPreReleaseIdentifier p)
    (hm : m = [] ∨ IsDotted IsIdentifier m) :
    ∃ o o', o.getD [] = p ∧ o'.getD [] = m ∧
      (Reader.core.and ((Reader.part '-' Reader.preReleaseIdentifier).optional.and
        ((Reader.part '+' Reader.identifier).optional.and done)))
        (a ++ '.' :: (b ++ '.' :: (c ++ (marked '-' p ++ marked '+' m)))) =
          .read ((a, b, c, ()), o, o', ()) [] := by
  have hcomponent : Reader.component (c ++ (marked '-' p ++ marked '+' m)) =
      .read c (marked '-' p ++ marked '+' m) := by
    refine recognizes_component.append hc fun d hd => ?_
    obtain rfl | rfl := eq_mark_of_mem_head? hd
    · decide
    · decide
  have hcore : Reader.core (a ++ '.' :: (b ++ '.' :: (c ++ (marked '-' p ++ marked '+' m)))) =
      .read (a, b, c, ()) (marked '-' p ++ marked '+' m) := by
    rw [Reader.core, and_of_read (dotted_append ha _), and_of_read (dotted_append hb _),
      and_of_read hcomponent]
    rfl
  have hplus : ∀ d ∈ (marked '+' m).head?, ¬ (IsIdentifierChar d ∨ d = '.') ∧ d ≠ '-' := by
    intro d hd
    cases m with
    | nil => cases hd
    | cons e m =>
      obtain rfl : '+' = d := by simpa [marked] using hd
      decide
  obtain ⟨o, hpre, ho⟩ :=
    optional_part_append recognizes_preReleaseIdentifier (fun _ hw => hw.1) hp hplus
  obtain ⟨o', hbuild, ho'⟩ :
      ∃ o', (Reader.part '+' Reader.identifier).optional (marked '+' m ++ []) = .read o' [] ∧
      o'.getD [] = m := optional_part_append recognizes_identifier (fun _ hw => hw) hm nofun
  rw [List.append_nil] at hbuild
  refine ⟨o, o', ho, ho', ?_⟩
  rw [and_of_read hcore, and_of_read hpre, and_of_read hbuild]
  rfl

/-- **The reader reads every version.** -/
theorem version_append {v : SemVer} {text : List Char} (h : IsVersion v text) :
    Reader.version text = .read v [] := by
  obtain ⟨ha, hb, hc, hp, hm⟩ := h
  obtain ⟨o, o', rfl, rfl, hparts⟩ := parts_append ha hb hc hp hm
  refine map_of_read (a := (_, (), ())) ?_ _
  rw [and_of_read (map_of_read hparts Reader.versionOf)]
  rfl

/-- **The reader reads only versions.** -/
theorem version_eq_read {v : SemVer} {text rest : List Char}
    (h : Reader.version text = .read v rest) :
    IsVersion v text := by
  obtain ⟨⟨_, u, _⟩, hread, rfl⟩ := map_eq_read h
  obtain ⟨_, hversion, hend⟩ := and_eq_read hread
  obtain ⟨⟨⟨a, b, c, _⟩, p, m, _⟩, hparts, rfl⟩ := map_eq_read hversion
  -- nothing is left after the parts
  obtain ⟨_, hatEnd, _⟩ := and_eq_read hend
  obtain ⟨rfl, -⟩ := atEnd_eq_read hatEnd
  obtain ⟨_, hcore, hoptional⟩ := and_eq_read hparts
  obtain ⟨_, hmajor, hcore⟩ := and_eq_read hcore
  obtain ⟨_, hminor, hcore⟩ := and_eq_read hcore
  obtain ⟨_, hpatch, hdone⟩ := and_eq_read hcore
  obtain rfl := done_eq_read hdone
  obtain ⟨_, hpre, hoptional⟩ := and_eq_read hoptional
  obtain ⟨_, hbuild, hdone⟩ := and_eq_read hoptional
  obtain rfl := done_eq_read hdone
  -- every part of the text is what its reader recognizes
  obtain ⟨rfl, ha⟩ := dotted_eq_read hmajor
  obtain ⟨rfl, hb⟩ := dotted_eq_read hminor
  obtain ⟨rfl, hc⟩ := recognizes_component.eq_read hpatch
  obtain ⟨rfl, hp⟩ := optional_part_eq_read recognizes_preReleaseIdentifier (fun _ hw => hw.1) hpre
  obtain ⟨rfl, hm⟩ := optional_part_eq_read recognizes_identifier (fun _ hw => hw) hbuild
  rw [List.append_nil]
  exact .parts ha hb hc hp hm

/-- A text is read as a version exactly if it is one. -/
theorem version?_eq_some {v : SemVer} {text : List Char} :
    Reader.version? text = some v ↔ IsVersion v text := by
  constructor
  · intro h
    unfold Reader.version? at h
    split at h
    · next v' rest hread =>
      obtain rfl := Option.some.inj h
      exact version_eq_read hread
    · cases h
  · intro h
    rw [Reader.version?, version_append h]

/-- **The version parser accepts exactly the texts of versions.**  If the example grammars are on, a
    parse comes to no fault, and it gives a version just in case the text is one of that version. -/
theorem parse_isVersion (config : Config) (text : List Char) :
    ∃ o, parse config text = (config.require .exampleGrammars).map (fun _ => o) ∧ ∀ v, o = some v ↔
      IsVersion v text :=
  ⟨Reader.version? text, parse_eq config text, fun _ => version?_eq_some⟩

end Itemwise.SemVer
