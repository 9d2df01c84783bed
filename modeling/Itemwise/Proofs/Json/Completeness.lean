import Itemwise.Proofs.Json.Nesting
import Itemwise.Proofs.Json.Reader

namespace Itemwise.Json

open TextReader

/-!
# The reader reads every document

By induction on how a text is written, the reader reads its tree, or comes to the first fault in it.
-/

/-! ### Characters -/

/-- The digits of the grammar are those of the reader. -/
theorem isDigit_iff {c : Char} : Decimal.isDigit c = true ↔ IsDigit c := by
  simp [Decimal.isDigit, IsDigit]

/-- The hexadecimal digits of the grammar are those of the reader. -/
theorem isHex_iff {c : Char} : isHex c = true ↔ IsHex c := by
  simp [isHex, IsHex, IsDigit, or_assoc]

/-- White space is one of five characters. -/
theorem isBlank_iff {c : Char} :
    isBlank c = true ↔ c = ' ' ∨ c = '\t' ∨ c = '\n' ∨ c = '\r' ∨ c = '\x0c' := by
  simp [isBlank, Leaf.blankChars]

/-- A plain character is neither a quote nor a backslash, and no control character. -/
theorem isPlain_iff {c : Char} : isPlain c = true ↔ c ≠ '"' ∧ c ≠ '\\' ∧ ' ' ≤ c := by
  simp [isPlain, and_assoc]

/-- White space before something else is skipped. -/
theorem dropWhile_isBlank_append {ws cs : List Char} (hws : IsBlank ws)
    (hcs : ∀ c ∈ cs.head?, isBlank c = false) :
    (ws ++ cs).dropWhile isBlank = cs := by
  rw [List.dropWhile_append_of_pos fun c hc => isBlank_iff.mpr (hws c hc)]
  cases cs with
  | nil => rfl
  | cons c cs => simp [hcs c rfl]

/-- After white space, a reader does what it does without. -/
theorem eat_append {α : Type} {r : TextReader α} {ws cs : List Char} (hws : IsBlank ws)
    (hcs : ∀ c ∈ cs.head?, isBlank c = false) (hr : ∀ rest, r cs ≠ .stuck rest) :
    r.eat (ws ++ cs) = r cs := by
  rw [eat, dropWhile_isBlank_append hws hcs]
  split
  · next rest heq => exact absurd heq (hr rest)
  · rfl

/-- White space is skipped before something that is read. -/
theorem eat_of_read {α : Type} {r : TextReader α} {ws cs rest : List Char} {a : α}
    (hws : IsBlank ws) (hcs : ∀ c ∈ cs.head?, isBlank c = false) (hr : r cs = .read a rest) :
    r.eat (ws ++ cs) = .read a rest := by
  rw [eat_append hws hcs (by simp [hr]), hr]

/-- White space is not consumed before something that is missing. -/
theorem eat_stuck {α : Type} {r : TextReader α} {ws cs : List Char} (hws : IsBlank ws)
    (hcs : ∀ c ∈ cs.head?, isBlank c = false) (hr : r cs = .stuck cs) :
    r.eat (ws ++ cs) = .stuck (ws ++ cs) := by
  rw [eat, dropWhile_isBlank_append hws hcs, hr]
  simp

/-- A single character is read behind white space. -/
theorem token_append {c : Char} (hc : isBlank c = false) {ws : List Char} (hws : IsBlank ws)
    (post : List Char) :
    Reader.token c (ws ++ c :: post) = .read c post := by
  have hchar : char (· == c) (c :: post) = .read c post := by simp [char]
  exact eat_of_read hws (by simpa using hc) hchar

/-- Another character behind white space is not. -/
theorem token_stuck {c d : Char} (hd : isBlank d = false) (hne : d ≠ c) {ws : List Char}
    (hws : IsBlank ws) (post : List Char) :
    Reader.token c (ws ++ d :: post) = .stuck (ws ++ d :: post) :=
  eat_stuck hws (by simpa using hd) (by simp [char, hne])

/-! ### Numbers -/

/-- What may follow a number: nothing that would go on with it. -/
def Ends (post : List Char) : Prop := ∀ c ∈ post.head?, ¬ IsDigit c ∧ c ≠ '.' ∧ c ≠ 'e' ∧ c ≠ 'E'

/-- The digits of a text end where a character is no digit. -/
theorem takeWhile_isDigit_append {ds post : List Char} (hds : ∀ c ∈ ds, IsDigit c)
    (hpost : ∀ c ∈ post.head?, ¬ IsDigit c) :
    (ds ++ post).takeWhile Decimal.isDigit = ds ∧ (ds ++ post).dropWhile Decimal.isDigit = post :=
  takeWhile_append_of_stop (fun c hc => isDigit_iff.mpr (hds c hc))
    fun c hc => Bool.eq_false_iff.mpr fun h => hpost c hc (isDigit_iff.mp h)

/-- The digits of a text are read, all of them. -/
theorem digits_append {ds post : List Char} (hds : AreDigits ds)
    (hpost : ∀ c ∈ post.head?, ¬ IsDigit c) :
    Reader.digits (ds ++ post) = .read ds post := by
  refine run1_append hds.1 (fun c hc => isDigit_iff.mpr (hds.2 c hc)) fun c hc => ?_
  exact Bool.eq_false_iff.mpr fun hdigit => hpost c hc (isDigit_iff.mp hdigit)

/-- A whole number is read to its last digit. -/
theorem whole_append {w post : List Char} (hw : IsWhole w) (hpost : ∀ c ∈ post.head?, ¬ IsDigit c) :
    Reader.whole (w ++ post) = .read w post := by
  cases hw with
  | zero => simp [Reader.whole, first, TextReader.map, char]
  | @digits d ds hlow hhigh hds =>
    have hne : d ≠ '0' := by
      rintro rfl
      exact absurd hlow (by decide)
    have hstop := takeWhile_isDigit_append hds hpost
    have hwidth : ds.length + post.length + 1 - post.length = ds.length + 1 := by omega
    simp [Reader.whole, first, TextReader.map, char, hne, stretch, TextReader.and, run, done, hlow,
      hhigh, hstop.1, hstop.2, hwidth]

/-- A fraction is read if it is there. -/
theorem fraction_append {f post : List Char} (hf : f = [] ∨ IsFraction f)
    (hpost : ∀ c ∈ post.head?, ¬ IsDigit c ∧ c ≠ '.') :
    ∃ ds, Reader.fraction.optional (f ++ post) = .read ds post ∧ (ds = none ↔ f = []) := by
  obtain rfl | hf := hf
  · have hstuck : Reader.fraction post = .stuck post := by
      cases post with
      | nil => rfl
      | cons c post => simp [Reader.fraction, TextReader.map, TextReader.and, char, (hpost c rfl).2]
    exact ⟨none, optional_of_stuck hstuck, by simp⟩
  · cases hf with
    | @point ds hds =>
      have hdigits := digits_append hds fun c hc => (hpost c hc).1
      have hread : Reader.fraction ('.' :: (ds ++ post)) = .read ds post := by
        simp [Reader.fraction, TextReader.map, TextReader.and, char, hdigits, done]
      exact ⟨some ds, optional_of_read hread, by simp⟩

/-- The sign of an exponent is read if it is there. -/
theorem sign_append {sign ds : List Char} (hsign : sign = [] ∨ sign = ['+'] ∨ sign = ['-'])
    (hds : AreDigits ds) (post : List Char) :
    ∃ x, (char ['+', '-'].contains).optional (sign ++ (ds ++ post)) = .read x (ds ++ post) := by
  obtain rfl | rfl | rfl := hsign
  · obtain ⟨hne, hds⟩ := hds
    cases ds with
    | nil => contradiction
    | cons d ds =>
      have hd := hds d (by simp)
      have hother : ['+', '-'].contains d = false := by
        refine Bool.eq_false_iff.mpr fun hmem => ?_
        have hd' : d = '+' ∨ d = '-' := by simpa using hmem
        obtain rfl | rfl := hd'
        · exact absurd hd (by decide)
        · exact absurd hd (by decide)
      exact ⟨none, optional_of_stuck
        (by simp only [List.nil_append, List.cons_append, char, hother]; rfl)⟩
  · exact ⟨some '+', rfl⟩
  · exact ⟨some '-', rfl⟩

/-- An exponent is read if it is there. -/
theorem exponent_append {e post : List Char} (he : e = [] ∨ IsExponent e) (hpost : Ends post) :
    ∃ x, Reader.exponent.optional (e ++ post) = .read x post ∧ (x = none ↔ e = []) := by
  obtain rfl | he := he
  · have hstuck : Reader.exponent post = .stuck post := by
      cases post with
      | nil => rfl
      | cons c post =>
        have hc := (hpost c rfl).2.2
        simp [Reader.exponent, TextReader.and, char, hc.1, hc.2]
    exact ⟨none, optional_of_stuck hstuck, by simp⟩
  · cases he with
    | @mark m sign ds hm hsign hds =>
      have hdigits := digits_append hds fun c hc => (hpost c hc).1
      obtain ⟨x, hx⟩ := sign_append hsign hds post
      have hmark : char ['e', 'E'].contains (m :: (sign ++ (ds ++ post))) =
          .read m (sign ++ (ds ++ post)) := by
        simp [char, hm]
      have hread : Reader.exponent (m :: (sign ++ (ds ++ post))) = .read (m, x, ds, ()) post := by
        rw [Reader.exponent, and_of_read hmark, and_of_read hx, and_of_read hdigits]
        rfl
      refine ⟨some (m, x, ds, ()), ?_, by simp⟩
      rw [List.cons_append, List.append_assoc]
      exact optional_of_read hread

/-- A minus sign is read if it is there, and then the whole number. -/
theorem minus_append {i post : List Char} (hi : IsInteger i)
    (hpost : ∀ c ∈ post.head?, ¬ IsDigit c) :
    ∃ m w mid, (char (· == '-')).optional (i ++ post) = .read m mid ∧
      Reader.whole mid = .read w post := by
  cases hi with
  | unsigned hw =>
    have hstuck : char (· == '-') (i ++ post) = .stuck (i ++ post) := by
      cases hw with
      | zero => rfl
      | @digits d ds hlow _ _ =>
        have hne : d ≠ '-' := by
          rintro rfl
          exact absurd hlow (by decide)
        simp [char, hne]
    exact ⟨none, i, i ++ post, optional_of_stuck hstuck, whole_append hw hpost⟩
  | @negative w hw => exact ⟨some '-', w, w ++ post, rfl, whole_append hw hpost⟩

/-- Where an exponent or the end of a number comes, no digit or point comes. -/
theorem head?_exponent_append {e post : List Char} (he : e = [] ∨ IsExponent e)
    (hpost : Ends post) :
    ∀ c ∈ (e ++ post).head?, ¬ IsDigit c ∧ c ≠ '.' := by
  intro c hc
  obtain rfl | ⟨hm, _, _⟩ := he
  · exact ⟨(hpost c hc).1, (hpost c hc).2.1⟩
  · obtain rfl : _ = c := by simpa using hc
    obtain rfl | rfl := hm
    · decide
    · decide

/-- Where a fraction comes or something else than a digit, no digit comes. -/
theorem head?_fraction_append {f post : List Char} (hf : f = [] ∨ IsFraction f)
    (hpost : ∀ c ∈ post.head?, ¬ IsDigit c) : ∀ c ∈ (f ++ post).head?, ¬ IsDigit c := by
  intro c hc
  obtain rfl | hf := hf
  · exact hpost c hc
  · cases hf
    obtain rfl : '.' = c := by simpa using hc
    decide

/-- A number is read with all its parts. -/
theorem number_append {i f e post : List Char} (hi : IsInteger i) (hf : f = [] ∨ IsFraction f)
    (he : e = [] ∨ IsExponent e) (hpost : Ends post) :
    Reader.number (i ++ f ++ e ++ post) =
      .ofExcept (if f = [] ∧ e = [] then Reader.shortInteger i
        else .ok (.decimal (i ++ f ++ e))) post := by
  have hexponent := head?_exponent_append he hpost
  have hfraction := head?_fraction_append hf fun c hc => (hexponent c hc).1
  obtain ⟨m, w, mid, hminus, hwhole⟩ := minus_append hi hfraction
  obtain ⟨ds, hds, hdsnil⟩ := fraction_append hf hexponent
  obtain ⟨x, hx, hxnil⟩ := exponent_append he hpost
  have hassoc : i ++ f ++ e ++ post = i ++ (f ++ (e ++ post)) := by simp
  have htake : (i ++ f ++ e ++ post).take ((i ++ f ++ e ++ post).length - post.length) =
      i ++ f ++ e := by
    rw [List.length_append, Nat.add_sub_cancel, List.take_left']
    rfl
  -- the parts are read one after the other, and then the text that they took together is converted
  rw [Reader.number, convert, stretch, Reader.numberParts, hassoc, and_of_read hminus,
    and_of_read hwhole, and_of_read hds, and_of_read hx, ← hassoc]
  simp only [done, TextOutcome.map_read, TextOutcome.bind_read, htake]
  cases ds with
  | none =>
    obtain rfl := hdsnil.mp rfl
    cases x with
    | none =>
      obtain rfl := hxnil.mp rfl
      simp [Reader.numberOf]
    | some x =>
      have hne : e ≠ [] := fun h => by simpa using hxnil.mpr h
      simp [Reader.numberOf, hne]
  | some ds =>
    have hne : f ≠ [] := fun h => by simpa using hdsnil.mpr h
    simp [Reader.numberOf, hne]

/-! ### Strings -/

/-- What is left of the body of a string after its first plain characters is the body of one
    again. -/
theorem IsBody.dropWhile {b : List Char} (h : IsBody b) : IsBody (b.dropWhile isPlain) := by
  induction h with
  | nil => exact .nil
  | @plain c b hlow hquote hslash _ ih =>
    have hplain : isPlain c = true := isPlain_iff.mpr ⟨hquote, hslash, hlow⟩
    simpa [hplain] using ih
  | @escape c b hc hb => exact .escape hc hb
  | @unicode h₁ h₂ h₃ h₄ b hh₁ hh₂ hh₃ hh₄ hb => exact .unicode hh₁ hh₂ hh₃ hh₄ hb

/-- An escaped letter is read as the letter. -/
theorem escape_letter {c : Char} (hc : c ∈ escapeLetters) (rest : List Char) :
    Reader.escape ('\\' :: c :: rest) = .read [c] rest := by
  have hne : c ≠ 'u' := by
    rintro rfl
    exact absurd hc (by decide)
  simp [Reader.escape, TextReader.and, TextReader.map, first, char, hne, hc, done]

/-- An escaped code is read as its four digits. -/
theorem escape_unicode {h₁ h₂ h₃ h₄ : Char} (hh₁ : IsHex h₁) (hh₂ : IsHex h₂) (hh₃ : IsHex h₃)
    (hh₄ : IsHex h₄) (rest : List Char) :
    Reader.escape ('\\' :: 'u' :: h₁ :: h₂ :: h₃ :: h₄ :: rest) = .read [h₁, h₂, h₃, h₄] rest := by
  have hwidth : rest.length + 1 + 1 + 1 + 1 - rest.length = 4 := by omega
  simp [Reader.escape, TextReader.and, TextReader.map, first, char, again, stretch,
    isHex_iff.mpr hh₁, isHex_iff.mpr hh₂, isHex_iff.mpr hh₃, isHex_iff.mpr hh₄, done, hwidth]

/-- At a backslash, a part of the body is an escape. -/
theorem part_backslash (cs : List Char) :
    Reader.part ('\\' :: cs) = first [Reader.escape] ('\\' :: cs) := by
  have hplain : isPlain '\\' = false := by decide
  exact first_of_stuck (by simp [run1, hplain]) _

/-- Plain characters are one part of the body. -/
theorem part_plain {c : Char} (hc : isPlain c = true) (cs : List Char) :
    Reader.part (c :: cs) = .read (c :: cs.takeWhile isPlain) (cs.dropWhile isPlain) := by
  simp [Reader.part, first, run1, run, hc]

/-- The quote at the end is no plain character. -/
theorem dropWhile_isPlain_append (b post : List Char) :
    (b ++ '"' :: post).dropWhile isPlain = b.dropWhile isPlain ++ '"' :: post := by
  rw [List.dropWhile_append]
  split
  · next hempty =>
    have hquote : isPlain '"' = false := by decide
    rw [List.isEmpty_iff.mp hempty]
    simp [hquote]
  · rfl

/-- After a part of the body, the parts of the rest are read. -/
theorem separated_part {w b b' post : List Char}
    (hread : Reader.part (b ++ '"' :: post) = .read w (b' ++ '"' :: post))
    (hlt : b'.length < b.length) {ws : List (List Char)}
    (hrest : separated Reader.part done true true (b' ++ '"' :: post) = .read ws ('"' :: post))
    (dangling : Bool) :
    separated Reader.part done true dangling (b ++ '"' :: post) =
      .read (w :: ws) ('"' :: post) := by
  have hdone : done (b' ++ '"' :: post) = .read () (b' ++ '"' :: post) := rfl
  have hne : b' ++ '"' :: post ≠ b ++ '"' :: post := by
    intro heq
    rw [List.append_cancel_right heq] at hlt
    omega
  rw [separated_of_more hread hne hdone (by simpa using hlt), hrest]
  rfl

/-- The parts of a body are read up to the quote after it. -/
theorem separated_body {b : List Char} (h : IsBody b) (post : List Char) (dangling : Bool) :
    ∃ ws, separated Reader.part done true dangling (b ++ '"' :: post) = .read ws ('"' :: post) := by
  -- by induction on the length, as plain characters are read many at once
  induction hn : b.length using Nat.strongRecOn generalizing b dangling with
  | ind n ih =>
    subst hn
    cases h with
    | nil =>
      have hstuck : Reader.part ('"' :: post) = .stuck ('"' :: post) := by
        have hplain : isPlain '"' = false := by decide
        simp [Reader.part, first, run1, hplain, Reader.escape, TextReader.map, TextReader.and, char]
      refine ⟨[], ?_⟩
      rw [List.nil_append, separated_of_stuck hstuck]
      simp [ended]
    | @plain c b hlow hquote hslash hb =>
      have hlt : (b.dropWhile isPlain).length < (c :: b).length :=
        Nat.lt_add_one_of_le (List.dropWhile_suffix isPlain).length_le
      obtain ⟨ws, hws⟩ := ih _ hlt hb.dropWhile true rfl
      have hread : Reader.part (c :: b ++ '"' :: post) =
          .read (c :: (b ++ '"' :: post).takeWhile isPlain)
            (b.dropWhile isPlain ++ '"' :: post) := by
        rw [List.cons_append, part_plain (isPlain_iff.mpr ⟨hquote, hslash, hlow⟩),
          dropWhile_isPlain_append]
      exact ⟨_, separated_part hread hlt hws dangling⟩
    | @escape c b hc hb =>
      have hlt : b.length < ('\\' :: c :: b).length := by
        simp only [List.length_cons]
        omega
      obtain ⟨ws, hws⟩ := ih _ hlt hb true rfl
      have hescape := escape_letter hc (b ++ '"' :: post)
      have hread : Reader.part ('\\' :: c :: b ++ '"' :: post) = .read [c] (b ++ '"' :: post) := by
        rw [List.cons_append, List.cons_append, part_backslash,
          first_of_ne_stuck (by simp [hescape]), hescape]
      exact ⟨_, separated_part hread hlt hws dangling⟩
    | @unicode h₁ h₂ h₃ h₄ b hh₁ hh₂ hh₃ hh₄ hb =>
      have hlt : b.length < ('\\' :: 'u' :: h₁ :: h₂ :: h₃ :: h₄ :: b).length := by
        simp only [List.length_cons]
        omega
      obtain ⟨ws, hws⟩ := ih _ hlt hb true rfl
      have hescape := escape_unicode hh₁ hh₂ hh₃ hh₄ (b ++ '"' :: post)
      have hread : Reader.part ('\\' :: 'u' :: h₁ :: h₂ :: h₃ :: h₄ :: b ++ '"' :: post) =
          .read [h₁, h₂, h₃, h₄] (b ++ '"' :: post) := by
        simp only [List.cons_append]
        rw [part_backslash, first_of_ne_stuck (by simp [hescape]), hescape]
      exact ⟨_, separated_part hread hlt hws dangling⟩

/-- The body of a string is read up to the quote at its end. -/
theorem body_append {b : List Char} (h : IsBody b) (post : List Char) :
    Reader.body (b ++ '"' :: post) = .read b ('"' :: post) := by
  obtain ⟨ws, hws⟩ := separated_body h post false
  have hwidth : (b ++ '"' :: post).take ((b ++ '"' :: post).length - ('"' :: post).length) = b := by
    rw [List.length_append, Nat.add_sub_cancel, List.take_left']
    rfl
  rw [Reader.body, TextReader.map, stretch, hws]
  simp only [TextOutcome.bind_read, TextOutcome.map_read, hwidth]

/-- A string is read as its body. -/
theorem string_append {b : List Char} (h : IsBody b) (post : List Char) :
    Reader.string ('"' :: (b ++ '"' :: post)) = .read b post := by
  have hquote : ∀ cs, Reader.quote ('"' :: cs) = .read '"' cs := fun cs => rfl
  rw [Reader.string, TextReader.map, and_of_read (hquote _), and_of_read (body_append h post),
    and_of_read (hquote post)]
  rfl

/-! ### Parts between brackets -/

section Bracketed

variable {α : Type}

/-- What a reader comes to that reads something, or comes to the first fault in it. -/
def outcome (fault? : Option Fault) (a : α) (rest : List Char) : TextOutcome α :=
  fault?.elim (.read a rest) .fault

/-- What is read or ends in a fault is not stuck. -/
theorem outcome_ne_stuck {fault? : Option Fault} {a : α} {rest rest' : List Char} :
    outcome fault? a rest ≠ .stuck rest' := by
  cases fault? <;> simp [outcome]

/-- What is made of the result does not change whether there is a fault. -/
theorem map_outcome {β : Type} (g : α → β) (fault? : Option Fault) (a : α) (rest : List Char) :
    (outcome fault? a rest).map g = outcome fault? (g a) rest := by
  cases fault? <;> rfl

/-- A conversion is not stuck, whether or not it ends in a fault. -/
theorem ofExcept_ne_stuck {e : Except Fault α} {rest rest' : List Char} :
    TextOutcome.ofExcept e rest ≠ .stuck rest' := by
  cases e <;> simp [TextOutcome.ofExcept]

/-- A reader takes a part from its text, without the white space at the end, whatever comes next. -/
def Takes (one : TextReader α) (faultOf : α → Option Fault) (a : α) (w : List Char) : Prop :=
  ∃ v ws, w = v ++ ws ∧ v ≠ [] ∧ IsBlank ws ∧ ∀ post, Ends post →
    one (v ++ post) = outcome (faultOf a) a post

/-- The end of the text ends a number. -/
theorem ends_nil : Ends [] := by simp [Ends]

/-- So does white space, and what ends one behind it. -/
theorem ends_blank_append {ws : List Char} (hws : IsBlank ws) {post : List Char}
    (hpost : Ends post) :
    Ends (ws ++ post) := by
  cases ws with
  | nil => exact hpost
  | cons c ws =>
    intro d hd
    obtain rfl : c = d := by simpa using hd
    obtain rfl | rfl | rfl | rfl | rfl := hws c (by simp)
    all_goals decide

/-- So does a character that no number goes on with. -/
theorem ends_cons {c : Char} (hc : ¬ IsDigit c ∧ c ≠ '.' ∧ c ≠ 'e' ∧ c ≠ 'E') (post : List Char) :
    Ends (c :: post) := by
  intro d hd
  obtain rfl : c = d := by simpa using hd
  exact hc

/-- Parts with commas in between are read one after the other, up to the white space before the
    bracket. -/
theorem separated_listed {one : TextReader α} {faultOf : α → Option Fault} {as : List α}
    {w : List Char} (h : Listed (Takes one faultOf) as w) {c : Char} (hblank : isBlank c = false)
    (hcomma : c ≠ ',') (hends : ¬ IsDigit c ∧ c ≠ '.' ∧ c ≠ 'e' ∧ c ≠ 'E') (post : List Char)
    (dangling : Bool) :
    ∃ ws, IsBlank ws ∧ separated one (Reader.token ',') false dangling (w ++ c :: post) =
      outcome (firstFault faultOf as) as (ws ++ c :: post) := by
  -- the white space after a part is left for the comma, and after the last one for the bracket
  induction h generalizing dangling with
  | @last a w h =>
    obtain ⟨v, ws, rfl, hv, hws, hone⟩ := h
    refine ⟨ws, hws, ?_⟩
    have hread := hone (ws ++ c :: post) (ends_blank_append hws (ends_cons hends post))
    rw [List.append_assoc]
    cases hfault : faultOf a with
    | some f =>
      rw [hfault] at hread
      rw [separated_of_fault hread]
      simp [firstFault, hfault, outcome]
    | none =>
      rw [hfault] at hread
      rw [separated_of_last hread (by simpa using hv) (token_stuck hblank hcomma hws post)]
      simp [firstFault, hfault, outcome]
  | @more a as w w' h _ ih =>
    obtain ⟨v, ws, rfl, hv, hws, hone⟩ := h
    obtain ⟨ws', hws', hrest⟩ := ih true
    refine ⟨ws', hws', ?_⟩
    have hread := hone (ws ++ ',' :: (w' ++ c :: post))
      (ends_blank_append hws (ends_cons (by decide) _))
    have hassoc : v ++ ws ++ ',' :: w' ++ c :: post = v ++
        (ws ++ ',' :: (w' ++ c :: post)) := by simp
    rw [hassoc]
    cases hfault : faultOf a with
    | some f =>
      rw [hfault] at hread
      rw [separated_of_fault hread]
      simp [firstFault, hfault, outcome]
    | none =>
      rw [hfault] at hread
      have hshorter : (w' ++ c :: post).length <
          (v ++ (ws ++ ',' :: (w' ++ c :: post))).length := by
        simp only [List.length_append, List.length_cons]
        omega
      rw [separated_of_more hread (by simpa using hv) (token_append (by decide) hws _)
        hshorter, hrest]
      cases hlater : firstFault faultOf as <;> simp [firstFault, hfault, hlater, outcome]

/-- Parts between brackets are read, up to the first fault. -/
theorem bracketed_listed {one : TextReader α} {faultOf : α → Option Fault} {as : List α}
    {w : List Char} (h : Listed (Takes one faultOf) as w) (opening : Char) {closing : Char}
    (hblank : isBlank closing = false) (hcomma : closing ≠ ',')
    (hends : ¬ IsDigit closing ∧ closing ≠ '.' ∧ closing ≠ 'e' ∧ closing ≠ 'E') (post : List Char) :
    Reader.bracketed opening closing one (opening :: (w ++ closing :: post)) =
      outcome (firstFault faultOf as) as post := by
  obtain ⟨ws, hws, hparts⟩ := separated_listed h hblank hcomma hends post false
  have hopen : char (· == opening) (opening :: (w ++ closing :: post)) =
      .read opening (w ++ closing :: post) := by
    simp [char]
  rw [Reader.bracketed, TextReader.map, and_of_read hopen]
  cases hfault : firstFault faultOf as with
  | some f =>
    rw [hfault] at hparts
    simp [TextReader.and, hparts, outcome]
  | none =>
    rw [hfault] at hparts
    rw [and_of_read hparts, and_of_read (token_append hblank hws post)]
    rfl

/-- Between brackets with nothing but white space there are no parts. -/
theorem bracketed_empty {one : TextReader α} {closing : Char} {ws post : List Char}
    (hws : IsBlank ws) (hblank : isBlank closing = false)
    (hone : one (ws ++ closing :: post) = .stuck (ws ++ closing :: post)) (opening : Char) :
    Reader.bracketed opening closing one (opening :: (ws ++ closing :: post)) = .read [] post := by
  have hopen : char (· == opening) (opening :: (ws ++ closing :: post)) =
      .read opening (ws ++ closing :: post) := by
    simp [char]
  have hparts : separated one (Reader.token ',') false false (ws ++ closing :: post) =
      .read [] (ws ++ closing :: post) := separated_of_stuck hone _ _ _
  rw [Reader.bracketed, TextReader.map, and_of_read hopen, and_of_read hparts,
    and_of_read (token_append hblank hws post)]
  rfl

/-- What is between brackets may end in a fault right away. -/
theorem bracketed_fault {one : TextReader α} {f : Fault} {cs : List Char} (hone : one cs = .fault f)
    (opening closing : Char) : Reader.bracketed opening closing one (opening :: cs) = .fault f := by
  have hopen : char (· == opening) (opening :: cs) = .read opening cs := by simp [char]
  rw [Reader.bracketed, TextReader.map, and_of_read hopen, TextReader.and, separated_of_fault hone]
  rfl

/-- Without the opening bracket nothing is read. -/
theorem bracketed_stuck {c opening : Char} (hne : c ≠ opening) (closing : Char) (one : TextReader α)
    (cs : List Char) :
    Reader.bracketed opening closing one (c :: cs) = .stuck (c :: cs) := by
  simp [Reader.bracketed, TextReader.map, TextReader.and, char, hne]

end Bracketed

/-! ### Values -/

/-- Without a quote nothing is read. -/
theorem string_stuck {c : Char} (hne : c ≠ '"') (cs : List Char) :
    Reader.string (c :: cs) = .stuck (c :: cs) := by
  simp [Reader.string, Reader.quote, TextReader.map, TextReader.and, char, hne]

/-- Without a digit nothing is read. -/
theorem whole_stuck {c : Char} (hdigit : ¬ IsDigit c) (cs : List Char) :
    Reader.whole (c :: cs) = .stuck (c :: cs) := by
  have hzero : c ≠ '0' := by
    rintro rfl
    exact hdigit (by decide)
  have hrange : ¬ ('1' ≤ c ∧ c ≤ '9') := fun h => hdigit ⟨Char.le_trans (by decide) h.1, h.2⟩
  simp [Reader.whole, first, TextReader.map, char, hzero, stretch, TextReader.and, hrange]

/-- Without a minus sign or a digit nothing is read. -/
theorem number_stuck {c : Char} (hminus : c ≠ '-') (hdigit : ¬ IsDigit c) (cs : List Char) :
    Reader.number (c :: cs) = .stuck (c :: cs) := by
  have hsign : (char (· == '-')).optional (c :: cs) = .read none (c :: cs) :=
    optional_of_stuck (by simp [char, hminus])
  rw [Reader.number, convert, stretch, Reader.numberParts, and_of_read hsign,
    and_of_stuck (whole_stuck hdigit cs)]
  rfl

/-- Without the first letter of a word nothing is read. -/
theorem keyword_stuck {c : Char} (ht : c ≠ 't') (hf : c ≠ 'f') (hn : c ≠ 'n') (cs : List Char) :
    Reader.keyword (c :: cs) = .stuck (c :: cs) := by
  simp [Reader.keyword, first, TextReader.map, TextReader.word, List.cons_prefix_cons, ht.symm,
    hf.symm, hn.symm]

/-- The alternatives of a value before numbers do not begin where a number does. -/
theorem bare_number {inside : TextReader Tree} {c : Char} {cs : List Char}
    (hc : c = '-' ∨ IsDigit c) (hread : ∀ rest, Reader.number (c :: cs) ≠ .stuck rest) :
    Reader.bare inside (c :: cs) = Reader.number (c :: cs) := by
  have hquote : c ≠ '"' := by
    rintro rfl
    exact absurd hc (by decide)
  rw [Reader.bare, first_of_stuck (by simp [TextReader.map, string_stuck hquote]),
    first_of_ne_stuck hread]

/-- A string is read as a value. -/
theorem bare_string {inside : TextReader Tree} {b : List Char} (hb : IsBody b) (post : List Char) :
    Reader.bare inside ('"' :: (b ++ '"' :: post)) = .read (.string b) post := by
  have hread := map_of_read (string_append hb post) Tree.string
  rw [Reader.bare, first_of_ne_stuck (by simp [hread]), hread]

/-- An object is read as a value, or its fault is that of the value. -/
theorem bare_object {inside : TextReader Tree} {cs post : List Char} {fault? : Option Fault}
    {ms : List (List Char × Tree)}
    (hread : Reader.object inside ('\x7b' :: cs) = outcome fault? ms post) :
    Reader.bare inside ('\x7b' :: cs) = outcome fault? (.object ms) post := by
  have hmap : (Reader.object inside).map Tree.object ('\x7b' :: cs) =
      outcome fault? (Tree.object ms) post := by
    rw [TextReader.map, hread, map_outcome]
  rw [Reader.bare, first_of_stuck (by simp [TextReader.map, string_stuck]),
    first_of_stuck (number_stuck (by decide) (by decide) cs),
    first_of_ne_stuck (fun _ => by simp [hmap, outcome_ne_stuck]), hmap]

/-- An array is read as a value, or its fault is that of the value. -/
theorem bare_array {inside : TextReader Tree} {cs post : List Char} {fault? : Option Fault}
    {ts : List Tree} (hread : Reader.array inside ('[' :: cs) = outcome fault? ts post) :
    Reader.bare inside ('[' :: cs) = outcome fault? (.array ts) post := by
  have hmap : (Reader.array inside).map Tree.array ('[' :: cs) =
      outcome fault? (Tree.array ts) post := by
    rw [TextReader.map, hread, map_outcome]
  rw [Reader.bare, first_of_stuck (by simp [TextReader.map, string_stuck]),
    first_of_stuck (number_stuck (by decide) (by decide) cs),
    first_of_stuck (by simp [TextReader.map, Reader.object, bracketed_stuck]),
    first_of_ne_stuck (fun _ => by simp [hmap, outcome_ne_stuck]), hmap]

/-- A value is read where it stands with no white space before it, or its first fault is come to. -/
def IsRead (deep : Fault) (t : Tree) (w : List Char) : Prop :=
  ∀ levels post, Ends post →
    Reader.bare (Reader.nested deep levels) (w ++ post) = outcome (t.fault? deep levels) t post

/-- A value between white space is taken inside a container. -/
def IsTaken (deep : Fault) (t : Tree) (w : List Char) : Prop :=
  ∀ levels, Takes (Reader.nested deep levels) (Tree.nestedFault? deep levels) t w

/-- A key and a value are taken inside an object. -/
def IsMemberTaken (deep : Fault) (m : List Char × Tree) (w : List Char) : Prop :=
  ∀ levels, Takes (Reader.member (Reader.nested deep levels))
    (fun m => m.2.nestedFault? deep levels) m w

variable {deep : Fault}

/-- Where a word begins, no other value does. -/
theorem bare_keyword (inside : TextReader Tree) {c : Char} (hc : c = 't' ∨ c = 'f' ∨ c = 'n')
    (cs : List Char) :
    Reader.bare inside (c :: cs) = first [Reader.keyword] (c :: cs) := by
  have hne : c ≠ '"' ∧ c ≠ '-' ∧ ¬ IsDigit c ∧ c ≠ '\x7b' ∧ c ≠ '[' := by
    obtain rfl | rfl | rfl := hc
    all_goals decide
  rw [Reader.bare, first_of_stuck (by simp [TextReader.map, string_stuck hne.1]),
    first_of_stuck (number_stuck hne.2.1 hne.2.2.1 cs),
    first_of_stuck (by simp [TextReader.map, Reader.object, bracketed_stuck hne.2.2.2.1]),
    first_of_stuck (by simp [TextReader.map, Reader.array, bracketed_stuck hne.2.2.2.2])]

/-- The word for null is read. -/
theorem isRead_null : IsRead deep .null ['n', 'u', 'l', 'l'] := by
  intro levels post _
  rw [Tree.fault?_null]
  exact (bare_keyword _ (by simp) _).trans
    (by simp [first, Reader.keyword, TextReader.map, TextReader.word, outcome])

/-- So is the word for true. -/
theorem isRead_true : IsRead deep (.bool true) ['t', 'r', 'u', 'e'] := by
  intro levels post _
  rw [Tree.fault?_bool]
  exact (bare_keyword _ (by simp) _).trans
    (by simp [first, Reader.keyword, TextReader.map, TextReader.word, outcome])

/-- So is the word for false. -/
theorem isRead_false : IsRead deep (.bool false) ['f', 'a', 'l', 's', 'e'] := by
  intro levels post _
  rw [Tree.fault?_bool]
  exact (bare_keyword _ (by simp) _).trans
    (by simp [first, Reader.keyword, TextReader.map, TextReader.word, outcome])

/-- A number begins with a minus or a digit. -/
theorem head_of_isInteger {w : List Char} (h : IsInteger w) :
    ∃ c cs, w = c :: cs ∧ (c = '-' ∨ IsDigit c) := by
  have hwhole : ∀ {w}, IsWhole w → ∃ c cs, w = c :: cs ∧ IsDigit c := by
    intro w h
    cases h with
    | zero => exact ⟨'0', [], rfl, by decide⟩
    | @digits d ds hlow hhigh _ => exact ⟨d, ds, rfl, Char.le_trans (by decide) hlow, hhigh⟩
  cases h with
  | unsigned h =>
    obtain ⟨c, cs, hw, hc⟩ := hwhole h
    exact ⟨c, cs, hw, .inr hc⟩
  | @negative w _ => exact ⟨'-', w, rfl, .inl rfl⟩

/-- A number is read whole, and its kind is told by its parts. -/
theorem isRead_number {i f e : List Char} (hi : IsInteger i) (hf : f = [] ∨ IsFraction f)
    (he : e = [] ∨ IsExponent e) {post : List Char} (hpost : Ends post) (inside : TextReader Tree) :
    Reader.bare inside (i ++ f ++ e ++ post) =
      .ofExcept (if f = [] ∧ e = [] then Reader.shortInteger i
        else .ok (.decimal (i ++ f ++ e))) post := by
  have hread := number_append hi hf he hpost
  obtain ⟨c, cs, rfl, hc⟩ := head_of_isInteger hi
  refine (bare_number hc fun rest hstuck => ?_).trans hread
  exact ofExcept_ne_stuck (hread.symm.trans hstuck)

/-- An integer is read. -/
theorem isRead_integer {w : List Char} (hw : IsInteger w) : IsRead deep (.integer w) w := by
  intro levels post hpost
  have hread := isRead_number hw (.inl rfl) (.inl rfl) hpost (Reader.nested deep levels)
  simp only [List.append_nil, and_self, if_true] at hread
  rw [hread, Tree.fault?_integer, Reader.shortInteger]
  split <;> rfl

/-- A number with a fraction or an exponent is read. -/
theorem isRead_decimal {w : List Char} (hw : IsDecimal w) : IsRead deep (.decimal w) w := by
  intro levels post hpost
  cases hw with
  | @parts i f e hi hf he hne =>
    have hsome : ¬ (f = [] ∧ e = []) := fun h => hne.elim (absurd h.1) (absurd h.2)
    rw [isRead_number hi hf he hpost, if_neg hsome, Tree.fault?_decimal]
    rfl

/-- A string is read. -/
theorem isRead_string {b : List Char} (hb : IsBody b) :
    IsRead deep (.string b) ('"' :: (b ++ ['"'])) := by
  intro levels post _
  rw [Tree.fault?_string, List.cons_append, List.append_assoc]
  exact bare_string hb post

/-- No value begins with a bracket that closes an array. -/
theorem bare_closing (inside : TextReader Tree) (cs : List Char) :
    Reader.bare inside (']' :: cs) = .stuck (']' :: cs) := by
  rw [Reader.bare, first_of_stuck (by simp [TextReader.map, string_stuck]),
    first_of_stuck (number_stuck (by decide) (by decide) cs),
    first_of_stuck (by simp [TextReader.map, Reader.object, bracketed_stuck]),
    first_of_stuck (by simp [TextReader.map, Reader.array, bracketed_stuck]),
    first_of_stuck (keyword_stuck (by decide) (by decide) (by decide) cs)]
  rfl

/-- An array without elements is entered all the same. -/
theorem isRead_emptyArray {ws : List Char} (hws : IsBlank ws) :
    IsRead deep (.array []) ('[' :: (ws ++ [']'])) := by
  intro levels post _
  rw [List.cons_append, List.append_assoc]
  cases levels with
  | zero => exact bare_array (bracketed_fault rfl _ _)
  | succ levels =>
    -- the bracket that closes the array is no element
    have hnone : Reader.nested deep (levels + 1) (ws ++ ']' :: post) = .stuck (ws ++ ']' :: post) :=
      eat_stuck hws (by simp [isBlank, Leaf.blankChars]) (bare_closing _ _)
    exact bare_array (bracketed_empty hws (by decide) hnone _)

/-- An array is read if its items are. -/
theorem isRead_array {ts : List Tree} {w : List Char} (hts : Listed (IsTaken deep) ts w) :
    IsRead deep (.array ts) ('[' :: (w ++ [']'])) := by
  intro levels post _
  have hne : ts ≠ [] := by
    cases hts <;> simp
  rw [Tree.fault?_array _ _ hne, List.cons_append, List.append_assoc]
  exact bare_array (bracketed_listed (hts.imp fun _ _ h => h levels) '[' (by decide) (by decide)
    (by decide) post)

/-- An object without members is not entered. -/
theorem isRead_emptyObject {ws : List Char} (hws : IsBlank ws) :
    IsRead deep (.object []) ('\x7b' :: (ws ++ ['\x7d'])) := by
  intro levels post _
  -- the member gives up before it comes to its value, on whatever level that would be
  have hnone : Reader.member (Reader.nested deep levels) (ws ++ '\x7d' :: post) =
      .stuck (ws ++ '\x7d' :: post) := by
    have hkey : Reader.string.eat (ws ++ '\x7d' :: post) = .stuck (ws ++ '\x7d' :: post) :=
      eat_stuck hws (by simp [isBlank, Leaf.blankChars]) (string_stuck (by decide) _)
    rw [Reader.member, TextReader.map, TextReader.and, TextReader.map, and_of_stuck hkey]
    rfl
  rw [Tree.fault?_object, List.cons_append, List.append_assoc]
  exact bare_object (bracketed_empty hws (by decide) hnone _)

/-- An object is read if its members are. -/
theorem isRead_object {ms : List (List Char × Tree)} {w : List Char}
    (hms : Listed (IsMemberTaken deep) ms w) :
    IsRead deep (.object ms) ('\x7b' :: (w ++ ['\x7d'])) := by
  intro levels post _
  rw [Tree.fault?_object, List.cons_append, List.append_assoc]
  exact bare_object (bracketed_listed (hms.imp fun _ _ h => h levels) '\x7b' (by decide) (by decide)
    (by decide) post)

/-- The first character of the text of a value is not white space. -/
theorem head_of_isValue {t : Tree} {w : List Char} (h : IsValue t w) :
    ∃ c cs, w = c :: cs ∧ isBlank c = false := by
  have hinteger : ∀ {i : List Char} (w : List Char), IsInteger i → ∃ c cs, i ++ w = c :: cs ∧
      isBlank c = false := by
    intro i w hi
    obtain ⟨c, cs, rfl, hc⟩ := head_of_isInteger hi
    refine ⟨c, cs ++ w, rfl, Bool.eq_false_iff.mpr fun hblank => ?_⟩
    obtain rfl | rfl | rfl | rfl | rfl := isBlank_iff.mp hblank
    all_goals exact absurd hc (by decide)
  cases h with
  | integer hw => simpa using hinteger [] hw
  | decimal hw =>
    cases hw with
    | @parts i f e hi _ _ _ => simpa using hinteger (f ++ e) hi
  | _ => exact ⟨_, _, rfl, by decide⟩

/-- A value is read with white space around it. -/
theorem isTaken_pad {t : Tree} {ws v ws' : List Char} (hws : IsBlank ws) (hv : IsValue t v)
    (hws' : IsBlank ws') (hread : IsRead deep t v) : IsTaken deep t (ws ++ (v ++ ws')) := by
  intro levels
  obtain ⟨c, cs, rfl, hc⟩ := head_of_isValue hv
  refine ⟨ws ++ c :: cs, ws', by simp, by simp, hws', fun post hpost => ?_⟩
  cases levels with
  | zero => rfl
  | succ levels =>
    have hpart := hread levels post hpost
    rw [List.append_assoc]
    exact (eat_append hws (by simpa using hc) (fun _ => hpart ▸ outcome_ne_stuck)).trans hpart

/-- A member is read: the key, the colon and the value. -/
theorem isMemberTaken_colon {ws b ws' w : List Char} {t : Tree} (hws : IsBlank ws) (hb : IsBody b)
    (hws' : IsBlank ws') (ht : IsTaken deep t w) :
    IsMemberTaken deep (b, t) (ws ++ '"' :: (b ++ '"' :: (ws' ++ ':' :: w))) := by
  intro levels
  obtain ⟨v, ws'', rfl, hv, hws'', hinside⟩ := ht levels
  refine ⟨ws ++ '"' :: (b ++ '"' :: (ws' ++ ':' :: v)), ws'', by simp, by simp, hws'',
    fun post hpost => ?_⟩
  have hassoc : ws ++ '"' :: (b ++ '"' :: (ws' ++ ':' :: v)) ++ post =
      ws ++ '"' :: (b ++ '"' :: (ws' ++ ':' :: (v ++ post))) := by simp
  have hstring := string_append hb (ws' ++ ':' :: (v ++ post))
  have hkey := eat_of_read hws (by simp [isBlank, Leaf.blankChars]) hstring
  rw [hassoc, Reader.member, TextReader.map, TextReader.and, TextReader.map, and_of_read hkey,
    and_of_read (token_append (by decide) hws' _)]
  simp only [done, TextOutcome.map_read, TextOutcome.bind_read, TextReader.and, hinside post hpost]
  cases Tree.nestedFault? deep levels t <;> rfl

mutual

/-- **A written value is read**, or its first fault is come to. -/
theorem IsValue.isRead : ∀ {t : Tree} {w : List Char}, IsValue t w → IsRead deep t w
  | _, _, .null => isRead_null
  | _, _, .true => isRead_true
  | _, _, .false => isRead_false
  | _, _, .integer hw => isRead_integer hw
  | _, _, .decimal hw => isRead_decimal hw
  | _, _, .string hb => isRead_string hb
  | _, _, .emptyArray hws => isRead_emptyArray hws
  | _, _, .array hts => isRead_array hts.listed
  | _, _, .emptyObject hws => isRead_emptyObject hws
  | _, _, .object hms => isRead_object hms.listed

/-- **Every document is read**, by induction on how it is written: a value with white space around
    it. -/
theorem IsPadded.isTaken : ∀ {t : Tree} {w : List Char}, IsPadded t w → IsTaken deep t w
  | _, _, .pad hws hv hws' => isTaken_pad hws hv hws' hv.isRead

/-- The items of an array are read. -/
theorem IsElements.listed :
    ∀ {ts : List Tree} {w : List Char}, IsElements ts w → Listed (IsTaken deep) ts w
  | _, _, .last h => .last h.isTaken
  | _, _, .more h hs => .more h.isTaken hs.listed

/-- A member of an object is read. -/
theorem IsMember.isMemberTaken :
    ∀ {m : List Char × Tree} {w : List Char}, IsMember m w → IsMemberTaken deep m w
  | _, _, .colon hws hb hws' ht => isMemberTaken_colon hws hb hws' ht.isTaken

/-- The members of an object are read. -/
theorem IsMembers.listed :
    ∀ {ms : List (List Char × Tree)} {w : List Char}, IsMembers ms w →
      Listed (IsMemberTaken deep) ms w
  | _, _, .last h => .last h.isMemberTaken
  | _, _, .more h hs => .more h.isMemberTaken hs.listed

end

/-- **A document is read**, or its first fault is come to. -/
theorem document_append {t : Tree} {text : List Char} (h : IsPadded t text) (levels : Nat) :
    Reader.document (Reader.nested deep levels) text = outcome (t.fault? deep levels) t [] := by
  cases h with
  | @pad _ ws v ws' hws hv hws' =>
    obtain ⟨c, cs, rfl, hc⟩ := head_of_isValue hv
    have hends : Ends ws' := by simpa using ends_blank_append hws' ends_nil
    have hread : Reader.bare (Reader.nested deep levels) (c :: cs ++ ws') =
        outcome (t.fault? deep levels) t ws' :=
      hv.isRead levels ws' hends
    have hvalue : Reader.value (Reader.nested deep levels) (ws ++ (c :: cs ++ ws')) =
        outcome (t.fault? deep levels) t ws' :=
      (eat_append hws (by simpa using hc) fun _ => hread ▸ outcome_ne_stuck).trans hread
    have hend : atEnd.eat ws' = .read () [] := by
      have hread := eat_of_read hws' (by simp) (show atEnd [] = .read () [] from rfl)
      rwa [List.append_nil] at hread
    rw [Reader.document, TextReader.map, TextReader.and, hvalue]
    cases t.fault? deep levels with
    | none => simp [outcome, and_of_read hend, done]
    | some f => rfl

end Itemwise.Json
