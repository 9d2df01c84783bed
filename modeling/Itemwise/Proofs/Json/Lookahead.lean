import Itemwise.Proofs.Json.Beginnings
import Itemwise.Proofs.TextReader.Lookahead

namespace Itemwise.Json

open TextReader

/-!
# How far the reader of documents looks ahead

From where the reader of documents stops, it has looked at no more than white space and the
beginning of one of the words `true`, `false` and `null`: at anything else it would have gone on.

* `IsKeywordStart`, `IsUndecided` — the beginnings of the words, and what may stand before the end
  of such a look;
* `foretells_string`, `foretells_number` — tokens, to which one character is enough;
* `foretells_token`, `foretells_bracketed`, `foretells_keyword`, `foretells_bare` — the parts of
  values, which are given up only before what is decided;
* `foretells_nested`, `foretells_document` — values with fewer and with more levels of nesting, and
  documents.
-/

/-! ### What is undecided -/

/-- The words that stand for values. -/
def keywords : List (List Char) :=
  [['t', 'r', 'u', 'e'], ['f', 'a', 'l', 's', 'e'], ['n', 'u', 'l', 'l']]

/-- The beginning of a word that stands for a value, which may be nothing but not the whole word. -/
def IsKeywordStart (k : List Char) : Prop := ∃ w ∈ keywords, k <+: w ∧ k ≠ w

/-- White space, and the beginning of a word. -/
def IsUndecided (u : List Char) : Prop := ∃ ws k, u = ws ++ k ∧ IsBlank ws ∧ IsKeywordStart k

/-- Whatever is not just white space and the beginning of a word. -/
def IsDecided (u : List Char) : Prop := ¬ IsUndecided u

/-- Nothing is undecided: a word may still begin. -/
theorem isUndecided_nil : IsUndecided [] :=
  ⟨[], [], rfl, isBlank_nil, ['t', 'r', 'u', 'e'], by simp [keywords]⟩

/-- What is decided is something. -/
theorem IsDecided.ne_nil {u : List Char} (h : IsDecided u) : u ≠ [] := by
  rintro rfl
  exact h isUndecided_nil

/-- White space before something does not decide anything. -/
theorem IsDecided.dropWhile {s : List Char} (h : IsDecided s) :
    IsDecided (s.dropWhile isBlank) := by
  rintro ⟨ws, k, heq, hws, hk⟩
  apply h
  have hblank : IsBlank (s.takeWhile isBlank) :=
    fun c hc => isBlank_iff.mp (List.all_eq_true.mp List.all_takeWhile c hc)
  refine ⟨s.takeWhile isBlank ++ ws, k, ?_, hblank.append hws, hk⟩
  rw [List.append_assoc, ← heq, List.takeWhile_append_dropWhile]

/-- Something that is neither white space nor a letter of a word decides. -/
theorem isDecided_of_mem {u : List Char} {c : Char} (hc : c ∈ u) (hblank : isBlank c = false)
    (hletter : ∀ w ∈ keywords, c ∉ w) : IsDecided u := by
  rintro ⟨ws, k, rfl, hws, w, hw, hk, -⟩
  rcases List.mem_append.mp hc with hc | hc
  · rw [isBlank_iff.mpr (hws c hc)] at hblank
    cases hblank
  · exact hletter w hw (hk.subset hc)

/-- A whole word is decided, whatever comes after it. -/
theorem isDecided_keyword_append {w : List Char} (hw : w ∈ keywords) (u : List Char) :
    IsDecided (w ++ u) := by
  rintro ⟨ws, k, heq, hws, w', hw', hk, hne⟩
  have hletters : ∀ w ∈ keywords, ∀ c ∈ w.head?, isBlank c = false := by
    simp [keywords, isBlank, Leaf.blankChars]
  have hprefix : ∀ w ∈ keywords, ∀ w' ∈ keywords, w <+: w' → w' = w := by decide
  have hsome : ∀ w ∈ keywords, w ≠ [] := by decide
  cases ws with
  | cons d ws =>
    have hhead : (w ++ u).head? = w.head? := head?_append_of_ne_nil (hsome w hw) u
    rw [heq] at hhead
    have hblank := isBlank_iff.mpr (hws d (by simp))
    rw [hletters w hw d (by simp [← hhead])] at hblank
    cases hblank
  | nil =>
    -- the word is the beginning of another one, so it is that, and there is nothing after it
    obtain rfl : w ++ u = k := heq
    obtain rfl := hprefix w hw w' hw' ((List.prefix_append w u).trans hk)
    exact hne (hk.eq_of_length_le (by simp))

/-! ### Tokens -/

/-- One character behind an escape is enough to have read it. -/
theorem foretells_escape : Foretells (· ≠ []) (· ≠ []) Reader.escape Reader.escape := by
  have hchar : ∀ p, Foretells (· ≠ []) (· ≠ []) (char p) (char p) :=
    fun p => foretells_char p fun _ hu => hu
  have hunicode := (hchar (· == 'u')).seq (((hchar isHex).again 4).stretch.seq foretells_done)
  have hafter : Foretells (· ≠ []) (· ≠ [])
      (first [((char (· == 'u')).and (((char isHex).again 4).stretch.and done)).map (·.2.1.1),
        (char escapeLetters.contains).map fun c => [c]]) _ :=
    foretells_first_of_ne_nil (by simpa using ⟨hunicode.map _, (hchar _).map _⟩)
  exact ((hchar _).seq (hafter.seq foretells_done)).map _

/-- One character behind a string is enough to have read it. -/
theorem foretells_string : Foretells (· ≠ []) (· ≠ []) Reader.string Reader.string := by
  have hquote : Foretells (· ≠ []) (· ≠ []) Reader.quote Reader.quote :=
    foretells_char _ fun _ hu => hu
  have hpart : Foretells (· ≠ []) (· ≠ []) Reader.part Reader.part := by
    apply foretells_first_of_ne_nil
    simpa using ⟨foretells_run1 isPlain (fun _ hu => hu) fun _ hu => hu, foretells_escape⟩
  have hbody : Foretells (· ≠ []) (· ≠ []) Reader.body Reader.body :=
    (foretells_separated hpart foretells_done (fun _ hu => hu) true false).stretch.map _
  exact (hquote.seq (hbody.seq (hquote.seq foretells_done))).map _

/-- One character behind a number is enough to have read it. -/
theorem foretells_number : Foretells (· ≠ []) (· ≠ []) Reader.number Reader.number := by
  have hchar : ∀ p, Foretells (· ≠ []) (· ≠ []) (char p) (char p) :=
    fun p => foretells_char p fun _ hu => hu
  have hdigits : Foretells (· ≠ []) (· ≠ []) Reader.digits Reader.digits :=
    foretells_run1 _ (fun _ hu => hu) fun _ hu => hu
  have hwhole : Foretells (· ≠ []) (· ≠ []) Reader.whole Reader.whole := by
    have hlonger := (hchar fun c => decide ('1' ≤ c) && decide (c ≤ '9')).seq
      ((foretells_run Decimal.isDigit fun _ hu => hu).seq foretells_done)
    exact foretells_first_of_ne_nil (by simpa using ⟨(hchar _).map _, hlonger.stretch.map _⟩)
  have hfraction : Foretells (· ≠ []) (· ≠ []) Reader.fraction Reader.fraction :=
    ((hchar _).seq (hdigits.seq foretells_done)).map _
  have hexponent : Foretells (· ≠ []) (· ≠ []) Reader.exponent Reader.exponent :=
    (hchar _).seq (((hchar _).optional fun _ hu => hu).seq (hdigits.seq foretells_done))
  have hparts : Foretells (· ≠ []) (· ≠ []) Reader.numberParts Reader.numberParts :=
    ((hchar _).optional fun _ hu => hu).seq (hwhole.seq ((hfraction.optional fun _ hu => hu).seq
      ((hexponent.optional fun _ hu => hu).seq foretells_done)))
  exact hparts.stretch.convert _

/-- White space before a reader is looked at before the reader begins. -/
theorem foretells_eat {α : Type} {E : List Char → Prop} {r r' : TextReader α}
    (h : Foretells (· ≠ []) E r r') (hE : ∀ u, IsDecided u → E u) :
    Foretells (· ≠ []) IsDecided r.eat r'.eat :=
  h.eat (fun _ hu => hu) (fun u hu => ⟨hu.ne_nil, hE u hu⟩) fun _ hs =>
    ⟨hs.dropWhile.ne_nil, hE _ hs.dropWhile⟩

/-- A single character is missed only before what is decided. -/
theorem foretells_token (c : Char) :
    Foretells (· ≠ []) IsDecided (Reader.token c) (Reader.token c) :=
  foretells_eat (foretells_char _ fun _ hu => hu) fun _ hu => hu.ne_nil

/-! ### Parts between brackets -/

/-- Before a bracket that is read, all is decided: it is neither white space nor a letter of a
    word. -/
theorem isDecided_of_token {c d : Char} (hblank : isBlank c = false)
    (hletter : ∀ w ∈ keywords, c ∉ w) {m y u : List Char}
    (h : Reader.token c (m ++ y) = .read d (u ++ y)) : IsDecided m := by
  obtain ⟨ws, -, heq⟩ := token_eq_read h
  obtain rfl : m = ws ++ c :: u :=
    List.append_cancel_right (by rw [heq, List.append_assoc, List.cons_append])
  exact isDecided_of_mem (by simp) hblank hletter

section Bracketed

variable {α : Type} {one one' : TextReader α}

/-- What is between brackets is missed only before what is decided, if its parts are. -/
theorem foretells_bracketed (h : Foretells (· ≠ []) IsDecided one one') (opening closing : Char)
    (hblank : isBlank closing = false) (hletter : ∀ w ∈ keywords, closing ∉ w) :
    Foretells (· ≠ []) IsDecided (Reader.bracketed opening closing one)
      (Reader.bracketed opening closing one') := by
  have hparts := foretells_separated h (foretells_token ',') (fun _ hu => hu.ne_nil) false false
  have hend : Foretells (· ≠ []) IsDecided ((Reader.token closing).and done)
      ((Reader.token closing).and done) :=
    (foretells_token closing).and foretells_done (fun _ hu => hu) fun _ hu => hu.ne_nil
  have hopening : Foretells (· ≠ []) IsDecided (char (· == opening)) (char (· == opening)) :=
    foretells_char _ fun _ hu => hu.ne_nil
  have hinside := hparts.and_of hend (fun hread _ => ?_) fun hstuck hu => ?_
  · exact (hopening.and hinside (fun _ hu => hu) fun _ hu => hu.ne_nil).map _
  · obtain ⟨mid, htoken, hdone⟩ := and_eq_read hread
    rw [← done_eq_read hdone] at htoken
    exact isDecided_of_token hblank hletter htoken
  · -- a bracket that is not there has nothing read before it
    rw [← List.append_cancel_right (isAtomic_token _ _ _ (and_done_eq_stuck hstuck))]
    exact hu

end Bracketed

/-! ### Values -/

/-- Where a word is read, all before it was decided by it. -/
theorem isDecided_of_word {w : List Char} (hw : w ∈ keywords) (t : Tree)
    {s y u : List Char} {t' : Tree}
    (hread : (TextReader.word w).map (fun _ => t) (s ++ y) = .read t' (u ++ y)) : IsDecided s := by
  obtain ⟨w', hword, -⟩ := map_eq_read hread
  obtain rfl : s = w ++ u :=
    List.append_cancel_right (by rw [word_eq_read hword, List.append_assoc])
  exact isDecided_keyword_append hw u

/-- A word is read only from what is decided. -/
theorem isDecided_of_keyword {s y u : List Char} {t : Tree}
    (h : Reader.keyword (s ++ y) = .read t (u ++ y)) :
    IsDecided s := by
  obtain ⟨r, hr, hread⟩ := first_eq_read h
  simp only [List.mem_cons, List.not_mem_nil, or_false] at hr
  rcases hr with rfl | rfl | rfl
  all_goals exact isDecided_of_word (by decide) _ hread

/-- A word is missed only before what is decided. -/
theorem foretells_keyword : Foretells (· ≠ []) IsDecided Reader.keyword Reader.keyword := by
  have hword : ∀ w ∈ keywords, ∀ t : Tree,
      Foretells (· ≠ []) IsDecided ((TextReader.word w).map fun _ => t)
        ((TextReader.word w).map fun _ => t) := by
    intro w hw t
    refine (foretells_word w fun u hu hpre => ?_).map _
    exact hu ⟨[], u, rfl, isBlank_nil, w, hw, hpre⟩
  apply foretells_first
  · exact .cons (hword _ (by decide) _)
      (.cons (hword _ (by decide) _) (.cons (hword _ (by decide) _) .nil))
  · intro r hr s y t u hread _
    simp only [List.mem_cons, List.not_mem_nil, or_false] at hr
    rcases hr with rfl | rfl | rfl
    all_goals exact isDecided_of_word (by decide) _ hread
  · intro r hr s y u hstuck hu
    simp only [List.mem_cons, List.not_mem_nil, or_false] at hr
    rcases hr with rfl | rfl | rfl
    all_goals rwa [← List.append_cancel_right ((isAtomic_word _).map _ _ _ hstuck)]

/-- A reader that begins neither with white space nor with a letter of a word. -/
def BeginsApart {α : Type} (r : TextReader α) : Prop :=
  ∀ c cs, isBlank c = true ∨ (∃ w ∈ keywords, c ∈ w) → r (c :: cs) = .stuck (c :: cs)

section BeginsApart

variable {α : Type} {r : TextReader α} (hforward : r.IsForward) (h : BeginsApart r)

include h in
/-- Before what is undecided, a reader that begins apart from it reads nothing. -/
theorem BeginsApart.eq_stuck {s y : List Char} (hs : s ≠ []) (hopen : IsUndecided s) :
    r (s ++ y) = .stuck (s ++ y) := by
  cases s with
  | nil => contradiction
  | cons c s =>
    apply h c (s ++ y)
    by_contra hapart
    rw [not_or, Bool.not_eq_true] at hapart
    exact isDecided_of_mem List.mem_cons_self hapart.1 (fun w hw hc => hapart.2 ⟨w, hw, hc⟩) hopen

include hforward h

/-- Where such a reader has read something, or has begun, it began with something decided. -/
theorem BeginsApart.isDecided_of_read {s y u : List Char} {a : α}
    (hread : r (s ++ y) = .read a (u ++ y)) (hu : u ≠ []) : IsDecided s := by
  intro hopen
  have hs := ne_nil_of_suffix (suffix_of_append (hforward.suffix_of_read hread)) hu
  rw [h.eq_stuck hs hopen] at hread
  cases hread

/-- So it is missed only before what is decided. -/
theorem BeginsApart.isDecided_of_stuck {s y u : List Char} (hstuck : r (s ++ y) = .stuck (u ++ y))
    (hu : IsDecided u) : IsDecided s := by
  intro hopen
  have hs := ne_nil_of_suffix (suffix_of_append (hforward.suffix_of_stuck hstuck)) hu.ne_nil
  rw [h.eq_stuck hs hopen] at hstuck
  rw [← List.append_cancel_right (TextOutcome.stuck.inj hstuck)] at hu
  exact hu hopen

end BeginsApart

/-- What is made of what is read makes no difference to where a reader begins. -/
theorem BeginsApart.map {α β : Type} {r : TextReader α} (h : BeginsApart r) (g : α → β) :
    BeginsApart (r.map g) := by
  intro c cs hc
  rw [TextReader.map, h c cs hc, TextOutcome.map_stuck]

/-- Strings, numbers, arrays and objects begin with neither white space nor a letter of a word. -/
theorem beginsApart_alternatives (inside : TextReader Tree) :
    BeginsApart Reader.string ∧ BeginsApart Reader.number ∧ BeginsApart (Reader.object inside) ∧
      BeginsApart (Reader.array inside) := by
  have hother : ∀ c ∈ Leaf.blankChars ++ keywords.flatten,
      c ≠ '"' ∧ c ≠ '-' ∧ ¬ IsDigit c ∧ c ≠ '\x7b' ∧ c ≠ '[' := by
    simp [Leaf.blankChars, keywords, IsDigit]
  have hapart : ∀ {c}, isBlank c = true ∨ (∃ w ∈ keywords, c ∈ w) →
      c ≠ '"' ∧ c ≠ '-' ∧ ¬ IsDigit c ∧ c ≠ '\x7b' ∧ c ≠ '[' := by
    intro c hc
    apply hother c
    rcases hc with hc | hc
    · exact List.mem_append_left _ (List.contains_iff_mem.mp hc)
    · exact List.mem_append_right _ (List.mem_flatten.mpr hc)
  refine ⟨fun c cs hc => ?_, fun c cs hc => ?_, fun c cs hc => ?_, fun c cs hc => ?_⟩
  · exact string_stuck (hapart hc).1 cs
  · exact number_stuck (hapart hc).2.1 (hapart hc).2.2.1 cs
  · exact bracketed_stuck (hapart hc).2.2.2.1 _ _ cs
  · exact bracketed_stuck (hapart hc).2.2.2.2 _ _ cs

section Value

variable {inside inside' : TextReader Tree} (h : Foretells (· ≠ []) IsDecided inside inside')

include h

/-- A member is missed only before what is decided, if its value is. -/
theorem foretells_member :
    Foretells (· ≠ []) IsDecided (Reader.member inside) (Reader.member inside') := by
  have hcolon : Foretells (· ≠ []) IsDecided ((Reader.token ':').and done)
      ((Reader.token ':').and done) :=
    (foretells_token ':').and foretells_done (fun _ hu => hu) fun _ hu => hu.ne_nil
  have hkey := (foretells_eat foretells_string fun _ hu => hu.ne_nil).and hcolon (fun _ hu => hu)
    fun _ hu => hu.ne_nil
  have hvalue : Foretells (· ≠ []) IsDecided (inside.and done) (inside'.and done) :=
    h.and foretells_done (fun _ hu => hu) fun _ hu => hu.ne_nil
  exact ((hkey.map _).and hvalue (fun _ hu => hu) fun _ hu => hu.ne_nil).map _

/-- A value without white space before it is missed only before what is decided, if those in it
    are. -/
theorem foretells_bare :
    Foretells (· ≠ []) IsDecided (Reader.bare inside) (Reader.bare inside') := by
  obtain ⟨hstring, hnumber, hobject, harray⟩ := beginsApart_alternatives inside
  have hobjects := (foretells_bracketed (foretells_member h) '\x7b' '\x7d' (by decide)
    (by decide)).map Tree.object
  have harrays := (foretells_bracketed h '[' ']' (by decide) (by decide)).map Tree.array
  have htoken : ∀ u, IsDecided u → u ≠ [] := fun _ hu => hu.ne_nil
  have hstrings := (foretells_string.mono (fun _ hu => hu) htoken).map Tree.string
  have hnumbers := foretells_number.mono (fun _ hu => hu) htoken
  -- what stands at the beginning of one alternative is decided, so those before it are given up for
  -- good
  apply foretells_first
  · exact .cons hstrings
      (.cons hnumbers (.cons hobjects (.cons harrays (.cons foretells_keyword .nil))))
  · intro r hr s y t u hread hu
    simp only [List.mem_cons, List.not_mem_nil, or_false] at hr
    rcases hr with rfl | rfl | rfl | rfl | rfl
    · exact (hstring.map _).isDecided_of_read hstrings.forward hread hu
    · exact hnumber.isDecided_of_read hnumbers.forward hread hu
    · exact (hobject.map _).isDecided_of_read hobjects.forward hread hu
    · exact (harray.map _).isDecided_of_read harrays.forward hread hu
    · exact isDecided_of_keyword hread
  · intro r hr s y u hstuck hu
    simp only [List.mem_cons, List.not_mem_nil, or_false] at hr
    rcases hr with rfl | rfl | rfl | rfl | rfl
    · exact (hstring.map _).isDecided_of_stuck hstrings.forward hstuck hu
    · exact hnumber.isDecided_of_stuck hnumbers.forward hstuck hu
    · exact (hobject.map _).isDecided_of_stuck hobjects.forward hstuck hu
    · exact (harray.map _).isDecided_of_stuck harrays.forward hstuck hu
    · rwa [← List.append_cancel_right (isAtomic_keyword _ _ hstuck)]

/-- So is a value with white space before it. -/
theorem foretells_value :
    Foretells (· ≠ []) IsDecided (Reader.value inside) (Reader.value inside') :=
  foretells_eat (foretells_bare h) fun _ hu => hu

/-- **Documents.** Where the reader of documents gives up before something decided, it does so
    whatever comes next. -/
theorem foretells_document :
    Foretells (· ≠ []) IsDecided (Reader.document inside) (Reader.document inside') := by
  have hatEnd : Foretells (· ≠ []) (· ≠ []) atEnd atEnd :=
    foretells_atEnd (fun _ hu => hu) fun _ hu => hu
  have hend : Foretells (· ≠ []) IsDecided (atEnd.eat.and done) (atEnd.eat.and done) :=
    (foretells_eat hatEnd fun _ hu => hu.ne_nil).and foretells_done (fun _ hu => hu)
      fun _ hu => hu.ne_nil
  exact ((foretells_value h).and hend (fun _ hu => hu) fun _ hu => hu.ne_nil).map _

end Value

/-- **Nested values.** What a value inside a container comes to within some levels of nesting, it
    comes to within more of them, unless it is too deep. -/
theorem foretells_nested (deep deep' : Fault) {levels levels' : Nat} (hle : levels ≤ levels') :
    Foretells (· ≠ []) IsDecided (Reader.nested deep levels) (Reader.nested deep' levels') := by
  induction levels generalizing levels' with
  | zero => exact ⟨fun _ => trivial, nofun, nofun⟩
  | succ levels ih =>
    cases levels' with
    | zero => exact absurd hle (Nat.not_succ_le_zero levels)
    | succ levels' => exact foretells_value (ih (Nat.le_of_succ_le_succ hle))

end Itemwise.Json
