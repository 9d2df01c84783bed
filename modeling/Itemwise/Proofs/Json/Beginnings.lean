import Itemwise.Proofs.Json.Soundness
import Itemwise.Proofs.TextReader.Stuck

namespace Itemwise.Json

open TextReader

/-!
# What has been read where the reader gives up

Where the reader of documents gives up, what it has read up to there is the beginning of a document,
and of one in which no integer is too long.

* `Completes` — where a reader gives up, it has read the beginning of something, with a rule for
  each way to make readers of readers;
* `completes_string`, `completes_number` — the tokens;
* `completes_bracketed` — parts between brackets: what was read goes on with a part, and ends;
* `completes_nested`, `completes_document` — values, by induction on the levels of nesting, and
  documents.
-/

/-! ### Beginnings -/

section Completes

variable {α β : Type} {one : TextReader α} {P : α → List Char → Prop} {Q : β → List Char → Prop}

/-- There is something that is written in a way, and where a reader gives up it has read the
    beginning of that. -/
structure Completes (one : TextReader α) (P : α → List Char → Prop) : Prop where
  some : ∃ a w, P a w
  stuck : ∀ cs rest, one cs = .stuck rest → ∃ pre u a, cs = pre ++ rest ∧ P a (pre ++ u)

/-- Where nothing has been read, anything may come. -/
theorem begins_nil (hsome : ∃ a w, P a w) (rest : List Char) :
    ∃ pre u a, rest = pre ++ rest ∧ P a (pre ++ u) := by
  obtain ⟨a, w, hw⟩ := hsome
  exact ⟨[], w, a, rfl, hw⟩

/-- A reader that gets stuck at once can always be given one of its texts instead. -/
theorem completes_of_isAtomic (hone : one.IsAtomic) (hsome : ∃ a w, P a w) : Completes one P where
  some := hsome
  stuck := by
    intro cs rest h
    obtain rfl := hone cs rest h
    exact begins_nil hsome rest

/-- What is made of what is read has no part in where the reader gets stuck. -/
theorem Completes.map (h : Completes one P) (g : α → β) (hPQ : ∀ a w, P a w → Q (g a) w) :
    Completes (one.map g) Q where
  some := by
    obtain ⟨a, w, hw⟩ := h.some
    exact ⟨g a, w, hPQ a w hw⟩
  stuck := by
    intro cs rest hstuck
    obtain ⟨pre, u, a, hcs, hw⟩ := h.stuck cs rest (map_eq_stuck hstuck)
    exact ⟨pre, u, g a, hcs, hPQ a _ hw⟩

/-- The texts that complete a reader may be described by less. -/
theorem Completes.imp {Q : α → List Char → Prop} (h : Completes one P)
    (hPQ : ∀ a w, P a w → Q a w) :
    Completes one Q where
  some := by
    obtain ⟨a, w, hw⟩ := h.some
    exact ⟨a, w, hPQ a w hw⟩
  stuck := by
    intro cs rest hstuck
    obtain ⟨pre, u, a, hcs, hw⟩ := h.stuck cs rest hstuck
    exact ⟨pre, u, a, hcs, hPQ a _ hw⟩

/-- White space before a text belongs to what completes it. -/
theorem Completes.eat {Q : α → List Char → Prop} (h : Completes one P)
    (hPQ : ∀ ws a w, IsBlank ws → P a w → Q a (ws ++ w)) : Completes one.eat Q := by
  have hsome : ∃ a w, Q a w := by
    obtain ⟨a, w, hw⟩ := h.some
    exact ⟨a, [] ++ w, hPQ [] a w isBlank_nil hw⟩
  refine ⟨hsome, fun cs rest hstuck => ?_⟩
  rcases eat_eq_stuck hstuck with ⟨rfl, -⟩ | ⟨-, hstuck⟩
  · exact begins_nil hsome rest
  · obtain ⟨pre, u, a, hdrop, hw⟩ := h.stuck _ rest hstuck
    have hws : IsBlank (cs.takeWhile isBlank) :=
      fun c hc => isBlank_iff.mp (List.all_eq_true.mp List.all_takeWhile c hc)
    refine ⟨cs.takeWhile isBlank ++ pre, u, a, ?_, ?_⟩
    · rw [List.append_assoc, ← hdrop, List.takeWhile_append_dropWhile]
    · rw [List.append_assoc]
      exact hPQ _ a _ hws hw

/-- What completes an alternative completes the choice, if all alternatives complete it alike. -/
theorem completes_first {rs : List (TextReader α)} (hsome : ∃ a w, P a w)
    (h : ∀ r ∈ rs, Completes r P) :
    Completes (first rs) P := by
  refine ⟨hsome, fun cs rest hstuck => ?_⟩
  rcases first_eq_stuck hstuck with rfl | ⟨r, hr, hstuck⟩
  · exact begins_nil hsome rest
  · exact (h r hr).stuck cs rest hstuck

end Completes

/-- A single character, with white space before it, is missed at once. -/
theorem isAtomic_token (c : Char) : (Reader.token c).IsAtomic := (isAtomic_char _).eat

/-- A word that is missed is missed at once. -/
theorem isAtomic_keyword : Reader.keyword.IsAtomic :=
  isAtomic_first
    (by simpa using ⟨(isAtomic_word _).map _, (isAtomic_word _).map _, (isAtomic_word _).map _⟩)

/-! ### Strings -/

/-- A backslash goes on with an `n`, unless there is a `u` and not enough digits. -/
theorem unicode_eq_stuck {cs rest : List Char}
    (h : ((char (· == 'u')).and (((char isHex).again 4).stretch.and done)) cs = .stuck rest) :
    ∃ p u, cs = p ++ rest ∧ ∀ b, IsBody b → IsBody ('\\' :: (p ++ (u ++ b))) := by
  rcases and_eq_stuck h with hu | ⟨c, mid, hu, hafter⟩
  · obtain rfl := isAtomic_char _ _ _ hu
    exact ⟨[], ['n'], rfl, fun b hb => .escape (by decide) hb⟩
  · obtain ⟨rfl, heq⟩ := char_eq_read hu
    obtain ⟨w, rfl, hlen, hw⟩ := again_char_eq_stuck (stretch_eq_stuck (and_done_eq_stuck hafter))
    -- the digits that are missing may be zeros
    refine ⟨'u' :: w, List.replicate (4 - w.length) '0', by rw [beq_iff_eq.mp heq]; rfl,
      fun b hb => ?_⟩
    have hfour : (w ++ List.replicate (4 - w.length) '0').length = 4 := by
      rw [List.length_append, List.length_replicate]
      omega
    have hhex : ∀ c ∈ w ++ List.replicate (4 - w.length) '0', IsHex c := by
      intro c hc
      rcases List.mem_append.mp hc with hc | hc
      · exact isHex_iff.mp (hw c hc)
      · rw [List.eq_of_mem_replicate hc]
        exact isHex_iff.mp (by decide)
    rw [List.cons_append, ← List.append_assoc]
    exact isBody_unicode hfour hhex hb

/-- An escape that gets stuck can be finished, whatever the body goes on with. -/
theorem escape_eq_stuck {cs rest : List Char} (h : Reader.escape cs = .stuck rest) :
    ∃ p u, cs = p ++ rest ∧ ∀ b, IsBody b → IsBody (p ++ (u ++ b)) := by
  have hnewline : ∀ b, IsBody b → IsBody ('\\' :: 'n' :: b) := fun b hb => .escape (by decide) hb
  rcases and_eq_stuck (map_eq_stuck h) with hslash | ⟨c, mid, hslash, hafter⟩
  · obtain rfl := isAtomic_char _ _ _ hslash
    exact ⟨[], ['\\', 'n'], rfl, hnewline⟩
  · obtain ⟨rfl, heq⟩ := char_eq_read hslash
    rw [beq_iff_eq.mp heq]
    rcases first_eq_stuck (and_done_eq_stuck hafter) with rfl | ⟨r, hr, hstuck⟩
    · exact ⟨['\\'], ['n'], rfl, hnewline⟩
    · simp only [List.mem_cons, List.not_mem_nil, or_false] at hr
      rcases hr with rfl | rfl
      · obtain ⟨p, u, rfl, hp⟩ := unicode_eq_stuck (map_eq_stuck hstuck)
        exact ⟨'\\' :: p, u, rfl, hp⟩
      · obtain rfl := (isAtomic_char _).map _ _ _ hstuck
        exact ⟨['\\'], ['n'], rfl, hnewline⟩

/-- So can a part of a body. -/
theorem part_eq_stuck {cs rest : List Char} (h : Reader.part cs = .stuck rest) :
    ∃ p u, cs = p ++ rest ∧ ∀ b, IsBody b → IsBody (p ++ (u ++ b)) := by
  rcases first_eq_stuck h with rfl | ⟨r, hr, hstuck⟩
  · exact ⟨[], [], rfl, fun b hb => hb⟩
  · simp only [List.mem_cons, List.not_mem_nil, or_false] at hr
    rcases hr with rfl | rfl
    · obtain rfl := isAtomic_run1 _ _ _ hstuck
      exact ⟨[], [], rfl, fun b hb => hb⟩
    · exact escape_eq_stuck hstuck

/-- The body of a string gives up in one of its parts. -/
theorem body_eq_stuck {cs rest : List Char} (h : Reader.body cs = .stuck rest) :
    ∃ pre u, cs = pre ++ rest ∧ IsBody (pre ++ u) := by
  obtain ⟨ws, mid, hrounds, hlast⟩ := separated_eq_stuck (stretch_eq_stuck (map_eq_stuck h))
  obtain ⟨p, rfl, hp⟩ := rounds_part_eq hrounds
  rcases hlast with rfl | hstuck | ⟨_, _, _, hdone⟩
  · exact ⟨p, [], rfl, hp [] .nil⟩
  · obtain ⟨p', u, rfl, hp'⟩ := part_eq_stuck hstuck
    refine ⟨p ++ p', u, by rw [List.append_assoc], ?_⟩
    have hbody := hp _ (hp' [] .nil)
    rwa [List.append_nil, ← List.append_assoc] at hbody
  · exact absurd hdone done_ne_stuck

/-- **Strings.** A string that is not read to its end goes on with what its last escape lacks, and a
    quote. -/
theorem completes_string :
    Completes Reader.string fun b w => w = '"' :: (b ++ ['"']) ∧ IsBody b := by
  have hsome : ∃ b w, w = '"' :: (b ++ ['"']) ∧ IsBody b := ⟨[], _, rfl, .nil⟩
  refine ⟨hsome, fun cs rest h => ?_⟩
  rcases and_eq_stuck (map_eq_stuck h) with hopen | ⟨c, mid, hopen, hafter⟩
  · obtain rfl := isAtomic_char _ _ _ hopen
    exact begins_nil hsome rest
  · obtain ⟨rfl, hopening⟩ := char_eq_read hopen
    rw [beq_iff_eq.mp hopening]
    rcases and_eq_stuck hafter with hbody | ⟨b, mid', hbody, hclose⟩
    · obtain ⟨pre, u, rfl, hb⟩ := body_eq_stuck hbody
      exact ⟨'"' :: pre, u ++ ['"'], pre ++ u, rfl, by simp, hb⟩
    · obtain ⟨rfl, hb⟩ := body_eq_read hbody
      obtain rfl := isAtomic_char _ _ _ (and_done_eq_stuck hclose)
      exact ⟨'"' :: b, ['"'], b, rfl, rfl, hb⟩

/-- A key that gets stuck can be finished as a string. -/
theorem completes_key :
    Completes Reader.string.eat fun b w => ∃ ws, w = ws ++ '"' :: (b ++ ['"']) ∧ IsBlank ws ∧
      IsBody b := by
  apply completes_string.eat
  rintro ws b _ hws ⟨rfl, hb⟩
  exact ⟨ws, rfl, hws, hb⟩

/-! ### Numbers -/

/-- A zero stands for digits that are missing. -/
theorem areDigits_zero : AreDigits ['0'] := by
  refine ⟨by simp, fun c hc => ?_⟩
  obtain rfl := List.mem_singleton.mp hc
  decide

/-- A fraction that begins gives up after its point. -/
theorem fraction_eq_stuck {cs rest : List Char} (h : Reader.fraction.optional cs = .stuck rest) :
    cs = '.' :: rest := by
  obtain ⟨hne, hstuck⟩ := optional_eq_stuck h
  rcases and_eq_stuck (map_eq_stuck hstuck) with hpoint | ⟨c, mid, hpoint, hafter⟩
  · exact absurd (isAtomic_char _ _ _ hpoint) hne
  · obtain ⟨rfl, heq⟩ := char_eq_read hpoint
    rw [isAtomic_run1 _ _ _ (and_done_eq_stuck hafter), beq_iff_eq.mp heq]

/-- An exponent that begins gives up where its digits should be. -/
theorem exponent_eq_stuck {cs rest : List Char} (h : Reader.exponent.optional cs = .stuck rest) :
    ∃ e, cs = e ++ rest ∧ IsExponent (e ++ ['0']) := by
  obtain ⟨hne, hstuck⟩ := optional_eq_stuck h
  rcases and_eq_stuck hstuck with hmark | ⟨m, mid, hmark, hafter⟩
  · exact absurd (isAtomic_char _ _ _ hmark) hne
  · rcases and_eq_stuck hafter with hsign | ⟨o, mid', hsign, hdigits⟩
    · exact absurd hsign (isAtomic_char _).optional_ne_stuck
    · obtain ⟨rfl, hmem⟩ := char_eq_read hmark
      obtain ⟨sign, rfl, hsigns⟩ := sign_eq_read hsign
      obtain rfl := isAtomic_run1 _ _ _ (and_done_eq_stuck hdigits)
      have hm : m = 'e' ∨ m = 'E' := by simpa using hmem
      exact ⟨m :: sign, rfl, .mark hm hsigns areDigits_zero⟩

/-- A whole number is missed at its first digit. -/
theorem isAtomic_whole : Reader.whole.IsAtomic := by
  have hdigits : ((char fun c => decide ('1' ≤ c) && decide (c ≤ '9')).and
      ((run Decimal.isDigit).and done)).IsAtomic := by
    apply (isAtomic_char _).and
    intro cs rest h
    have hrun := and_done_eq_stuck h
    simp [run] at hrun
  exact isAtomic_first (by simpa using ⟨(isAtomic_char _).map _, hdigits.stretch.map _⟩)

/-- **Numbers.** A number that is not read to its end goes on with a zero. -/
theorem completes_number : Completes Reader.number fun t w => IsValue t w ∧ t.IsShort := by
  have hinteger : ∀ {sign}, sign = [] ∨ sign = ['-'] →
      IsValue (.integer (sign ++ ['0'])) (sign ++ ['0']) ∧
        (Tree.integer (sign ++ ['0'])).IsShort := by
    intro sign hsign
    refine ⟨.integer (isInteger_append hsign .zero), ?_⟩
    rcases hsign with rfl | rfl
    · simp [Tree.IsShort, Tree.integers, unsigned, Decimal.digitLimit]
    · simp [Tree.IsShort, Tree.integers, unsigned, Decimal.digitLimit]
  have hdecimal : ∀ {w}, IsDecimal w → IsValue (.decimal w) w ∧ (Tree.decimal w).IsShort :=
    fun hw => ⟨.decimal hw, List.forall_mem_nil _⟩
  refine ⟨⟨_, _, hinteger (.inl rfl)⟩, fun cs rest h => ?_⟩
  -- the first part that is not read to its end has read none of its digits
  rcases and_eq_stuck (stretch_eq_stuck (convert_eq_stuck h)) with hminus | ⟨o, mid, hminus, h₁⟩
  · exact absurd hminus (isAtomic_char _).optional_ne_stuck
  obtain ⟨sign, rfl, hsign⟩ := minus_eq_read hminus
  rcases and_eq_stuck h₁ with hwhole | ⟨_, mid₁, hwhole, h₂⟩
  · obtain rfl := isAtomic_whole _ _ hwhole
    exact ⟨sign, ['0'], _, rfl, hinteger hsign⟩
  obtain ⟨w, rfl, hw⟩ := whole_eq_read hwhole
  rcases and_eq_stuck h₂ with hfraction | ⟨_, mid₂, hfraction, h₃⟩
  · obtain rfl := fraction_eq_stuck hfraction
    have hnumber := IsDecimal.parts (isInteger_append hsign hw) (.inr (.point areDigits_zero))
      (.inl rfl) (by simp)
    exact ⟨sign ++ w ++ ['.'], ['0'], _, by simp, by simpa using hdecimal hnumber⟩
  obtain ⟨f, rfl, hf, -⟩ := fraction_eq_read hfraction
  obtain ⟨e, rfl, he⟩ := exponent_eq_stuck (and_done_eq_stuck h₃)
  have hnumber := IsDecimal.parts (isInteger_append hsign hw) hf (.inr he) (by simp)
  exact ⟨sign ++ w ++ f ++ e, ['0'], _, by simp, by simpa using hdecimal hnumber⟩

/-! ### Parts between brackets -/

section Bracketed

variable {α : Type} {one : TextReader α} {P Q : α → List Char → Prop}

/-- Parts with commas after them, and what is read of one more, go on with the rest of that one. -/
theorem rounds_begin (hwrites : Writes one P) (hspaced : ∀ a w, Spaced P a w → Q a w)
    (hone : Completes one Q) {as : List α} {cs mid rest : List Char}
    (hrounds : Rounds one (Reader.token ',') as cs mid)
    (hlast : rest = mid ∨ one mid = .stuck rest ∨ ∃ a, one mid = .read a rest) :
    ∃ pre u as, cs = pre ++ rest ∧ Listed Q as (pre ++ u) := by
  obtain ⟨pre, rfl, hpre⟩ := rounds_eq_leading hwrites hrounds
  have hlisted : ∀ {w a}, Q a w → Listed Q (as ++ [a]) (pre ++ w) :=
    fun ha => (hpre.imp hspaced).listed ha
  rcases hlast with rfl | hstuck | ⟨a, hread⟩
  · obtain ⟨a, w, hw⟩ := hone.some
    exact ⟨pre, w, _, rfl, hlisted hw⟩
  · obtain ⟨pre', u, a, rfl, ha⟩ := hone.stuck _ _ hstuck
    exact ⟨pre ++ pre', u, _, by rw [List.append_assoc],
      by rw [List.append_assoc]; exact hlisted ha⟩
  · obtain ⟨v, rfl, hv⟩ := hwrites _ _ _ hread
    have ha : Q a (v ++ []) := hspaced a _ ⟨v, [], rfl, isBlank_nil, hv⟩
    exact ⟨pre ++ v, [], _, by rw [List.append_assoc], by rw [List.append_assoc]; exact hlisted ha⟩

/-- **Brackets.** Parts between brackets that are not read to the end go on with a part, and the
    bracket that closes them. -/
theorem completes_bracketed (hwrites : Writes one P) (hspaced : ∀ a w, Spaced P a w → Q a w)
    (hone : Completes one Q) (opening closing : Char) :
    Completes (Reader.bracketed opening closing one) fun as v =>
      ∃ w, v = opening :: (w ++ [closing]) ∧ Listed Q as w := by
  have hsome : ∃ as v, ∃ w, v = opening :: (w ++ [closing]) ∧ Listed Q as w := by
    obtain ⟨a, w, hw⟩ := hone.some
    exact ⟨[a], _, w, rfl, .last hw⟩
  refine ⟨hsome, fun cs rest h => ?_⟩
  rcases and_eq_stuck (map_eq_stuck h) with hopen | ⟨c, mid, hopen, hafter⟩
  · obtain rfl := isAtomic_char _ _ _ hopen
    exact begins_nil hsome rest
  -- the parts are either not read to the end, or the bracket after them is not there
  have hparts : ∃ pre u as, mid = pre ++ rest ∧ Listed Q as (pre ++ u) := by
    rcases and_eq_stuck hafter with hparts | ⟨as, mid', hparts, hclose⟩
    · obtain ⟨as, mid', hrounds, hstart | hstuck | ⟨a, mid'', hread, hcomma⟩⟩ :=
        separated_eq_stuck hparts
      · exact rounds_begin hwrites hspaced hone hrounds (.inl hstart)
      · exact rounds_begin hwrites hspaced hone hrounds (.inr (.inl hstuck))
      · obtain rfl := isAtomic_token _ _ _ hcomma
        exact rounds_begin hwrites hspaced hone hrounds (.inr (.inr ⟨a, hread⟩))
    · obtain rfl := isAtomic_token _ _ _ (and_done_eq_stuck hclose)
      obtain ⟨as', mid', hrounds, ⟨-, hstart, -⟩ | ⟨a, -, hread⟩⟩ := separated_eq_read hparts
      · exact rounds_begin hwrites hspaced hone hrounds (.inl hstart)
      · exact rounds_begin hwrites hspaced hone hrounds (.inr (.inr ⟨a, hread⟩))
  obtain ⟨rfl, hopening⟩ := char_eq_read hopen
  obtain ⟨pre, u, as, rfl, hlisted⟩ := hparts
  rw [beq_iff_eq.mp hopening]
  exact ⟨opening :: pre, u ++ [closing], as, rfl, pre ++ u, by simp, hlisted⟩

end Bracketed

/-! ### Values -/

/-- A text that is read, if enough levels of nesting may be entered. -/
def IsReadable (t : Tree) (w : List Char) : Prop := IsPadded t w ∧ t.IsShort

/-- A key and a value that are read, if enough levels of nesting may be entered. -/
def IsMemberReadable (m : List Char × Tree) (w : List Char) : Prop := IsMember m w ∧ m.2.IsShort

/-- A word can stand for every value that is missing. -/
theorem isReadable_null : IsReadable .null ['n', 'u', 'l', 'l'] :=
  ⟨IsValue.isPadded .null, List.forall_mem_nil _⟩

variable {deep : Fault} {levels : Nat}

/-- A value that is written with white space around it can be read. -/
theorem isReadable_of_spaced {t : Tree} {w : List Char} (h : Spaced (IsWritten deep levels) t w) :
    IsReadable t w :=
  ⟨isPadded_of_spaced h, (Tree.nestedFault?_eq_none.mp (nestedFault?_of_spaced h)).2⟩

/-- So can a member. -/
theorem isMemberReadable_of_spaced {m : List Char × Tree} {w : List Char}
    (h : Spaced (IsMemberWritten deep levels) m w) : IsMemberReadable m w :=
  ⟨isMember_of_spaced h, (Tree.nestedFault?_eq_none.mp (nestedFault?_of_memberSpaced h)).2⟩

/-- An array is short if its items are. -/
theorem isShort_array {ts : List Tree} (h : ∀ t ∈ ts, t.IsShort) : (Tree.array ts).IsShort := by
  induction ts with
  | nil => exact List.forall_mem_nil _
  | cons t ts ih =>
    obtain ⟨ht, hts⟩ := List.forall_mem_cons.mp h
    exact List.forall_mem_append.mpr ⟨ht, ih hts⟩

/-- An object is short if its values are. -/
theorem isShort_object {ms : List (List Char × Tree)} (h : ∀ m ∈ ms, m.2.IsShort) :
    (Tree.object ms).IsShort := by
  induction ms with
  | nil => exact List.forall_mem_nil _
  | cons m ms ih =>
    obtain ⟨hm, hms⟩ := List.forall_mem_cons.mp h
    exact List.forall_mem_append.mpr ⟨hm, ih hms⟩

section Value

variable (hwrites : Writes (Reader.nested deep levels) (IsWritten deep levels))
  (hinside : Completes (Reader.nested deep levels) IsReadable)

include hwrites hinside

/-- An array that gets stuck can be finished, if the values in it can. -/
theorem completes_array : Completes (Reader.array (Reader.nested deep levels))
    fun ts w => IsValue (.array ts) w ∧ (Tree.array ts).IsShort := by
  refine (completes_bracketed hwrites (fun _ _ => isReadable_of_spaced) hinside '[' ']').imp ?_
  rintro ts _ ⟨w, rfl, hw⟩
  exact ⟨.array (isElements_of_listed (hw.imp fun _ _ h => h.1)),
    isShort_array (hw.forall_mem fun _ _ h => h.2)⟩

omit hwrites in
/-- A key and a value go on with what is missing of the key, and `null`, or with what is missing of
    the value. -/
theorem completes_member :
    Completes (Reader.member (Reader.nested deep levels)) IsMemberReadable := by
  have hkey : ∀ {ws b}, IsBlank ws → IsBody b →
      IsMemberReadable (b, .null) (ws ++ ('"' :: (b ++ ['"']) ++ [':', 'n', 'u', 'l', 'l'])) := by
    intro ws b hws hb
    exact ⟨by simpa using IsMember.colon hws hb isBlank_nil isReadable_null.1, isReadable_null.2⟩
  refine ⟨⟨_, _, hkey isBlank_nil .nil⟩, fun cs rest h => ?_⟩
  -- the key is not read, or the colon is not there, or the value is not read
  rcases and_eq_stuck (map_eq_stuck h) with hstuck | ⟨b, mid, hread, hafter⟩
  · rcases and_eq_stuck (map_eq_stuck hstuck) with hstring | ⟨b, mid, hstring, hcolon⟩
    · obtain ⟨pre, u, b, rfl, ws, heq, hws, hb⟩ := completes_key.stuck _ _ hstring
      have hmember := hkey hws hb
      rw [← List.append_assoc, ← heq, List.append_assoc] at hmember
      exact ⟨pre, u ++ [':', 'n', 'u', 'l', 'l'], _, rfl, hmember⟩
    · obtain ⟨ws, cs', hws, rfl, hquoted⟩ := eat_eq_read_blank hstring
      obtain ⟨rfl, hb⟩ := string_eq_read hquoted
      obtain rfl := isAtomic_token _ _ _ (and_done_eq_stuck hcolon)
      exact ⟨ws ++ ('"' :: (b ++ ['"'])), [':', 'n', 'u', 'l', 'l'], _, by simp,
        by simpa using hkey hws hb⟩
  · obtain ⟨ws, ws', rfl, hws, hb, hws'⟩ := key_eq_read hread
    obtain ⟨pre, u, t, rfl, ht⟩ := hinside.stuck _ _ (and_done_eq_stuck hafter)
    refine ⟨ws ++ '"' :: (b ++ '"' :: (ws' ++ ':' :: pre)), u, (b, t), by simp, ?_, ht.2⟩
    simpa using IsMember.colon hws hb hws' ht.1

/-- An object that gets stuck can be finished, if the values in it can. -/
theorem completes_object : Completes (Reader.object (Reader.nested deep levels))
    fun ms w => IsValue (.object ms) w ∧ (Tree.object ms).IsShort := by
  refine (completes_bracketed (member_eq_read hwrites) (fun _ _ => isMemberReadable_of_spaced)
    (completes_member hinside) '\x7b' '\x7d').imp ?_
  rintro ms _ ⟨w, rfl, hw⟩
  exact ⟨.object (isMembers_of_listed (hw.imp fun _ _ h => h.1)),
    isShort_object (hw.forall_mem fun _ _ h => h.2)⟩

/-- **Values.** A value that is not read to its end goes on as one of the alternatives does. -/
theorem completes_bare :
    Completes (Reader.bare (Reader.nested deep levels)) fun t w => IsValue t w ∧ t.IsShort := by
  have hnull : ∃ t w, IsValue t w ∧ t.IsShort := ⟨.null, _, .null, List.forall_mem_nil _⟩
  apply completes_first hnull
  have hstring : Completes (Reader.string.map Tree.string) fun t w => IsValue t w ∧ t.IsShort := by
    apply completes_string.map
    rintro b w ⟨rfl, hb⟩
    exact ⟨.string hb, List.forall_mem_nil _⟩
  have hobject : Completes ((Reader.object (Reader.nested deep levels)).map Tree.object)
      fun t w => IsValue t w ∧ t.IsShort := (completes_object hwrites hinside).map _ fun _ _ h => h
  have harray : Completes ((Reader.array (Reader.nested deep levels)).map Tree.array)
      fun t w => IsValue t w ∧ t.IsShort := (completes_array hwrites hinside).map _ fun _ _ h => h
  simpa using ⟨hstring, completes_number, hobject, harray,
    completes_of_isAtomic isAtomic_keyword hnull⟩

/-- **What gets stuck can be finished**: every value, if the values one level deeper can. -/
theorem completes_value : Completes (Reader.value (Reader.nested deep levels)) IsReadable := by
  apply (completes_bare hwrites hinside).eat
  rintro ws t w hws ⟨hw, hshort⟩
  have hpad := IsPadded.pad hws hw isBlank_nil
  rw [List.append_nil] at hpad
  exact ⟨hpad, hshort⟩

end Value

/-- **Nested values.** What is read of a value inside a container is the beginning of one, whatever
    number of levels is left. -/
theorem completes_nested (deep : Fault) (levels : Nat) :
    Completes (Reader.nested deep levels) IsReadable := by
  induction levels with
  | zero => exact ⟨⟨_, _, isReadable_null⟩, nofun⟩
  | succ levels ih => exact completes_value (nested_eq_read deep levels) ih

/-- **Documents.** What is read where the reader of documents gives up is the beginning of a
    document. -/
theorem completes_document (deep : Fault) (levels : Nat) :
    Completes (Reader.document (Reader.nested deep levels)) IsReadable := by
  refine ⟨⟨_, _, isReadable_null⟩, fun text rest h => ?_⟩
  -- the value is not read, or there is more than white space after it
  rcases and_eq_stuck (map_eq_stuck h) with hstuck | ⟨t, mid, hvalue, hend⟩
  · exact (completes_value (nested_eq_read deep levels) (completes_nested deep levels)).stuck _ _
      hstuck
  · obtain rfl := isAtomic_atEnd.eat _ _ (and_done_eq_stuck hend)
    obtain ⟨ws, v, rfl, hws, hv, hfault⟩ := value_eq_read (nested_eq_read deep levels) hvalue
    refine ⟨ws ++ v, [], t, by rw [List.append_assoc], ?_, (Tree.fault?_eq_none.mp hfault).2⟩
    rw [List.append_assoc]
    exact .pad hws hv isBlank_nil

end Itemwise.Json
