import Itemwise.Proofs.Json.Acceptance

namespace Itemwise.Json

open TextReader

/-!
# The faults of the JSON parser

A parse comes to a fault where the limit of nesting is passed, and where an integer is too long to
be converted.

* `Fits` — a tree can be read inside so many containers;
* `Awaits` — a beginning of a text after which a value is due inside so many containers;
* `PassesLimit`, `MeetsLong` — the two ways in which a text comes to a fault;
* `nested_eq_fault`, `nested_append` — what a text comes to depends on where its values are due;
* `parse_eq_error` — the faults of the parser are these.

That a value is due does not say that the rest of the text is one: a text may come to a fault before
it turns out to be no document.
-/

/-! ### Where values are due -/

/-- A tree that can be read inside `k` containers. -/
def Fits (levels k : Nat) (t : Tree) : Prop := k + t.nestingWith 0 ≤ levels ∧ t.IsShort

/-- The beginnings of texts after which a value is due inside so many containers.  What stands
    before that value in the containers around it can be read. -/
inductive Awaits (levels : Nat) : Nat → List Char → Prop
  | start {ws : List Char} : IsBlank ws → Awaits levels 0 ws
  | element {k : Nat} {pre w ws : List Char} {ts : List Tree} : Awaits levels k pre →
    Leading (fun t w => IsPadded t w ∧ Fits levels (k + 1) t) ts w → IsBlank ws →
    Awaits levels (k + 1) (pre ++ '[' :: (w ++ ws))
  | member {k : Nat} {pre w ws b ws' ws'' : List Char} {ms : List (List Char × Tree)} :
      Awaits levels k pre →
      Leading (fun m w => IsMember m w ∧ Fits levels (k + 1) m.2) ms w → IsBlank ws →
      IsBody b → IsBlank ws' → IsBlank ws'' →
      Awaits levels (k + 1)
        (pre ++ '\x7b' :: (w ++ (ws ++ '"' :: (b ++ '"' :: (ws' ++ ':' :: ws'')))))

/-- A value is due inside one container more than there may be. -/
def PassesLimit (levels : Nat) (text : List Char) : Prop :=
  ∃ pre rest, text = pre ++ rest ∧ Awaits levels (levels + 1) pre

/-- Where a value is due there is an integer that is too long, with nothing after it that makes it
    another number. -/
def MeetsLong (levels : Nat) (text : List Char) : Prop :=
  ∃ k pre w post, text = pre ++ (w ++ post) ∧ k ≤ levels ∧ Awaits levels k pre ∧ IsInteger w ∧
    Decimal.digitLimit < (unsigned w).length ∧ Ends post

/-- White space may come before a value that is due. -/
theorem Awaits.append_blank {levels k : Nat} {pre ws : List Char} (h : Awaits levels k pre)
    (hws : IsBlank ws) :
    Awaits levels k (pre ++ ws) := by
  cases h with
  | start hblank => exact .start (hblank.append hws)
  | @element k pre w ws' ts hpre hts hblank =>
    have hassoc : pre ++ '[' :: (w ++ ws') ++ ws = pre ++ '[' :: (w ++ (ws' ++ ws)) := by simp
    rw [hassoc]
    exact .element hpre hts (hblank.append hws)
  | @member k pre w ws₁ b ws₂ ws₃ ms hpre hms hws₁ hb hws₂ hblank =>
    have hassoc : pre ++ '\x7b' :: (w ++ (ws₁ ++ '"' :: (b ++ '"' :: (ws₂ ++ ':' :: ws₃)))) ++ ws =
        pre ++ '\x7b' :: (w ++ (ws₁ ++ '"' :: (b ++ '"' :: (ws₂ ++ ':' :: (ws₃ ++ ws))))) := by simp
    rw [hassoc]
    exact .member hpre hms hws₁ hb hws₂ (hblank.append hws)

variable {deep : Fault} {levels : Nat}

/-- What fits inside one container more is no fault for the reader of what is inside. -/
theorem nestedFault?_of_fits {n k : Nat} {t : Tree} (hn : n + k = levels) :
    t.nestedFault? deep n = none ↔ Fits levels (k + 1) t := by
  rw [Tree.nestedFault?_eq_none, Fits]
  have hle : t.nestingWith 0 + 1 ≤ n ↔ k + 1 + t.nestingWith 0 ≤ levels := by omega
  rw [hle]

/-! ### Values that are due are read -/

section Due

variable {α : Type} {one : TextReader α} {f : Fault}

/-- White space before a fault does not change it. -/
theorem eat_of_fault {r : TextReader α} {ws cs : List Char} (hws : IsBlank ws)
    (h : r.eat cs = .fault f) :
    r.eat (ws ++ cs) = .fault f := by
  have hdrop : (ws ++ cs).dropWhile isBlank = cs.dropWhile isBlank :=
    List.dropWhile_append_of_pos fun c hc => isBlank_iff.mpr (hws c hc)
  rw [eat, hdrop, eat_eq_fault h]

/-- After parts that are read, a repetition comes to the fault of the next one. -/
theorem separated_leading {faultOf : α → Option Fault} {as : List α} {w cs : List Char}
    (h : Leading (fun a w => Takes one faultOf a w ∧ faultOf a = none) as w)
    (hone : one cs = .fault f) (dangling : Bool) :
    separated one (Reader.token ',') false dangling (w ++ cs) = .fault f := by
  induction h generalizing dangling with
  | nil => exact separated_of_fault hone _ _ _
  | @cons a as w w' ha _ ih =>
    obtain ⟨⟨v, ws, rfl, hv, hws, htakes⟩, hnone⟩ := ha
    have hread := htakes (ws ++ ',' :: (w' ++ cs)) (ends_blank_append hws (ends_cons (by decide) _))
    rw [hnone] at hread
    have hassoc : v ++ ws ++ ',' :: w' ++ cs = v ++ (ws ++ ',' :: (w' ++ cs)) := by simp
    have hshorter : (w' ++ cs).length < (v ++ (ws ++ ',' :: (w' ++ cs))).length := by
      simp only [List.length_append, List.length_cons]
      omega
    rw [hassoc, separated_of_more hread (by simpa using hv) (token_append (by decide) hws _)
      hshorter, ih true]
    rfl

/-- A fault behind parts that are read is the fault of all between the brackets. -/
theorem bracketed_leading {faultOf : α → Option Fault} {as : List α} {w cs : List Char}
    (h : Leading (fun a w => Takes one faultOf a w ∧ faultOf a = none) as w)
    (hone : one cs = .fault f) (opening closing : Char) :
    Reader.bracketed opening closing one (opening :: (w ++ cs)) = .fault f := by
  have hopen : char (· == opening) (opening :: (w ++ cs)) = .read opening (w ++ cs) :=
    by simp [char]
  rw [Reader.bracketed, TextReader.map, and_of_read hopen, TextReader.and, separated_leading h hone]
  rfl

end Due

/-- White space before a value with a fault does not change it. -/
theorem nested_of_fault {n : Nat} {ws cs : List Char} {f : Fault} (hws : IsBlank ws)
    (h : Reader.nested deep n cs = .fault f) : Reader.nested deep n (ws ++ cs) = .fault f := by
  cases n with
  | zero => exact h
  | succ n => exact eat_of_fault hws h

/-- A value that ends in a fault does so one level further up. -/
theorem nested_of_bare {n : Nat} {cs : List Char} {f : Fault}
    (h : Reader.bare (Reader.nested deep n) cs = .fault f)
    (hcs : ∀ c ∈ cs.head?, isBlank c = false) : Reader.nested deep (n + 1) cs = .fault f :=
  (eat_append isBlank_nil hcs fun _ => by simp [h]).trans h

/-- The fault of an element that is due is that of the array. -/
theorem nested_element {n k : Nat} (hn : n + k = levels) {ts : List Tree}
    {w ws cs : List Char} {f : Fault}
    (hts : Leading (fun t w => IsPadded t w ∧ Fits levels (k + 1) t) ts w) (hws : IsBlank ws)
    (h : Reader.nested deep n cs = .fault f) :
    Reader.nested deep (n + 1) ('[' :: (w ++ (ws ++ cs))) = .fault f := by
  have htakes := hts.imp
    (Q := fun t w => Takes (Reader.nested deep n) (Tree.nestedFault? deep n) t w ∧
      t.nestedFault? deep n = none)
    fun t w ht => ⟨ht.1.isTaken n, (nestedFault?_of_fits hn).mpr ht.2⟩
  have harray : Reader.array (Reader.nested deep n) ('[' :: (w ++ (ws ++ cs))) =
      outcome (some f) [] [] :=
    bracketed_leading htakes (nested_of_fault hws h) _ _
  exact nested_of_bare (bare_array harray) (by simp [isBlank, Leaf.blankChars])

/-- The fault of a value that is due after a key is that of the object. -/
theorem nested_member {n k : Nat} (hn : n + k = levels) {ms : List (List Char × Tree)}
    {w ws b ws' ws'' cs : List Char} {f : Fault}
    (hms : Leading (fun m w => IsMember m w ∧ Fits levels (k + 1) m.2) ms w) (hws : IsBlank ws)
    (hb : IsBody b) (hws' : IsBlank ws') (hws'' : IsBlank ws'')
    (h : Reader.nested deep n cs = .fault f) :
    Reader.nested deep (n + 1)
      ('\x7b' :: (w ++ (ws ++ '"' :: (b ++ '"' :: (ws' ++ ':' :: (ws'' ++ cs)))))) = .fault f := by
  have htakes := hms.imp (Q := fun m w => Takes (Reader.member (Reader.nested deep n))
    (fun m => m.2.nestedFault? deep n) m w ∧ m.2.nestedFault? deep n = none)
    fun m w hm => ⟨hm.1.isMemberTaken n, (nestedFault?_of_fits hn).mpr hm.2⟩
  have hmember : Reader.member (Reader.nested deep n)
      (ws ++ '"' :: (b ++ '"' :: (ws' ++ ':' :: (ws'' ++ cs)))) = .fault f := by
    have hkey := eat_of_read hws (by simp [isBlank, Leaf.blankChars])
      (string_append hb (ws' ++ ':' :: (ws'' ++ cs)))
    rw [Reader.member, TextReader.map, TextReader.and, TextReader.map, and_of_read hkey,
      and_of_read (token_append (by decide) hws' _)]
    simp [done, TextReader.and, nested_of_fault hws'' h]
  have hobject : Reader.object (Reader.nested deep n)
      ('\x7b' :: (w ++ (ws ++ '"' :: (b ++ '"' :: (ws' ++ ':' :: (ws'' ++ cs)))))) =
        outcome (some f) [] [] :=
    bracketed_leading htakes hmember _ _
  exact nested_of_bare (bare_object hobject) (by simp [isBlank, Leaf.blankChars])

/-- **Values that are due are read.** A fault where a value is due is one of the whole text, by
    induction on where it is due. -/
theorem nested_append {k : Nat} {pre : List Char} (h : Awaits levels k pre) {n : Nat}
    (hn : n + k = levels + 1) {rest : List Char} {f : Fault}
    (hrest : Reader.nested deep n rest = .fault f) :
    Reader.nested deep (levels + 1) (pre ++ rest) = .fault f := by
  induction h generalizing n rest with
  | start hws =>
    obtain rfl : n = levels + 1 := by omega
    exact nested_of_fault hws hrest
  | @element k pre w ws ts _ hts hws ih =>
    simpa using ih (show n + 1 + k = levels + 1 by omega) (nested_element (by omega) hts hws hrest)
  | @member k pre w ws b ws' ws'' ms _ hms hws hb hws' hws'' ih =>
    simpa using ih (show n + 1 + k = levels + 1 by omega)
      (nested_member (by omega) hms hws hb hws' hws'' hrest)

/-- An integer that is too long, where a value may stand. -/
theorem nested_long {w post : List Char} (hw : IsInteger w)
    (hlong : Decimal.digitLimit < (unsigned w).length) (hpost : Ends post) (n : Nat) :
    Reader.nested deep (n + 1) (w ++ post) = .fault .badValue := by
  have hread : Reader.bare (Reader.nested deep n) (w ++ post) =
      outcome ((Tree.integer w).fault? deep n) (.integer w) post := isRead_integer hw n post hpost
  rw [Tree.fault?_integer, if_pos hlong] at hread
  obtain ⟨c, cs, rfl, hc⟩ := head_of_isValue (.integer hw)
  exact nested_of_bare hread (by simpa using hc)

/-! ### Faults come from values that are due -/

/-- A single character ends in no fault. -/
theorem isSafe_token (c : Char) : (Reader.token c).IsSafe := (isSafe_char _).eat

/-- A string ends in no fault. -/
theorem isSafe_string : Reader.string.IsSafe := by
  have hunicode := (isSafe_char (· == 'u')).and
    (((isSafe_char isHex).again 4).stretch.and isSafe_done)
  have hafter : (first
      [((char (· == 'u')).and (((char isHex).again 4).stretch.and done)).map (·.2.1.1),
        (char escapeLetters.contains).map fun c => [c]]).IsSafe :=
    isSafe_first (by simpa using ⟨hunicode.map _, (isSafe_char _).map _⟩)
  have hescape : Reader.escape.IsSafe := ((isSafe_char _).and (hafter.and isSafe_done)).map _
  have hpart : Reader.part.IsSafe := isSafe_first (by simpa using ⟨isSafe_run1 isPlain, hescape⟩)
  have hbody : Reader.body.IsSafe := (hpart.separated isSafe_done true false).stretch.map _
  exact ((isSafe_char _).and (hbody.and ((isSafe_char _).and isSafe_done))).map _

/-- A word ends in no fault. -/
theorem isSafe_keyword : Reader.keyword.IsSafe :=
  isSafe_first
    (by simpa using ⟨(isSafe_word _).map _, (isSafe_word _).map _, (isSafe_word _).map _⟩)

/-- The parts of a number end in no fault. -/
theorem isSafe_numberParts : Reader.numberParts.IsSafe := by
  have hdigits := (isSafe_char fun c => decide ('1' ≤ c) && decide (c ≤ '9')).and
    ((isSafe_run Decimal.isDigit).and isSafe_done)
  have hwhole : Reader.whole.IsSafe :=
    isSafe_first (by simpa using ⟨(isSafe_char _).map _, hdigits.stretch.map _⟩)
  have hfraction : Reader.fraction.IsSafe :=
    ((isSafe_char _).and ((isSafe_run1 _).and isSafe_done)).map _
  have hexponent : Reader.exponent.IsSafe :=
    (isSafe_char _).and ((isSafe_char _).optional.and ((isSafe_run1 _).and isSafe_done))
  exact (isSafe_char _).optional.and
    (hwhole.and (hfraction.optional.and (hexponent.optional.and isSafe_done)))

/-- The digits before the point are a zero, or all the digits that there are. -/
theorem whole_eq_read_longest {cs rest w : List Char} (h : Reader.whole cs = .read w rest) :
    cs = '0' :: rest ∨ ∀ c ∈ rest.head?, ¬ IsDigit c := by
  obtain ⟨r, hr, hread⟩ := first_eq_read h
  simp only [List.mem_cons, List.not_mem_nil, or_false] at hr
  obtain rfl | rfl := hr
  · obtain ⟨c, hc, -⟩ := map_eq_read hread
    obtain ⟨rfl, hzero⟩ := char_eq_read hc
    rw [beq_iff_eq.mp hzero]
    exact .inl rfl
  · obtain ⟨x, hx, -⟩ := map_eq_read hread
    obtain ⟨hparts, -⟩ :=
      stretch_eq_read ((isForward_char _).and ((isForward_run _).and isForward_done)) hx
    obtain ⟨mid, -, hafter⟩ := and_eq_read hparts
    obtain ⟨mid', hds, hdone⟩ := and_eq_read hafter
    obtain rfl := done_eq_read hdone
    refine .inr fun c hc hdigit => ?_
    simp only [run, TextOutcome.read.injEq] at hds
    have hstop := List.head?_dropWhile_not Decimal.isDigit mid
    rw [hds.2, Option.mem_def.mp hc] at hstop
    simp [isDigit_iff.mpr hdigit] at hstop

/-- What is left after an integer of more than one digit does not go on with it. -/
theorem ends_of_numberParts {cs rest i : List Char} {m : Option Char} {w : List Char} {u : Unit}
    (h : Reader.numberParts cs = .read (m, w, none, none, u) rest) (hcs : cs = i ++ rest)
    (hlong : 1 < (unsigned i).length) : Ends rest := by
  obtain ⟨mid₁, hminus, h₁⟩ := and_eq_read h
  obtain ⟨mid₂, hwhole, h₂⟩ := and_eq_read h₁
  obtain ⟨mid₃, hfraction, h₃⟩ := and_eq_read h₂
  obtain ⟨mid₄, hexponent, hdone⟩ := and_eq_read h₃
  obtain ⟨rfl, hpoint⟩ := optional_eq_none hfraction
  obtain ⟨rfl, hmark⟩ := optional_eq_none hexponent
  obtain rfl := done_eq_read hdone
  have hafter := (isForward_run1 Decimal.isDigit).and isForward_done
  have hpoint := char_and_eq_stuck hafter (map_eq_stuck hpoint)
  have hmark := char_and_eq_stuck ((isForward_char _).optional.and hafter) hmark
  -- a zero would be the only digit
  have hdigit : ∀ c ∈ rest.head?, ¬ IsDigit c := by
    obtain hzero | hdigit := whole_eq_read_longest hwhole
    · exfalso
      obtain ⟨c, -, hread⟩ | ⟨-, hmid⟩ := optional_eq_read hminus
      · obtain ⟨rfl, hc⟩ := char_eq_read hread
        have hi : i = ['-', '0'] :=
          List.append_cancel_right (by rw [← hcs, hzero, beq_iff_eq.mp hc]; rfl)
        subst hi
        exact absurd hlong (by decide)
      · have hi : i = ['0'] := List.append_cancel_right (by rw [← hcs, ← hmid, hzero]; rfl)
        subst hi
        exact absurd hlong (by decide)
    · exact hdigit
  intro c hc
  have hletter : c ≠ 'e' ∧ c ≠ 'E' := by simpa using hmark c hc
  exact ⟨hdigit c hc, by simpa using hpoint c hc, hletter⟩

/-- A number that is a fault is an integer that is too long. -/
theorem number_eq_fault {cs : List Char} {f : Fault} (h : Reader.number cs = .fault f) :
    f = .badValue ∧ ∃ w post, cs = w ++ post ∧ IsInteger w ∧
      Decimal.digitLimit < (unsigned w).length ∧ Ends post := by
  obtain hstretch | ⟨⟨w, m, ds, o, o', u⟩, rest, hx, ht⟩ := convert_eq_fault h
  · exact absurd hstretch (isSafe_numberParts.stretch cs f)
  obtain ⟨hparts, hcs⟩ := stretch_eq_read isForward_numberParts hx
  obtain ⟨i, f', e, hifes, hi, -, -, hfnone, henone⟩ := numberParts_eq_read hparts
  have hw : w = i ++ f' ++ e := List.append_cancel_right (hcs.symm.trans hifes)
  match o, o', hparts, hfnone, henone, ht with
  | none, none, hparts, hfnone, henone, ht =>
    obtain rfl := hfnone.mp rfl
    obtain rfl := henone.mp rfl
    obtain rfl : w = i := by simpa using hw
    simp only [Reader.numberOf, Reader.shortInteger] at ht
    split at ht
    · next hlong =>
      refine ⟨(Except.error.inj ht).symm, w, rest, hcs, hi, hlong,
        ends_of_numberParts hparts hcs ?_⟩
      exact Nat.lt_trans (show 1 < Decimal.digitLimit by decide) hlong
    · cases ht
  | some _, _, _, _, _, ht => cases ht
  | none, some _, _, _, _, ht => cases ht

/-- A fault between brackets is that of a part, after parts that were read. -/
theorem bracketed_eq_fault {α : Type} {one : TextReader α} {P : α → List Char → Prop}
    (hone : Writes one P) {opening closing : Char} {cs : List Char} {f : Fault}
    (h : Reader.bracketed opening closing one cs = .fault f) :
    ∃ as w rest, cs = opening :: (w ++ rest) ∧ Leading (Spaced P) as w ∧ one rest = .fault f := by
  obtain hopen | ⟨c, mid, hopen, hafter⟩ := and_eq_fault (map_eq_fault h)
  · exact absurd hopen (isSafe_char _ _ _)
  obtain ⟨rfl, hc⟩ := char_eq_read hopen
  rw [beq_iff_eq.mp hc]
  obtain hparts | ⟨as, mid', -, hclose⟩ := and_eq_fault hafter
  · obtain ⟨as, mid', hrounds, hfault⟩ := separated_eq_fault hparts
    obtain ⟨w, rfl, hw⟩ := rounds_eq_leading hone hrounds
    obtain hfault | ⟨a, mid'', -, hcomma⟩ := hfault
    · exact ⟨as, w, mid', rfl, hw, hfault⟩
    · exact absurd hcomma (isSafe_token _ _ _)
  · exact absurd hclose ((isSafe_token closing).and isSafe_done _ _)

/-- A fault in a key and a value is that of the value, after the key. -/
theorem member_eq_fault {inside : TextReader Tree} {cs : List Char} {f : Fault}
    (h : Reader.member inside cs = .fault f) :
    ∃ ws b ws' rest, cs = ws ++ '"' :: (b ++ '"' :: (ws' ++ ':' :: rest)) ∧ IsBlank ws ∧
      IsBody b ∧ IsBlank ws' ∧
      inside rest = .fault f := by
  have hsafe : ((Reader.string.eat.and ((Reader.token ':').and done)).map (·.1)).IsSafe :=
    (isSafe_string.eat.and ((isSafe_token ':').and isSafe_done)).map _
  obtain hkey | ⟨b, mid, hkey, hafter⟩ := and_eq_fault (map_eq_fault h)
  · exact absurd hkey (hsafe _ _)
  obtain hvalue | ⟨t, mid', -, hdone⟩ := and_eq_fault hafter
  · obtain ⟨y, hy, rfl⟩ := map_eq_read hkey
    obtain ⟨mid₁, hstring, hcolon⟩ := and_eq_read hy
    obtain ⟨mid₂, htoken, hend⟩ := and_eq_read hcolon
    obtain ⟨ws, cs', hws, rfl, hquoted⟩ := eat_eq_read_blank hstring
    obtain ⟨rfl, hb⟩ := string_eq_read hquoted
    obtain ⟨ws', hws', rfl⟩ := token_eq_read htoken
    obtain rfl := done_eq_read hend
    exact ⟨ws, y.1, ws', mid, rfl, hws, hb, hws', hvalue⟩
  · exact absurd hdone (isSafe_done _ _)

/-- The faults of a text. -/
inductive IsFault (deep : Fault) (levels : Nat) (text : List Char) : Fault → Prop
  | deep : PassesLimit levels text → IsFault deep levels text deep
  | long : MeetsLong levels text → IsFault deep levels text .badValue

/-- **Faults come from values that are due.** The fault of a value that is due is one of the whole
    text, by induction on the levels that are left for it. -/
theorem nested_eq_fault {n k : Nat} (hn : n + k = levels + 1) {pre cs : List Char} {f : Fault}
    (hpre : Awaits levels k pre) (h : Reader.nested deep n cs = .fault f) :
    IsFault deep levels (pre ++ cs) f := by
  induction n generalizing k pre cs with
  | zero =>
    obtain rfl : k = levels + 1 := by omega
    obtain rfl := TextOutcome.fault.inj h
    exact .deep ⟨pre, cs, rfl, hpre⟩
  | succ n ih =>
    have hn' : n + k = levels := by omega
    -- the white space before the value belongs to what stands before it
    have hblank : IsBlank (cs.takeWhile isBlank) :=
      fun c hc => isBlank_iff.mp (List.all_eq_true.mp List.all_takeWhile c hc)
    have hpre' := hpre.append_blank hblank
    have hcs : pre ++ cs = pre ++ cs.takeWhile isBlank ++ cs.dropWhile isBlank := by
      rw [List.append_assoc, List.takeWhile_append_dropWhile]
    rw [hcs]
    obtain ⟨r, hr, hfault⟩ := first_eq_fault (eat_eq_fault h)
    simp only [List.mem_cons, List.not_mem_nil, or_false] at hr
    obtain rfl | rfl | rfl | rfl | rfl := hr
    · exact absurd hfault (isSafe_string.map _ _ _)
    -- strings and keywords are never faults, and the fault of a container is that of what is due in
    -- it
    · obtain ⟨rfl, w, post, hw, hinteger, hlong, hpost⟩ := number_eq_fault hfault
      exact .long ⟨k, _, w, post, by rw [hw], by omega, hpre', hinteger, hlong, hpost⟩
    · obtain ⟨ms, w, rest, hobject, hms, hmember⟩ :=
        bracketed_eq_fault (member_eq_read (nested_eq_read deep n)) (map_eq_fault hfault)
      obtain ⟨ws, b, ws', rest', rfl, hws, hb, hws', hvalue⟩ := member_eq_fault hmember
      have hfits := hms.imp (Q := fun m w => IsMember m w ∧ Fits levels (k + 1) m.2) fun m w hm =>
        ⟨isMember_of_spaced hm, (nestedFault?_of_fits hn').mp (nestedFault?_of_memberSpaced hm)⟩
      have hdue := ih (show n + (k + 1) = levels + 1 by omega)
        (.member hpre' hfits hws hb hws' isBlank_nil) hvalue
      rw [hobject]
      simpa using hdue
    · obtain ⟨ts, w, rest, harray, hts, hvalue⟩ :=
        bracketed_eq_fault (nested_eq_read deep n) (map_eq_fault hfault)
      have hfits := hts.imp (Q := fun t w => IsPadded t w ∧ Fits levels (k + 1) t) fun t w ht =>
        ⟨isPadded_of_spaced ht, (nestedFault?_of_fits hn').mp (nestedFault?_of_spaced ht)⟩
      have hdue := ih (show n + (k + 1) = levels + 1 by omega)
        (.element hpre' hfits isBlank_nil) hvalue
      rw [harray]
      simpa using hdue
    · exact absurd hfault (isSafe_keyword _ _)

/-! ### The faults of a parse -/

/-- A document comes to the faults of its text. -/
theorem document_eq_fault_iff {text : List Char} {f : Fault} :
    Reader.document (Reader.nested deep levels) text = .fault f ↔ IsFault deep levels text f := by
  have hdocument : Reader.document (Reader.nested deep levels) text = .fault f ↔
      Reader.nested deep (levels + 1) text = .fault f := by
    constructor
    · intro h
      obtain hvalue | ⟨t, mid, -, hend⟩ := and_eq_fault (map_eq_fault h)
      · exact hvalue
      · exact absurd hend ((isSafe_atEnd.eat.and isSafe_done) _ _)
    · intro h
      have hvalue : Reader.value (Reader.nested deep levels) text = .fault f := h
      rw [Reader.document, TextReader.map, TextReader.and, hvalue]
      rfl
  rw [hdocument]
  constructor
  · exact fun h => nested_eq_fault (show levels + 1 + 0 = levels + 1 by rfl) (.start isBlank_nil) h
  · rintro (⟨pre, rest, rfl, hpre⟩ | ⟨k, pre, w, post, rfl, hk, hpre, hw, hlong, hpost⟩)
    · exact nested_append hpre (Nat.zero_add _) rfl
    · exact nested_append hpre (show levels - k + 1 + k = levels + 1 by omega)
        (nested_long hw hlong hpost _)

/-- There are two faults: levels that are passed, and numbers that are too long. -/
theorem isFault_iff {text : List Char} {f : Fault} :
    IsFault deep levels text f ↔ (f = deep ∧ PassesLimit levels text) ∨
      (f = .badValue ∧ MeetsLong levels text) := by
  constructor
  · rintro (h | h)
    · exact .inl ⟨rfl, h⟩
    · exact .inr ⟨rfl, h⟩
  · rintro (⟨rfl, h⟩ | ⟨rfl, h⟩)
    · exact .deep h
    · exact .long h

/-- A parse ends in the fault of the reader. -/
theorem outcomeOf_eq_error {text : List Char} {o : TextOutcome Tree} {f : Fault} :
    outcomeOf text o = .error f ↔ o = .fault f := by
  cases o <;> simp [outcomeOf]

/-- **The faults of a parse.** A parse comes to a fault just in case the text passes the limit, or
    meets an integer that is too long.  So passing the limit is the only fault of a text just in
    case it meets no such integer. -/
theorem parse_eq_error {config : Config} (hconfig : ReadsDocuments config) (text : List Char)
    {d : Int} (hd : 0 < d) :
    (∀ f, parse config text (Depth.limit (some d)) = .error f ↔
      (f = tooDeep d ∧ PassesLimit (levelsFor d) text) ∨
        (f = .badValue ∧ MeetsLong (levelsFor d) text)) ∧
    ((∀ f, parse config text (Depth.limit (some d)) = .error f → f = tooDeep d) ↔
      ¬ MeetsLong (levelsFor d) text) := by
  have hfaults : ∀ f, parse config text (Depth.limit (some d)) = .error f ↔
      (f = tooDeep d ∧ PassesLimit (levelsFor d) text) ∨
        (f = .badValue ∧ MeetsLong (levelsFor d) text) := by
    intro f
    rw [parse_limit_eq hconfig text hd, outcomeOf_eq_error, document_eq_fault_iff, isFault_iff]
  refine ⟨hfaults, fun honly hlong => ?_, fun hlong f hf => ?_⟩
  · have hdeep := honly .badValue ((hfaults _).mpr (.inr ⟨rfl, hlong⟩))
    cases hdeep
  · obtain ⟨rfl, -⟩ | ⟨-, hmeets⟩ := (hfaults f).mp hf
    · rfl
    · exact absurd hmeets hlong

/-- Ones are an integer. -/
theorem isInteger_ones (n : Nat) : IsInteger (List.replicate (n + 1) '1') := by
  refine .unsigned (.digits (by decide) (by decide) fun c hc => ?_)
  rw [List.eq_of_mem_replicate hc]
  decide

/-- Ones are all digits. -/
theorem length_unsigned_ones (n : Nat) :
    (unsigned (List.replicate (n + 1) '1')).length = n + 1 := by
  show ('1' :: List.replicate n '1').length = n + 1
  rw [List.length_cons, List.length_replicate]

/-- Too many ones are met before any other fault. -/
theorem meetsLong_ones {n : Nat} (hn : Decimal.digitLimit ≤ n) (levels : Nat) :
    MeetsLong levels (List.replicate (n + 1) '1') := by
  refine ⟨0, [], _, [], (List.append_nil _).symm, Nat.zero_le _, .start isBlank_nil,
    isInteger_ones n, ?_, ends_nil⟩
  rw [length_unsigned_ones]
  omega

/-- One digit more than a conversion handles is refused. -/
theorem parse_eq_error_ones :
    parse {} (List.replicate 4301 '1') (Depth.limit (some 1)) = .error .badValue :=
  ((parse_eq_error ⟨rfl, rfl, rfl⟩ _ (by decide)).1 _).mpr
  (.inr ⟨rfl, meetsLong_ones (by decide) _⟩)

/-- A number of 4301 digits is a document, and yet a parse of it comes to a fault that is not
    passing the limit. -/
theorem parse_long_integer :
    (∃ t, IsPadded t (List.replicate 4301 '1')) ∧
      parse {} (List.replicate 4301 '1') (Depth.limit (some 1)) = .error .badValue ∧
      ∀ v, Fault.badValue ≠ .depthExceeded v := by
  have hdocument : IsPadded (.integer (List.replicate 4301 '1')) (List.replicate 4301 '1') :=
    IsValue.isPadded (.integer (isInteger_ones 4300))
  have hlong : Decimal.digitLimit < (unsigned (List.replicate 4301 '1')).length := by
    rw [length_unsigned_ones 4300]
    decide
  refine ⟨⟨_, hdocument⟩, ?_, fun v => Fault.noConfusion⟩
  rw [parse_document ⟨rfl, rfl, rfl⟩ hdocument (by decide), Tree.fault?_integer, if_pos hlong]
  rfl

end Itemwise.Json
