import Itemwise.Proofs.Json.Acceptance
import Itemwise.Proofs.Json.Lookahead
import Mathlib.Order.Lattice.Nat

namespace Itemwise.Json

/-!
# Where the JSON parser fails

A parse that fails reports the position up to which it has read the beginning of a document.  It may
have looked further ahead, at white space and the beginning of a word, before something came that no
document goes on with.

* `IsAccepted`, `IsBeginning`, `beginningLengths` — the texts that are accepted within some levels
  of nesting, their beginnings, and how long those are that a text starts with;
* `isAccepted_iff` — they are the documents in which no integer is too long;
* `parse_failure` — the position of a failure, and the longest beginning of an accepted text.
-/

/-- A text that is accepted if enough levels of nesting may be entered. -/
def IsAccepted (config : Config) (text : List Char) : Prop :=
  ∃ (levels : Nat) (v : Value) (pos : Nat), parse config text (.ok { levels := levels }) =
    .ok (.success v pos)

/-- The beginning of a text that is accepted. -/
def IsBeginning (config : Config) (w : List Char) : Prop := ∃ post, IsAccepted config (w ++ post)

/-- How long the parts that a text starts with are that are beginnings of accepted texts. -/
def beginningLengths (config : Config) (text : List Char) : Set Nat :=
  {n | n ≤ text.length ∧ IsBeginning config (text.take n)}

variable {config : Config}

/-- A text is accepted if it is written as a value that can be read, and only then. -/
theorem isAccepted_iff (hconfig : ReadsDocuments config) {text : List Char} :
    IsAccepted config text ↔ ∃ t, IsReadable t text := by
  have hparse := parse_eq hconfig.grammars hconfig.sequence hconfig.mapping text
  constructor
  · rintro ⟨levels, v, pos, hsuccess⟩
    rw [hparse levels] at hsuccess
    cases hread : Reader.document (Reader.nested (.depthExceeded (.int levels)) levels) text with
    | read t rest =>
      obtain ⟨-, ht, hfault⟩ := document_eq_read hread
      exact ⟨t, ht, Tree.isShort_of_fault?_eq_none t hfault⟩
    | stuck rest => simp [hread, outcomeOf] at hsuccess
    | fault f => simp [hread, outcomeOf] at hsuccess
  · rintro ⟨t, ht, hshort⟩
    -- as many levels are enough as the containers of the text enclose one another
    refine ⟨t.nestingWith 0, t.denote, text.length, ?_⟩
    rw [hparse, document_append ht, Tree.fault?_of_isShort t hshort, if_pos (Nat.le_refl _)]
    rfl

/-- A parse fails where the reader gets stuck. -/
theorem outcomeOf_eq_failure {text : List Char} {o : TextOutcome Tree} {place : Place}
    (h : outcomeOf text o = .ok (.failure place)) :
    ∃ rest, o = .stuck rest ∧ place = .position (text.length - rest.length) := by
  cases o with
  | read t rest => cases h
  | stuck rest => exact ⟨rest, rfl, (Outcome.failure.inj (Except.ok.inj h)).symm⟩
  | fault f => cases h

/-- A parse that comes to an outcome has a limit. -/
theorem limit_eq_ok_of_parse {text : List Char} {limit : Except Fault Limit}
    {outcome : Outcome Value} (h : parse config text limit = .ok outcome) : ∃ l, limit = .ok l := by
  cases limit with
  | ok l => exact ⟨l, rfl⟩
  | error f =>
    rw [parse] at h
    cases hbuilt : (document? config : Except Fault (Parser Unit)) with
    | error f' =>
      rw [hbuilt] at h
      cases h
    | ok p =>
      rw [hbuilt] at h
      cases h

/-- The reader of a parse that fails gives up. -/
theorem document_eq_stuck {text : List Char} {requested : Option Int} {place : Place}
    (h : parse config text (Depth.limit requested) = .ok (.failure place)) :
    ∃ deep levels rest, Reader.document (Reader.nested deep levels) text = .stuck rest ∧
      place = .position (text.length - rest.length) := by
  have hconfig := readsDocuments_of_parse h
  -- a parse that asks for no limit asks for the standard one
  obtain ⟨d, hlimit⟩ : ∃ d, Depth.limit requested = Depth.limit (some d) :=
    ⟨requested.getD Depth.standard, rfl⟩
  rw [hlimit] at h
  obtain ⟨l, hl⟩ := limit_eq_ok_of_parse h
  obtain ⟨hd, -⟩ := Depth.limit_eq_ok hl
  rw [parse_limit_eq hconfig text hd] at h
  exact ⟨tooDeep d, levelsFor d, outcomeOf_eq_failure h⟩

/-- What is left where the reader of documents gives up, and belongs to the beginning of an accepted
    text, is undecided: otherwise the reader would give up in the accepted text too. -/
theorem isUndecided_of_stuck {deep : Fault} {levels : Nat} {pre u y post : List Char} {t : Tree}
    (hstuck : Reader.document (Reader.nested deep levels) (pre ++ (u ++ y)) = .stuck (u ++ y))
    (ht : IsReadable t (pre ++ u ++ post)) : IsUndecided u := by
  by_contra hdecided
  have hlevels : levels ≤ max levels (t.nestingWith 0) := Nat.le_max_left ..
  have hsame := foretells_document (foretells_nested deep deep hlevels)
  rw [← List.append_assoc] at hstuck
  have hstuck' := hsame.stuck hstuck hdecided post
  rw [document_append ht.1, Tree.fault?_of_isShort t ht.2, if_pos (Nat.le_max_right ..)] at hstuck'
  cases hstuck'

/-- Some beginning of an accepted text is the longest one that a text starts with, if there is
    any. -/
theorem exists_isGreatest_beginning {text : List Char} {n : Nat}
    (hn : n ∈ beginningLengths config text) :
    ∃ e, IsGreatest (beginningLengths config text) e := by
  have hbounded : BddAbove (beginningLengths config text) := ⟨text.length, fun n hn => hn.1⟩
  exact ⟨_, Nat.sSup_mem ⟨n, hn⟩ hbounded, fun n hn => le_csSup hbounded hn⟩

/-- **The position of a failure.**  Where a parse fails, the text up to the reported position is the
    beginning of a text that is accepted.  The longest such beginning may reach further, but only
    over white space and the beginning of a word that stands for a value. -/
theorem parse_failure {text : List Char} {requested : Option Int} {place : Place}
    (h : parse config text (Depth.limit requested) = .ok (.failure place)) :
    ∃ p e, place = .position p ∧ IsGreatest (beginningLengths config text) e ∧ p ≤ e ∧
      ∃ ws k, (text.take e).drop p = ws ++ k ∧ IsBlank ws ∧ IsKeywordStart k := by
  have haccepted := @isAccepted_iff config (readsDocuments_of_parse h)
  obtain ⟨deep, levels, rest, hstuck, rfl⟩ := document_eq_stuck h
  obtain ⟨pre, u, t, rfl, ht⟩ := (completes_document deep levels).stuck text rest hstuck
  have hpos : (pre ++ rest).length - rest.length = pre.length := by
    rw [List.length_append, Nat.add_sub_cancel]
  -- what has been read goes on to a text that is accepted, so there is a longest beginning of such
  -- a text
  have hbegins : pre.length ∈ beginningLengths config (pre ++ rest) := by
    refine ⟨by simp, u, ?_⟩
    rw [List.take_left' rfl]
    exact haccepted.mpr ⟨t, ht⟩
  obtain ⟨e, hgreatest⟩ := exists_isGreatest_beginning hbegins
  have hle : pre.length ≤ e := hgreatest.2 hbegins
  refine ⟨pre.length, e, by rw [hpos], hgreatest, hle, ?_⟩
  -- beyond what has been read, it takes some of the rest
  have htake : (pre ++ rest).take e = pre ++ rest.take (e - pre.length) := by
    rw [List.take_append, List.take_of_length_le hle]
  obtain ⟨-, post, hbeginning⟩ := hgreatest.1
  obtain ⟨t', ht'⟩ := haccepted.mp hbeginning
  rw [htake] at ht' ⊢
  rw [List.drop_left' rfl]
  rw [← List.take_append_drop (e - pre.length) rest] at hstuck
  exact isUndecided_of_stuck hstuck ht'

/-- An array that ends within a word: the failure is before the white space, and the word that has
    begun may go on. -/
theorem parse_failure_unfinished :
    parse {} ['[', '1', ',', ' ', 't', 'r'] = .ok (.failure (.position 3)) ∧
      IsGreatest (beginningLengths {} ['[', '1', ',', ' ', 't', 'r']) 6 ∧
      ∃ ws k, [' ', 't', 'r'] = ws ++ k ∧ IsBlank ws ∧ IsKeywordStart k := by
  have hconfig : ReadsDocuments {} := ⟨rfl, rfl, rfl⟩
  have hfails : parse {} ['[', '1', ',', ' ', 't', 'r'] = .ok (.failure (.position 3)) :=
    (parse_limit_eq hconfig _ (show 0 < Depth.standard by decide)).trans (by cbv)
  -- with the rest of the word and a bracket the array is read
  have hbegins : IsBeginning {} ['[', '1', ',', ' ', 't', 'r'] := by
    have hone : IsValue (.integer ['1']) ['1'] :=
      .integer (.unsigned (isWhole_digit (by decide) (by decide)))
    have htrue : IsPadded (.bool true) [' ', 't', 'r', 'u', 'e'] :=
      @IsPadded.pad _ [' '] _ [] (by simp [IsBlank]) .true isBlank_nil
    have harray : IsPadded (.array [.integer ['1'], .bool true])
        ['[', '1', ',', ' ', 't', 'r', 'u', 'e', ']'] :=
      IsValue.isPadded (.array (.more hone.isPadded (.last htrue)))
    refine ⟨['u', 'e', ']'], (isAccepted_iff hconfig).mpr ⟨_, harray, ?_⟩⟩
    intro w hw
    obtain rfl : w = ['1'] := by simpa [Tree.integers, Tree.integersOfAll] using hw
    decide
  obtain ⟨p, e, hp, hgreatest, -, hundecided⟩ := parse_failure hfails
  obtain rfl : 3 = p := by simpa using hp
  obtain rfl : e = 6 := Nat.le_antisymm hgreatest.1.1 (hgreatest.2 ⟨by decide, hbegins⟩)
  exact ⟨hfails, hgreatest, hundecided⟩

end Itemwise.Json
