import Itemwise.Proofs.Json.Soundness

namespace Itemwise.Json

/-!
# What the JSON parser accepts

The parser accepts the documents of the grammar and nothing else, and yields the values that they
denote.

* `parse_limit_eq` — a parse under a requested limit is the reader of documents within as many
  levels as fit;
* `parse_document` — a parse of a document comes to its value or its first fault;
* `isPadded_unique` — a text is the text of one tree only;
* `parse_accepts` — what is accepted, and what it yields;
* `parse_depth` — where the limit is passed, and where that is not where the text nests deeper than
  it.
-/

/-- The levels of nesting that a parse has if it asks for `d` of them. -/
def levelsFor (d : Int) : Nat := (min d 59).toNat

/-- A positive limit gives as many levels as it says, but no more than 59. -/
theorem levelsFor_eq {d : Int} (hd : 0 < d) : (levelsFor d : Int) = min d 59 := by
  unfold levelsFor
  omega

/-- The fault of nesting too deeply in a parse that asks for `d` levels. -/
def tooDeep (d : Int) : Fault := .depthExceeded (.int (min d 59))

/-- A configuration in which everything is on that documents need. -/
structure ReadsDocuments (config : Config) : Prop where
  grammars : config.exampleGrammars = true
  sequence : config.growableSequence = true
  mapping : config.growableMapping = true

/-- A parse that asks for `d` levels comes to what the reader of documents comes to. -/
theorem parse_limit_eq {config : Config} (hconfig : ReadsDocuments config)
    (text : List Char) {d : Int} (hd : 0 < d) :
    parse config text (Depth.limit (some d)) =
      outcomeOf text (Reader.document (Reader.nested (tooDeep d) (levelsFor d)) text) := by
  rw [Depth.limit_eq hd, tooDeep, ← levelsFor_eq hd]
  exact parse_eq hconfig.grammars hconfig.sequence hconfig.mapping text (levelsFor d)

/-- A parse of a document comes to its value, or to its first fault. -/
theorem parse_document {config : Config} (hconfig : ReadsDocuments config) {t : Tree}
    {text : List Char} (ht : IsPadded t text) {d : Int} (hd : 0 < d) :
    parse config text (Depth.limit (some d)) =
      (t.fault? (tooDeep d) (levelsFor d)).elim (.ok (.success t.denote text.length)) .error := by
  rw [parse_limit_eq hconfig text hd, document_append ht]
  cases t.fault? (tooDeep d) (levelsFor d) <;> rfl

/-- A parse that comes to an outcome has all that documents need. -/
theorem readsDocuments_of_parse {config : Config} {text : List Char} {limit : Except Fault Limit}
    {outcome : Outcome Value} (h : parse config text limit = .ok outcome) :
    ReadsDocuments config := by
  obtain ⟨sequence, mapping, grammars, harness⟩ := config
  cases grammars with
  | false => cases h
  | true =>
    cases sequence with
    | false => cases h
    | true =>
      cases mapping with
      | false => cases h
      | true => exact ⟨rfl, rfl, rfl⟩

/-- **A text is the text of one document only**, as reading it within enough levels gives back the
    tree. -/
theorem isPadded_unique {t t' : Tree} {text : List Char} (h : IsPadded t text)
    (h' : IsPadded t' text) {deep : Fault} {levels : Nat} (hread : t.fault? deep levels = none) :
    t' = t := by
  have hdocument : Reader.document (Reader.nested deep levels) text =
      outcome (t.fault? deep levels) t [] :=
    document_append h levels
  have hdocument' : Reader.document (Reader.nested deep levels) text =
      outcome (t'.fault? deep levels) t' [] :=
    document_append h' levels
  rw [hdocument, hread] at hdocument'
  cases hfault : t'.fault? deep levels with
  | none =>
    rw [hfault] at hdocument'
    simpa [outcome] using hdocument'.symm
  | some f =>
    rw [hfault] at hdocument'
    cases hdocument'

/-- **The JSON parser accepts exactly the documents.**  If a parse comes to an outcome, that is a
    success just in case the text is that of a document, and then the whole of it is read and the
    value is the one it denotes.  A document that nests no deeper than the limit, and whose integers
    are not too long, does come to that. -/
theorem parse_accepts (config : Config) (text : List Char) {d : Int} (hd : 0 < d) :
    (∀ outcome, parse config text (Depth.limit (some d)) = .ok outcome →
      (outcome.isSuccess = true ↔ ∃ t, IsPadded t text) ∧
        ∀ v pos, outcome = .success v pos → pos = text.length ∧ ∀ t, IsPadded t text →
          v = t.denote) ∧
      (ReadsDocuments config → ∀ t, IsPadded t text → (t.nesting : Int) ≤ min d 59 → t.IsShort →
        parse config text (Depth.limit (some d)) = .ok (.success t.denote text.length)) := by
  refine ⟨fun outcome houtcome => ?_, fun hconfig t ht hnesting hshort => ?_⟩
  · rw [parse_limit_eq (readsDocuments_of_parse houtcome) text hd] at houtcome
    cases hread : Reader.document (Reader.nested (tooDeep d) (levelsFor d)) text with
    | read t rest =>
      obtain ⟨rfl, ht, hfault⟩ := document_eq_read hread
      rw [hread] at houtcome
      obtain rfl := Except.ok.inj houtcome
      refine ⟨⟨fun _ => ⟨t, ht⟩, fun _ => rfl⟩, fun v pos heq => ?_⟩
      simp only [Outcome.success.injEq] at heq
      obtain ⟨rfl, rfl⟩ := heq
      exact ⟨rfl, fun t' ht' => by rw [isPadded_unique ht ht' hfault]⟩
    | stuck rest =>
      rw [hread] at houtcome
      obtain rfl := Except.ok.inj houtcome
      refine ⟨⟨fun hsuccess => absurd hsuccess Bool.false_ne_true, fun ⟨t, ht⟩ => ?_⟩, nofun⟩
      -- a document would have been read, or come to a fault
      exact absurd ((document_append ht (levelsFor d)).symm.trans hread) outcome_ne_stuck
    | fault f =>
      rw [hread] at houtcome
      cases houtcome
  · have hlevels : t.nestingWith 0 ≤ levelsFor d := by
      have hle := t.nestingWith_zero_le
      have heq := levelsFor_eq hd
      omega
    rw [parse_document hconfig ht hd, Tree.fault?_of_isShort t hshort, if_pos hlevels]
    rfl

/-- A single digit other than zero is a whole number. -/
theorem isWhole_digit {c : Char} (hlow : '1' ≤ c) (hhigh : c ≤ '9') : IsWhole [c] :=
  .digits hlow hhigh (List.forall_mem_nil _)

/-- A value with a key of one letter is a member. -/
theorem isMember_key {t : Tree} {w : List Char} (h : IsValue t w) :
    IsMember (['k'], t) ('"' :: 'k' :: '"' :: ':' :: w) :=
  @IsMember.colon [] ['k'] [] w t isBlank_nil (.plain (by decide) (by decide) (by decide) .nil)
    isBlank_nil h.isPadded

/-- A document in which a key occurs twice. -/
theorem isPadded_twice :
    IsPadded (.object [(['k'], .integer ['1']), (['k'], .integer ['2'])])
      "\x7b\"k\":1,\"k\":2\x7d".toList := by
  have hone : IsValue (.integer ['1']) ['1'] :=
    .integer (.unsigned (isWhole_digit (by decide) (by decide)))
  have htwo : IsValue (.integer ['2']) ['2'] :=
    .integer (.unsigned (isWhole_digit (by decide) (by decide)))
  exact IsValue.isPadded (.object (.more (isMember_key hone) (.last (isMember_key htwo))))

/-- An object with one key twice is accepted, and its value has the key once, with the later
    value. -/
theorem parse_accepts_twice :
    parse {} "\x7b\"k\":1,\"k\":2\x7d".toList (Depth.limit (some 1)) =
        .ok (.success (.dict [(.text ['k'], .int 2)]) 13) ∧
      ((Outcome.success (Value.dict [(.text ['k'], .int 2)]) 13).isSuccess = true ↔
        ∃ t, IsPadded t "\x7b\"k\":1,\"k\":2\x7d".toList) := by
  have hshort : (Tree.object [(['k'], .integer ['1']), (['k'], .integer ['2'])]).IsShort := by
    intro w hw
    obtain rfl | rfl : w = ['1'] ∨ w = ['2'] := by
      simpa [Tree.integers, Tree.integersOfMembers] using hw
    all_goals decide
  have haccepts := parse_accepts {} "\x7b\"k\":1,\"k\":2\x7d".toList (show 0 < (1 : Int) by decide)
  have hparse := haccepts.2 ⟨rfl, rfl, rfl⟩ _ isPadded_twice (by decide) hshort
  exact ⟨hparse, (haccepts.1 _ hparse).1⟩

/-! ### The limit of nesting -/

/-- **The limit and the nesting of a text.** A document whose integers are not too long passes the
    limit just in case it nests deeper than that where empty objects do not count.  So a text that
    nests deeper than the limit passes it, unless it nests one level too deep and does so with empty
    objects alone. -/
theorem parse_depth {config : Config} (hconfig : ReadsDocuments config) {t : Tree}
    {text : List Char} (ht : IsPadded t text) (hshort : t.IsShort) {d : Int} (hd : 0 < d) :
    parse config text (Depth.limit (some d)) =
        (if (t.nestingWith 0 : Int) ≤ min d 59 then .ok (.success t.denote text.length)
          else .error (tooDeep d)) ∧
      ((parse config text (Depth.limit (some d)) = .error (tooDeep d) ↔
        min d 59 < (t.nesting : Int)) ↔
        ¬ ((t.nestingWith 0 : Int) = min d 59 ∧ (t.nesting : Int) = min d 59 + 1)) := by
  have hlevels := levelsFor_eq hd
  have hparse : parse config text (Depth.limit (some d)) =
      if (t.nestingWith 0 : Int) ≤ min d 59 then .ok (.success t.denote text.length)
      else .error (tooDeep d) := by
    rw [parse_document hconfig ht hd, Tree.fault?_of_isShort t hshort, ← hlevels]
    simp only [Int.ofNat_le]
    by_cases hle : t.nestingWith 0 ≤ levelsFor d
    · rw [if_pos hle, if_pos hle]
      rfl
    · rw [if_neg hle, if_neg hle]
      rfl
  refine ⟨hparse, ?_⟩
  -- the two ways to count empty objects are at most one level apart
  have hle := t.nestingWith_zero_le
  have hsucc := t.nesting_le_succ
  rw [hparse]
  by_cases hfits : (t.nestingWith 0 : Int) ≤ min d 59
  · simp only [if_pos hfits, reduceCtorEq, false_iff, Int.not_lt]
    omega
  · simp only [if_neg hfits, true_iff]
    omega

/-- An array of an empty container. -/
theorem isPadded_nested {t : Tree} {w : List Char} (h : IsValue t w) :
    IsPadded (.array [t]) ('[' :: (w ++ [']'])) :=
  IsValue.isPadded (.array (.last h.isPadded))

/-- An array in an array is a document. -/
theorem isPadded_emptyArray : IsPadded (.array [.array []]) ['[', '[', ']', ']'] :=
  isPadded_nested (.emptyArray isBlank_nil)

/-- So is an object in an array. -/
theorem isPadded_emptyObject : IsPadded (.array [.object []]) ['[', '\x7b', '\x7d', ']'] :=
  isPadded_nested (.emptyObject isBlank_nil)

/-- An array in an array needs two levels, also if it is empty. -/
theorem parse_depth_emptyArray :
    parse {} ['[', '[', ']', ']'] (Depth.limit (some 1)) = .error (tooDeep 1) :=
  (parse_depth ⟨rfl, rfl, rfl⟩ isPadded_emptyArray (List.forall_mem_nil _) (by decide)).1

/-- An array of an empty object nests two levels deep, and does not pass a limit of one; with an
    empty array in place of the object it does. -/
theorem parse_emptyObject_within :
    (1 : Int) < (Tree.array [.object []]).nesting ∧
      parse {} ['[', '\x7b', '\x7d', ']'] (Depth.limit (some 1)) =
        .ok (.success (.list [.dict []]) 4) ∧
      parse {} ['[', '[', ']', ']'] (Depth.limit (some 1)) = .error (.depthExceeded (.int 1)) := by
  refine ⟨by decide, ?_, ?_⟩
  · exact parse_document ⟨rfl, rfl, rfl⟩ isPadded_emptyObject (by decide)
  · exact parse_document ⟨rfl, rfl, rfl⟩ isPadded_emptyArray (by decide)

end Itemwise.Json
