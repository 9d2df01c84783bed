import Itemwise.Json.Parser
import Itemwise.Proofs.Json.Grammar
import Itemwise.Proofs.TextReader.Repetition

namespace Itemwise.Json

open TextReader Step

/-!
# The JSON parser as a reader

What the parsers of the grammar do on a text, as readers whose values are trees.

* `Reader.string`, `Reader.number`, `Reader.value`, `Reader.document` — the readers;
* `Reader.nested` — values inside a container, where a number of levels is left;
* `reads_string`, `reads_number`, `reads_value`, `reads_document`, `reads_nested` — the steps of the
  parsers do what they say;
* `parse_eq` — what the parser comes to on a text.

A string is read as its body, and a number as the text that it takes; only then is an integer too
long to be converted a fault.
-/

namespace Reader

/-- The parts of a number: a minus, the digits before the point, a fraction and an exponent. -/
abbrev NumberParts :=
  Option Char × List Char × Option (List Char) ×
    Option (Char × Option Char × List Char × Unit) × Unit

/-- The integer of a text, which must not be too long. -/
def shortInteger (w : List Char) : Except Fault Tree :=
  if Decimal.digitLimit < (unsigned w).length then .error .badValue else .ok (.integer w)

/-- The number of a text and its parts. -/
def numberOf (x : List Char × NumberParts) : Except Fault Tree :=
  match x with
  | (w, _, _, none, none, _) => shortInteger w
  | (w, _) => .ok (.decimal w)

/-- A quote. -/
def quote : TextReader Char := char (· == '"')

/-- An escape in a string. -/
def escape : TextReader (List Char) :=
  ((char (· == '\\')).and
    ((first [((char (· == 'u')).and (((char isHex).again 4).stretch.and done)).map (·.2.1.1),
      (char escapeLetters.contains).map fun c => [c]]).and done)).map (·.2.1)

/-- A part of the body of a string: plain characters, or an escape. -/
def part : TextReader (List Char) := first [run1 isPlain, escape]

/-- The body of a string. -/
def body : TextReader (List Char) := (separated part done true false).stretch.map (·.1)

/-- A string, of which the body is kept. -/
def string : TextReader (List Char) := (quote.and (body.and (quote.and done))).map (·.2.1)

/-- Digits, at least one. -/
def digits : TextReader (List Char) := run1 Decimal.isDigit

/-- A whole number: a zero, or digits that do not begin with one. -/
def whole : TextReader (List Char) :=
  first
    [(char (· == '0')).map fun c => [c],
      (stretch ((char fun c => decide ('1' ≤ c) && decide (c ≤ '9')).and
        ((run Decimal.isDigit).and done))).map Prod.fst]

/-- The digits behind a point. -/
def fraction : TextReader (List Char) := ((char (· == '.')).and (digits.and done)).map (·.2.1)

/-- The mark of an exponent, its sign if there is one, and its digits. -/
def exponent : TextReader (Char × Option Char × List Char × Unit) :=
  (char ['e', 'E'].contains).and ((char ['+', '-'].contains).optional.and (digits.and done))

/-- The parts of a number, of which the fraction and the exponent may be missing. -/
def numberParts : TextReader NumberParts :=
  (char (· == '-')).optional.and (whole.and (fraction.optional.and (exponent.optional.and done)))

/-- A number, which is converted as a whole. -/
def number : TextReader Tree := numberParts.stretch.convert numberOf

/-- A character with white space before it. -/
def token (c : Char) : TextReader Char := (char (· == c)).eat

/-- Parts between two brackets, with commas in between. -/
def bracketed {α : Type} (opening closing : Char) (one : TextReader α) : TextReader (List α) :=
  ((char (· == opening)).and
    ((separated one (token ',') false false).and ((token closing).and done))).map (·.2.1)

/-- The items of an array. -/
def array (inside : TextReader Tree) : TextReader (List Tree) := bracketed '[' ']' inside

/-- A key and a value with a colon in between. -/
def member (inside : TextReader Tree) : TextReader (List Char × Tree) :=
  (((string.eat.and ((token ':').and done)).map (·.1)).and (inside.and done)).map
    fun x => (x.1, x.2.1)

/-- The members of an object. -/
def object (inside : TextReader Tree) : TextReader (List (List Char × Tree)) :=
  bracketed '\x7b' '\x7d' (member inside)

/-- A word that stands for a value. -/
def keyword : TextReader Tree :=
  first
    [(TextReader.word ['t', 'r', 'u', 'e']).map fun _ => .bool true,
      (TextReader.word ['f', 'a', 'l', 's', 'e']).map fun _ => .bool false,
      (TextReader.word ['n', 'u', 'l', 'l']).map fun _ => .null]

/-- A value with no white space before it, given the reader for the values inside it. -/
def bare (inside : TextReader Tree) : TextReader Tree :=
  first [string.map .string, number, (object inside).map .object,
    (array inside).map .array, keyword]

/-- A value with white space before it. -/
def value (inside : TextReader Tree) : TextReader Tree := (bare inside).eat

/-- A value inside a container, where so many more levels may be entered, the one of the value among
    them. -/
def nested (deep : Fault) : (levels : Nat) → TextReader Tree
  | 0 => fun _ => .fault deep
  | levels + 1 => value (nested deep levels)

/-- A value and nothing after it but white space. -/
def document (inside : TextReader Tree) : TextReader Tree :=
  ((value inside).and (atEnd.eat.and done)).map (·.1)

end Reader

/-! ### What the parsers do -/

variable {T : TextRun}

/-- A test on characters is made on a value that is one. -/
theorem holds_ofChar (name : String) (p : Char → Bool) (c : Char) :
    (Predicate.ofChar name p).holds (.ofChar c) = .ok (p c) := rfl

section String

variable {σ : Type} [Memory σ] {setting : Setting σ} {next : Parser σ → Step σ}

/-- The grammar of escapes is the reader of escapes. -/
theorem reads_escape : Reads T (escape.eval setting next) Value.text Reader.escape := by
  have hunicode : Reads T
      (Parser.eval setting
        next (.andThen (.char 'u') (.times 4 (.satisfy (.ofChar "is_hex" isHex)))))
      (fun x => .text x.2.1.1) ((char (· == 'u')).and (((char isHex).again 4).stretch.and done)) :=
    ((reads_item 'u').collect_cons
      (((reads_satisfy (holds_ofChar "is_hex" isHex)).times 4).collect_cons
        reads_collect_nil)).sequence fun _ => rfl
  have hletter : Reads T (Parser.eval setting next (.charIn escapeLetters)) Value.text
      ((char escapeLetters.contains).map fun c => [c]) := .of_comp _ (reads_items escapeLetters)
  have hafter := (ReadsEach.cons (hunicode.of_comp _) (.cons hletter .nil)).choice
  exact (((reads_item '\\').collect_cons (hafter.collect_cons reads_collect_nil)).sequence
    fun _ => rfl).of_comp _

/-- The grammar of bodies is the reader of bodies. -/
theorem reads_body : Reads T (body.eval setting next) Value.text Reader.body := by
  have hplain : Reads T
      (Parser.eval setting next (.itemWhile1 (.ofChar "is_plain" isPlain))) Value.text
      (run1 isPlain) := reads_notEmpty_itemWhile (holds_ofChar "is_plain" isPlain)
  have hescape : Reads T (escape.eval setting next) Value.text Reader.escape := reads_escape
  have hpart := (ReadsEach.cons hplain (.cons hescape .nil)).choice
  exact (hpart.many_discard (.nothing () rfl)).of_comp _

/-- The grammar of strings is the reader of strings, with the escapes resolved. -/
theorem reads_string :
    Reads T (string.eval setting next) (fun b => .text (unescape b)) Reader.string := by
  have hbody : Reads T (Parser.eval setting next (.between (.char '"') body (.char '"')))
      (fun x => .text x.2.1) (Reader.quote.and (Reader.body.and (Reader.quote.and done))) :=
    ((reads_item '"').collect_cons (reads_body.collect_cons ((reads_item '"').collect_cons
      reads_collect_nil))).sequence fun _ => rfl
  have hvalue : Reads T (string.eval setting next) (fun x => .text (unescape x.2.1))
      (Reader.quote.and (Reader.body.and (Reader.quote.and done))) := hbody.map fun _ => rfl
  exact .of_comp _ hvalue

end String

variable {setting : Setting Unit} {next : Parser Unit → Step Unit}

/-- The grammar of digits is the reader of digits. -/
theorem reads_digits : Reads T (digits.eval setting next) Value.text Reader.digits :=
  reads_notEmpty_itemWhile (holds_ofChar "is_digit" Decimal.isDigit)

/-- The grammar of whole numbers is the reader of whole numbers. -/
theorem reads_whole : Reads T (whole.eval setting next) Value.text Reader.whole := by
  have hzero : Reads T (Parser.eval setting next (.char '0')) Value.text
      ((char (· == '0')).map fun c => [c]) :=
    .of_comp _ (reads_item '0')
  have hdigits : Reads T
      (Parser.eval setting next
        (.measure .stretch (.seq
          [.charBetween '1' '9', .itemWhile (.ofChar "is_digit" Decimal.isDigit)])))
      (fun x => .text x.1)
      ((char fun c => decide ('1' ≤ c) && decide (c ≤ '9')).and
        ((run Decimal.isDigit).and done)).stretch :=
    (((reads_range '1' '9').collect_cons
      ((reads_itemWhile (holds_ofChar "is_digit" Decimal.isDigit)).collect_cons
        reads_collect_nil)).sequence fun _ => rfl).measure_stretch
  exact (ReadsEach.cons hzero (.cons (hdigits.of_comp _) .nil)).choice

/-- The grammar of fractions is the reader of fractions. -/
theorem reads_fraction : Reads T (fraction.eval setting next) Value.text Reader.fraction :=
  (((reads_item '.').collect_cons (reads_digits.collect_cons reads_collect_nil)).sequence
    fun _ => rfl).of_comp _

/-- The value of an exponent. -/
def exponentValue (x : Char × Option Char × List Char × Unit) : Value :=
  .tuple [.ofChar x.1, x.2.1.elim .null Value.ofChar, .text x.2.2.1]

/-- The grammar of exponents is the reader of exponents. -/
theorem reads_exponent : Reads T (exponent.eval setting next) exponentValue Reader.exponent :=
  ((reads_items ['e', 'E']).collect_cons ((reads_items ['+', '-']).optional.collect_cons
    (reads_digits.collect_cons reads_collect_nil))).sequence fun _ => rfl

/-- The integer of a text is converted only if it is not too long. -/
theorem integerValue_eq (w : List Char) :
    integerValue w = (Reader.shortInteger w).map Tree.denote := by
  unfold Reader.shortInteger
  by_cases hlong : Decimal.digitLimit < (unsigned w).length
  · rw [if_pos hlong]
    unfold integerValue
    unfold unsigned at hlong
    split at hlong <;> simp [hlong, Except.map]
  · rw [if_neg hlong]
    unfold integerValue
    unfold unsigned at hlong
    simp only [Except.map, Tree.denote, integerOf]
    split at hlong <;> simp [hlong]

/-- The grammar of numbers is the reader of numbers, faults of the conversion included. -/
theorem reads_number : Reads T (number.eval setting next) Tree.denote Reader.number := by
  have hparts : Reads T
      (Parser.eval setting
        next (.seq [.optional (.char '-'), whole, .optional fraction, .optional exponent]))
      (fun x => .tuple [x.1.elim .null Value.ofChar, .text x.2.1, x.2.2.1.elim .null Value.text,
        x.2.2.2.1.elim .null exponentValue])
      Reader.numberParts :=
    ((reads_item '-').optional.collect_cons
      (reads_whole.collect_cons
        (reads_fraction.optional.collect_cons
          (reads_exponent.optional.collect_cons reads_collect_nil)))).sequence fun _ => rfl
  refine hparts.measure_stretchAndValue.convert ?_
  rintro ⟨w, m, i, f, e, _⟩
  cases f <;> cases e
  case none.none => exact integerValue_eq w
  all_goals rfl

/-- The grammar of a character with white space before it is its reader. -/
theorem reads_token (c : Char) :
    Reads T ((token c).eval setting next) Value.ofChar (Reader.token c) :=
  (reads_item c).eat

/-- The grammar of words is the reader of words. -/
theorem reads_keyword : Reads T (keyword.eval setting next) Tree.denote Reader.keyword := by
  have hword : ∀ (w : String) (t : Tree), Reads T ((word w t.denote).eval setting next) Tree.denote
      ((TextReader.word w.toList).map fun _ => t) :=
    fun w t => .of_comp _ ((reads_literal w.toList).map fun _ => rfl)
  exact (ReadsEach.cons (hword "true" (.bool true)) (.cons (hword "false" (.bool false))
    (.cons (hword "null" .null) .nil))).choice

/-- The draft that collects some pairs one by one. -/
def draftOf (ms : List (List Char × Value)) : Dict.Draft :=
  ms.foldl (fun d m => d.insert (.text m.1) m.2) .empty

/-- One member more is inserted behind those that are there. -/
theorem draftOf_append (ms : List (List Char × Value)) (m : List Char × Value) :
    draftOf (ms ++ [m]) = (draftOf ms).insert (.text m.1) m.2 := by
  rw [draftOf, List.foldl_append]
  rfl

/-- Pairs that are collected one by one come to their entries. -/
theorem toDict_draftOf (ms : List (List Char × Value)) : (draftOf ms).toDict = entriesOf ms := by
  induction hms : ms.reverse generalizing ms with
  | nil =>
    rw [List.reverse_eq_nil_iff.mp hms]
    rfl
  | cons m rest ih =>
    have heq : ms = rest.reverse ++ [m] := by rw [← ms.reverse_reverse, hms, List.reverse_cons]
    rw [heq, draftOf_append, Dict.Draft.toDict_insert, ih rest.reverse rest.reverse_reverse,
      insert_entriesOf]

/-- What stands between brackets, collected in a sink. -/
theorem reads_bracketed {α : Type} {opening closing : Char} {p : Parser Unit} {enc : α → Value}
    {one : TextReader α} {sink : Sink Unit} {state : List α → sink.Acc} {encs : List α → Value}
    (h : Reads T (p.eval setting next) enc one) (hcollects : Collects sink enc state)
    (hyields : sink.yieldsStretch = false)
    (hfinish : ∀ as, sink.finish (state as) = pure (encs as)) :
    Reads T (Parser.eval setting
      next (.between (.char opening) (.repeated p sink (some comma) 0) (token closing))) encs
        (Reader.bracketed opening closing one) := by
  have hparts : Reads T (Parser.eval setting next (.repeated p sink (some comma) 0)) encs
      (separated one (Reader.token ',') false false) :=
        h.many (.step (reads_token ',')) hcollects hyields hfinish
  exact .of_comp _ (((reads_item opening).collect_cons
    (hparts.collect_cons ((reads_token closing).collect_cons reads_collect_nil))).sequence fun _ =>
      rfl)

section Value

variable {inside : TextReader Tree}
  (hinside : Reads T (nested.eval setting next) Tree.denote inside)

include hinside

/-- The grammar of arrays is the reader of arrays. -/
theorem reads_array :
    Reads T (array.eval setting next) (Value.list <| Tree.denoteAll ·) (Reader.array inside) := by
  have hcollects : Collects (σ := Unit) .list Tree.denote fun ts =>
      (Tree.denoteAll ts).toArray := by
    refine ⟨rfl, fun ts t => ?_⟩
    rw [Tree.denoteAll_append]
    simp [Sink.push, Tree.denoteAll]
  exact reads_bracketed hinside hcollects rfl fun ts => rfl

/-- The grammar of members is the reader of members. -/
theorem reads_member :
    Reads T (member.eval setting next) (fun m => .tuple [.text (unescape m.1), m.2.denote])
    (Reader.member inside) := by
  have hkey : Reads T (Parser.eval setting next (.andDrop (.eat string) (token ':')))
      (fun b => .text (unescape b))
      ((Reader.string.eat.and ((Reader.token ':').and done)).map (·.1)) :=
    .of_comp _ ((reads_string.eat.collect_cons ((reads_token ':').collect_cons
      reads_collect_nil)).sequence fun _ => rfl)
  exact .of_comp _ ((hkey.collect_cons (hinside.collect_cons reads_collect_nil)).sequence
    fun _ => rfl)

/-- The grammar of objects is the reader of objects, of which equal keys are one. -/
theorem reads_object :
    Reads T (object.eval setting next) (Value.dict <| entriesOf <| Tree.denoteMembers ·)
    (Reader.object inside) := by
  have hcollects : Collects (σ := Unit) .dict
      (fun m : List Char × Tree => .tuple [.text (unescape m.1), m.2.denote]) fun ms =>
        draftOf (Tree.denoteMembers ms) := by
    refine ⟨rfl, fun ms m => ?_⟩
    have hlast : Tree.denoteMembers [m] = [(unescape m.1, m.2.denote)] := rfl
    rw [Tree.denoteMembers_append, hlast, draftOf_append]
    rfl
  refine reads_bracketed (reads_member hinside) hcollects rfl fun ms => ?_
  rw [← toDict_draftOf]
  rfl

/-- The step of a value, given that of the values inside it. -/
theorem reads_value : Reads T (value.eval setting next) Tree.denote (Reader.value inside) := by
  have hstring : Reads T (string.eval setting next) Tree.denote (Reader.string.map .string) :=
    .of_comp _ reads_string
  have hobject : Reads T (object.eval setting next) Tree.denote
      ((Reader.object inside).map .object) :=
    .of_comp _ (reads_object hinside)
  have harray : Reads T (array.eval setting next) Tree.denote ((Reader.array inside).map .array) :=
    .of_comp _ (reads_array hinside)
  exact (ReadsEach.cons hstring (.cons reads_number (.cons hobject (.cons harray
    (.cons reads_keyword .nil))))).choice.eat

/-- The step of a document, given that of the values inside it. -/
theorem reads_document :
    Reads T (document.eval setting next) Tree.denote (Reader.document inside) :=
  .of_comp _ (((reads_value hinside).collect_cons
    (reads_eof.eat.collect_cons reads_collect_nil)).sequence fun _ => rfl)

end Value

/-! ### Levels of nesting -/

/-- The steps of the parsers one level deeper, where so many levels are left. -/
def below (setting : Setting Unit) : (levels : Nat) → Parser Unit → Step Unit
  | 0 => fun _ c => throw c.limit.refusal
  | levels + 1 => Parser.runWithin setting levels

/-- A run within some levels is the step of the grammar with runs within one level less. -/
theorem runWithin_eq (setting : Setting Unit) (levels : Nat) (p : Parser Unit) :
    Parser.runWithin setting levels p = p.eval setting (below setting levels) := by
  cases levels <;> rfl

/-- **Nested values.** Where so many levels are left, a value inside a container is read if there is
    one left for it, and is too deep otherwise. -/
theorem reads_nested (config : Config) {levels : Nat}
    (hlevels : T.depth + levels = T.limit.levels) :
    Reads T (nested.eval ⟨config, grammar⟩ (below ⟨config, grammar⟩ levels)) Tree.denote
      (Reader.nested T.limit.refusal levels) := by
  induction levels generalizing T with
  | zero =>
    have hexceeded : ∀ cs, (T.context cs).isDepthExceeded = true := by
      intro cs
      refine decide_eq_true ?_
      show T.limit.levels ≤ T.depth
      omega
    refine ⟨fun cs _ => ?_, fun _ => trivial⟩
    show Step.descend _ _ _ = _
    rw [Step.descend, if_pos (hexceeded cs)]
    rfl
  | succ levels ih =>
    have hroom : ∀ cs, (T.context cs).isDepthExceeded = false := by
      intro cs
      refine decide_eq_false ?_
      show ¬ T.limit.levels ≤ T.depth
      omega
    -- one level deeper, the text and the positions in it are the same
    have hdeeper : T.depth + 1 + levels = T.limit.levels := by omega
    have hvalue := reads_value (ih (T := ⟨T.text, T.depth + 1, T.limit⟩) hdeeper)
    refine ⟨fun cs hcs => ?_, hvalue.forward⟩
    show Step.descend _ _ _ = _
    rw [Step.descend, hroom cs]
    refine Eq.trans ?_ (hvalue.run cs hcs)
    rw [← runWithin_eq]
    rfl

/-- What the outcome of a reader of a whole text is as that of a parser. -/
def outcomeOf (text : List Char) : TextOutcome Tree → Except Fault (Outcome Value)
  | .read t rest => .ok (.success t.denote (text.length - rest.length))
  | .stuck rest => .ok (.failure (.position (text.length - rest.length)))
  | .fault f => .error f

/-- **The parser is the reader.** With all that it needs switched on, and a limit that leaves some
    levels, the parser comes to what the reader of documents comes to within those levels. -/
theorem parse_eq {config : Config} (hgrammars : config.exampleGrammars = true)
    (hsequence : config.growableSequence = true) (hmapping : config.growableMapping = true)
    (text : List Char) (levels : Nat) :
    parse config text (.ok { levels := levels }) =
      outcomeOf text (Reader.document
        (Reader.nested (.depthExceeded (.int levels)) levels) text) := by
  let T : TextRun := ⟨text, 0, { levels := levels }⟩
  have hbuilt : (document? config : Except Fault (Parser Unit)) = .ok document := by
    simp [document?, value?, Config.require, Config.enabled, hgrammars, hsequence, hmapping,
      pure, Except.pure]
  have hlevels : T.depth + levels = T.limit.levels := by
    show (0 : Int) + levels = levels
    omega
  have hrun := (reads_document (reads_nested config hlevels)).run text List.suffix_rfl
  have hstart : T.context text = Parser.start (.sequence (.text text.toArray)) T.limit :=
    TextRun.context_text text _
  rw [hstart] at hrun
  have hparse : (document : Parser Unit).parse ⟨config, grammar⟩ (.sequence (.text text.toArray))
      (.ok T.limit) = ((Reader.document (Reader.nested (.depthExceeded (.int levels)) levels)
        text).map Tree.denote).toAction T := by
    refine Eq.trans ?_ hrun
    rw [← runWithin_eq, Parser.parse, ofExcept_ok, pure_bind, Parser.run]
    have hleft : ((Parser.start (.sequence (.text text.toArray)) T.limit).maxDepth - 0).toNat =
        levels := by
      show ((levels : Int) - 0).toNat = levels
      omega
    exact congrArg (fun n => Parser.runWithin _ n document _) hleft
  rw [parse, hbuilt, ok_bind, hparse]
  cases Reader.document (Reader.nested (.depthExceeded (.int levels)) levels) text <;> rfl

end Itemwise.Json
