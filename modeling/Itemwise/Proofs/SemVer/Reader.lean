import Itemwise.Proofs.Decimal.Digits
import Itemwise.Proofs.SemVer.Grammar
import Itemwise.Proofs.TextReader.Inversion
import Itemwise.Proofs.TextReader.Repetition
import Itemwise.SemVer.Parser

namespace Itemwise.SemVer

open TextReader Step

/-!
# The version parser as a reader

What the parsers of the grammar do on a text, as readers.

* `Reader.component`, `Reader.preReleaseIdentifier`, `Reader.part`, `Reader.version` — the readers;
* `reads_component`, `reads_preReleaseIdentifier`, `reads_part`, `reads_version` — the steps of the
  parsers do what they say;
* `parse_eq` — what the parser comes to on a text.

A number is read as its digits, and an identifier of either part as its characters.
-/

namespace Reader

/-- The digits of a number from the text that it takes and its digits; leading zeros are refused. -/
def componentOf (x : List Char × List Char) : Option (List Char) :=
  if x.1.head? = some '0' ∧ Decimal.toNat x.2 ≠ 0 then none else some x.2

/-- The reader of a number. -/
def component : TextReader (List Char) := (run1 Decimal.isDigit).stretch.mapIf componentOf

/-- The reader of a number with a dot after it. -/
def dotted : TextReader (List Char) := (component.and ((char (· == '.')).and done)).map (·.1)

/-- The reader of the three numbers. -/
def core : TextReader (List Char × List Char × List Char × Unit) :=
  dotted.and (dotted.and (component.and done))

/-- The reader of an identifier. -/
def identifier : TextReader (List Char) := run1 isIdentifierChar

/-- Whether a run of digits has no leading zero; a single zero is fine. -/
def isPlain (ds : List Char) : Bool := ds.length == 1 || ds.head? != some '0'

/-- The reader of digits without a leading zero. -/
def numeric : TextReader (List Char) :=
  (run1 Decimal.isDigit).mapIf (Option.guard fun ds => isPlain ds)

/-- The reader of an identifier with any digits in front. -/
def alphanumeric : TextReader (List Char) :=
  ((run Decimal.isDigit).optional.and (identifier.and done)).stretch.map (·.1)

/-- The reader of an identifier of a pre-release: the longer form first. -/
def preReleaseIdentifier : TextReader (List Char) := first [alphanumeric.attempt, numeric]

/-- One or more words with dots in between. -/
def identifiers (one : TextReader (List Char)) : TextReader (List Char) :=
  (((separated one (char (· == '.')) false false).atLeast 1).stretch).map (·.1)

/-- The reader of a part that follows its mark. -/
def part (mark : Char) (one : TextReader (List Char)) : TextReader (List Char) :=
  (((char (· == mark)).and ((identifiers one).and done)).map (·.2.1)).attempt

/-- What a version is made of, in the order in which it is read. -/
abbrev Parts := (List Char × List Char × List Char × Unit) × Option (List Char) ×
    Option (List Char) × Unit

/-- The version of its parts. -/
def versionOf : Parts → SemVer
  | ((a, b, c, _), p, m, _) =>
    ⟨Decimal.toNat a, Decimal.toNat b, Decimal.toNat c, p.getD [], m.getD []⟩

/-- The reader of a version, up to the end of the text. -/
def version : TextReader SemVer :=
  (((core.and ((part '-' preReleaseIdentifier).optional.and
    ((part '+' identifier).optional.and done))).map versionOf).and (atEnd.and done)).map (·.1)

/-- The version of a text, if it is one. -/
def version? (text : List Char) : Option SemVer :=
  match version text with
  | .read v _ => some v
  | _ => none

/-! ### No faults -/

/-- Reading a number comes to no fault. -/
theorem isSafe_component : component.IsSafe := (isSafe_run1 _).stretch.mapIf _

/-- Nor does reading an identifier. -/
theorem isSafe_identifier : identifier.IsSafe := isSafe_run1 _

/-- Nor one of a pre-release. -/
theorem isSafe_preReleaseIdentifier : preReleaseIdentifier.IsSafe := by
  have halphanumeric : alphanumeric.IsSafe :=
    ((isSafe_run _).optional.and (isSafe_identifier.and isSafe_done)).stretch.map _
  have hnumeric : numeric.IsSafe := (isSafe_run1 _).mapIf _
  refine isSafe_first fun r hr => ?_
  obtain rfl | rfl : r = alphanumeric.attempt ∨ r = numeric := by simpa using hr
  · exact halphanumeric.attempt
  · exact hnumeric

/-- Nor a part after its mark, if one of its words does not. -/
theorem isSafe_part {one : TextReader (List Char)} (h : one.IsSafe) (mark : Char) :
    (part mark one).IsSafe :=
  (((isSafe_char _).and
    ((((h.separated (isSafe_char _) _ _).atLeast 1).stretch.map _).and isSafe_done)).map _).attempt

/-- Reading a version comes to no fault. -/
theorem isSafe_version : version.IsSafe := by
  have hdotted : dotted.IsSafe := (isSafe_component.and ((isSafe_char _).and isSafe_done)).map _
  have hcore : core.IsSafe := hdotted.and (hdotted.and (isSafe_component.and isSafe_done))
  have hpre := (isSafe_part isSafe_preReleaseIdentifier '-').optional
  have hbuild := (isSafe_part isSafe_identifier '+').optional
  exact (((hcore.and (hpre.and (hbuild.and isSafe_done))).map _).and
    (isSafe_atEnd.and isSafe_done)).map _

end Reader

/-! ### What the parsers do -/

variable {T : TextRun} {setting : Setting Unit} {next : Parser Unit → Step Unit}

/-- The step for a character reads that character. -/
theorem reads_char (c : Char) :
    Reads T (Parser.eval setting next (.char c)) Value.ofChar (char (· == c)) :=
  reads_item c

/-- The value of a number that is read as its digits. -/
def componentNumber (ds : List Char) : Value := .int (Decimal.toNat ds)

/-- The step for a number reads its digits, and its value is their number. -/
theorem reads_component :
    Reads T (component.eval setting next) componentNumber Reader.component := by
  refine (reads_integer.measure_stretchAndValue).mapIf ?_ nofun
  rintro ⟨w, ds⟩
  have hzero : ((Decimal.toNat ds : Int) ≠ 0) ↔ Decimal.toNat ds ≠ 0 := by omega
  simp only [componentValue, Reader.componentOf, hzero]
  by_cases hrefused : w.head? = some '0' ∧ Decimal.toNat ds ≠ 0
  · simp [hrefused]
  · simp only [if_neg hrefused]
    rfl

/-- The same with a dot after it. -/
theorem reads_dotted : Reads T (dotted.eval setting next) componentNumber Reader.dotted :=
  .of_comp _ ((reads_component.collect_cons
    ((reads_char '.').collect_cons reads_collect_nil)).sequence fun _ => rfl)

/-- The three numbers, as the tuple of their values. -/
def coreValue (x : List Char × List Char × List Char × Unit) : Value :=
  .tuple [componentNumber x.1, componentNumber x.2.1, componentNumber x.2.2.1]

/-- The same for the three numbers. -/
theorem reads_core : Reads T (core.eval setting next) coreValue Reader.core :=
  (reads_dotted.collect_cons (reads_dotted.collect_cons (reads_component.collect_cons
    reads_collect_nil))).sequence fun _ => rfl

/-- A digit passes the test of that name. -/
theorem holds_isDigit (c : Char) :
    (Predicate.ofChar "is_digit" Decimal.isDigit).holds (.ofChar c) = .ok (Decimal.isDigit c) := rfl

/-- The step for an identifier reads its characters. -/
theorem reads_identifier : Reads T (identifier.eval setting next) Value.text Reader.identifier :=
  reads_notEmpty_itemWhile fun _ => rfl

/-- The step for digits without a leading zero reads them. -/
theorem reads_numeric : Reads T (numeric.eval setting next) Value.text Reader.numeric :=
  Reads.filter (reads_notEmpty_itemWhile holds_isDigit) (fun _ => rfl) fun _ => rfl

/-- The step for an identifier with digits in front reads both. -/
theorem reads_alphanumeric :
    Reads T (alphanumeric.eval setting next) Value.text Reader.alphanumeric := by
  have hparts : Reads T
      (Parser.eval setting next
        (.andThen (.optional (.itemWhile (.ofChar "is_digit" Decimal.isDigit))) identifier))
      (fun x => .text x.2.1) ((run Decimal.isDigit).optional.and (Reader.identifier.and done)) :=
    ((reads_itemWhile holds_isDigit).optional.collect_cons (reads_identifier.collect_cons
      reads_collect_nil)).sequence fun _ => rfl
  exact .of_comp _ hparts.measure_stretch

/-- The step for an identifier of a pre-release reads it. -/
theorem reads_preReleaseIdentifier :
    Reads T (preReleaseIdentifier.eval setting next) Value.text Reader.preReleaseIdentifier :=
  (ReadsEach.cons reads_alphanumeric.attempt (.cons reads_numeric .nil)).choice

/-- The step for a part reads its mark and what the step for one word reads. -/
theorem reads_part {p : Parser Unit} {one : TextReader (List Char)}
    (h : Reads T (p.eval setting next) Value.text one) (mark : Char) :
    Reads T ((part mark p).eval setting next) Value.text (Reader.part mark one) := by
  have hidentifiers : Reads T
      (Parser.eval setting next (.repeated p .discard (some ⟨.char '.', false⟩) 1)) Value.text
      (Reader.identifiers one) := .of_comp _ (h.many_discard_atLeast (.step (reads_char '.')) 1)
  have hmarked : Reads T
      (Parser.eval setting next
        (.andThen (.char mark) (.repeated p .discard (some ⟨.char '.', false⟩) 1)))
      (fun x => .text x.2.1) ((char (· == mark)).and ((Reader.identifiers one).and done)) :=
    ((reads_char mark).collect_cons (hidentifiers.collect_cons reads_collect_nil)).sequence fun _ =>
      rfl
  exact (hmarked.of_comp _).attempt

/-- A part that is left out is an empty text. -/
theorem partText_elim (o : Option (List Char)) :
    partText (o.elim .null .text) = some (o.getD []) := by
  cases o <;> rfl

/-- The steps of the whole parser read a version. -/
theorem reads_version : Reads T (parser.eval setting next) Value.version Reader.version := by
  have hparts : Reads T
      (Parser.eval setting next (.lift assemble
        [core, .optional (part '-' preReleaseIdentifier), .optional (part '+' identifier)]))
      (fun x => .version (Reader.versionOf x))
      (Reader.core.and ((Reader.part '-' Reader.preReleaseIdentifier).optional.and
        ((Reader.part '+' Reader.identifier).optional.and done))) := by
    refine (reads_core.collect_cons
      ((reads_part reads_preReleaseIdentifier '-').optional.collect_cons
        ((reads_part reads_identifier '+').optional.collect_cons reads_collect_nil))).sequence ?_
    rintro ⟨⟨a, b, c, _⟩, p, m, _⟩
    have hassemble : assemble [coreValue (a, b, c, ()), p.elim .null .text, m.elim .null .text] =
        .ok (.version (Reader.versionOf ((a, b, c, ()), p, m, ()))) := by
      simp only [assemble, coreValue, componentNumber, partText_elim]
      rfl
    exact congrArg Action.ofExcept hassemble
  have hversion : Reads T (parser.eval setting next) (fun x => .version x.1)
      (((Reader.core.and ((Reader.part '-' Reader.preReleaseIdentifier).optional.and
        ((Reader.part '+' Reader.identifier).optional.and done))).map Reader.versionOf).and
          (atEnd.and done)) :=
    ((hparts.of_comp _).collect_cons (reads_empty.collect_cons reads_collect_nil)).sequence fun _ =>
      rfl
  exact hversion.of_comp _

/-! ### What is parsed -/

/-- A parser whose step does what a reader says, whatever parsers one level deeper do, does so when
    it is run. -/
theorem run_eq {p : Parser Unit} {α : Type} {enc : α → Value} {r : TextReader α}
    (h : ∀ next, Reads T (p.eval setting next) enc r) {cs : List Char} (hcs : cs <:+ T.text) :
    p.run setting (T.context cs) = ((r cs).map enc).toAction T := by
  unfold Parser.run
  cases ((T.context cs).maxDepth - (T.context cs).depth).toNat with
  | zero => exact (h _).run cs hcs
  | succ levels => exact (h _).run cs hcs

/-- **The parser is the reader.** If the example grammars are on, the parser gives the version that
    the reader reads, or none. -/
theorem parse_eq (config : Config) (text : List Char) :
    parse config text = (config.require .exampleGrammars).map fun _ => Reader.version? text := by
  cases hgrammars : config.exampleGrammars with
  | false =>
    have hrequire : config.require .exampleGrammars =
        .error (.capabilityDisabled Capability.exampleGrammars.label) := by
      simp [Config.require, Config.enabled, hgrammars]
    rw [parse, parser?, hrequire]
    rfl
  | true =>
    obtain ⟨limit, hlimit⟩ : ∃ limit : Limit, Depth.limit = .ok limit := ⟨_, rfl⟩
    let T : TextRun := ⟨text, 0, limit⟩
    have hrequire : config.require .exampleGrammars = .ok () := by
      simp [Config.require, Config.enabled, hgrammars]
    have hbuilt : (parser? config : Except Fault (Parser Unit)) = .ok parser := by
      rw [parser?, hrequire]
      rfl
    have hrun : ∀ setting, (parser : Parser Unit).run setting (T.context text) =
        ((Reader.version text).map Value.version).toAction T :=
          fun _ => run_eq (fun _ => reads_version) List.suffix_rfl
    have hparse : ∀ setting,
        (parser : Parser Unit).parse setting (.sequence (.text text.toArray)) Depth.limit =
          ((Reader.version text).map Value.version).toAction T := by
      intro setting
      rw [hlimit, Parser.parse, ofExcept_ok, pure_bind, ← TextRun.context_text, hrun]
    simp only [parse, hbuilt, ok_bind, hparse, hrequire, Reader.version?]
    cases hread : Reader.version text with
    | read v rest => rfl
    | stuck rest => rfl
    | fault f =>
      -- this is the only way in which a parse could raise anything
      exact absurd hread (Reader.isSafe_version text f)

end Itemwise.SemVer
