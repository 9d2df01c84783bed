import Itemwise.Function.StateFn
import Itemwise.Proofs.LineItem.Reader
import Itemwise.Proofs.Run.Parts
import Itemwise.Proofs.Store.Lists

namespace Itemwise

/-!
# The item that a line stands for

A line stands for one item, which the first of six rules gives that fits the line.  The item is put
behind all others in the list of the user state, unless it is one to ignore, and then the user state
is left as it is.

* `LineItem.LineRule`, `LineItem.rules` — what a rule says of a line, and the six rules in order;
* `LineItem.FirstFits` — the item that the first rule gives that fits;
* `LineItem.Follows`, `LineItem.follows_item` — a reader follows a rule if it reads what the rule
  gives and gives up where the rule does not fit; the readers of the alternatives do so one by one,
  and that of the grammar by induction on them;
* `Session.withList`, `LineItem.storeLine_eq` — another list in place of the one that is the user
  state;
* `LineItem.parse_line` — what is parsed of a line, and what becomes of the user state.
-/

namespace LineItem

/-! ### Rules -/

/-- The items that a line may stand for, by one rule. -/
abbrev LineRule := List Char → LineItem → Prop

/-- An entry: a mark, a name without `=`, and after the first `=` a command that is not empty. -/
inductive IsEntry (kind : LineKind) (mark : List Char) : LineRule
  | intro {name command : List Char} (hname : '=' ∉ name) (hcommand : command ≠ []) :
      IsEntry kind mark (mark ++ (name ++ '=' :: command)) ⟨kind, name, command⟩

/-- A mark, whatever comes after it. -/
inductive IsMarked (kind : LineKind) (mark : List Char) : LineRule
  | intro (rest : List Char) : IsMarked kind mark (mark ++ rest) { kind }

/-- A comment or an empty line. -/
inductive IsIgnored : LineRule
  | comment (rest : List Char) : IsIgnored ('#' :: rest) { kind := .ignore }
  | empty : IsIgnored [] { kind := .ignore }

/-- Any line, which is then the command. -/
inductive IsMalformed : LineRule
  | intro (line : List Char) : IsMalformed line { kind := .malformed, command := line }

/-- The rules in order. -/
def rules : List LineRule :=
  [IsEntry .action "Com:".toList, IsEntry .info "Info:".toList,
    IsMarked .separator "Separator".toList,
    IsMarked .space "Space".toList, IsIgnored, IsMalformed]

/-- The item that the first rule gives that fits a line. -/
inductive FirstFits : List LineRule → LineRule
  | here {rule : LineRule} {rules : List LineRule} {line : List Char} {l : LineItem}
      (h : rule line l) :
      FirstFits (rule :: rules) line l
  | later {rule : LineRule} {rules : List LineRule} {line : List Char} {l : LineItem}
      (hnot : ∀ l, ¬ rule line l) (h : FirstFits rules line l) : FirstFits (rule :: rules) line l

/-! ### Readers that follow rules -/

open TextReader

/-- A reader reads what a rule gives, and gives up where it starts if the rule does not fit. -/
structure Follows (r : TextReader LineItem) (rule : LineRule) : Prop where
  read : ∀ {line l}, rule line l → ∃ rest, r line = .read l rest
  stuck : ∀ {line}, (∀ l, ¬ rule line l) → r line = .stuck line

/-- A rule that a reader follows gives one item at most. -/
theorem Follows.unique {r : TextReader LineItem} {rule : LineRule} (h : Follows r rule)
    {line : List Char} {l l' : LineItem} (hl : rule line l) (hl' : rule line l') : l' = l := by
  obtain ⟨rest, hread⟩ := h.read hl
  obtain ⟨rest', hread'⟩ := h.read hl'
  rw [hread] at hread'
  cases hread'
  rfl

/-- Alternatives that follow their rules follow the first one that fits. -/
theorem follows_first {rs : List (TextReader LineItem)} {rules : List LineRule}
    (h : List.Forall₂ Follows rs rules) :
    Follows (first rs) (FirstFits rules) := by
  induction h with
  | nil => exact ⟨nofun, fun _ => rfl⟩
  | @cons r rule rs rules hr _ ih =>
    constructor
    · intro line l hfits
      cases hfits with
      | here h =>
        obtain ⟨rest, hread⟩ := hr.read h
        refine ⟨rest, ?_⟩
        rw [first_of_ne_stuck (by rw [hread]; nofun), hread]
      | later hnot h =>
        rw [first_of_stuck (hr.stuck hnot)]
        exact ih.read h
    · intro line hnone
      have hnot : ∀ l, ¬ rule line l := fun l h => hnone l (.here h)
      rw [first_of_stuck (hr.stuck hnot)]
      exact ih.stuck fun l h => hnone l (.later hnot h)

/-- A word is read from a text that begins with it. -/
theorem word_append (w post : List Char) : word w (w ++ post) = .read w post := by
  rw [word, if_pos (List.prefix_append _ _), List.drop_left]

/-- An entry is read as a whole, or not at all: what is missing may be its mark, the `=` or its
    command. -/
theorem follows_entry (kind : LineKind) (mark : List Char) :
    Follows (Reader.entry kind mark) (IsEntry kind mark) where
  read := by
    rintro _ _ ⟨hname, hcommand⟩
    refine ⟨[], attempt_of_read (map_of_read (a := (mark, _, ())) ?_ _)⟩
    rw [and_of_read (word_append _ _), TextReader.and, TextReader.map,
      and_of_read (upTo_append hname _), TextReader.and, something_of_ne_nil hcommand]
    rfl
  stuck := by
    intro line hnot
    suffices h : ∃ rest, ((word mark).and ((((upTo '=').and (something.and done)).map
        fun x => (⟨kind, x.1, x.2.1⟩ : LineItem)).and done)) line = .stuck rest by
      obtain ⟨rest, hrest⟩ := h
      exact attempt_of_stuck (by rw [TextReader.map, hrest, TextOutcome.map_stuck])
    by_cases hmark : mark <+: line
    · obtain ⟨body, rfl⟩ := hmark
      rw [and_of_read (word_append _ _), TextReader.and, TextReader.map]
      by_cases hmem : '=' ∈ body
      · obtain ⟨name, command, rfl, hname⟩ := List.eq_append_cons_of_mem hmem
        obtain rfl : command = [] := Decidable.byContradiction fun hcommand =>
          hnot _ ⟨hname, hcommand⟩
        rw [and_of_read (upTo_append hname _), and_of_stuck something_nil]
        exact ⟨_, rfl⟩
      · rw [and_of_stuck (upTo_of_not_mem hmem)]
        exact ⟨_, rfl⟩
    · exact ⟨line, and_of_stuck (if_neg hmark) _⟩

/-- The reader of a mark follows the rule for it. -/
theorem follows_marker (kind : LineKind) (mark : List Char) :
    Follows (Reader.marker kind mark) (IsMarked kind mark) where
  read := by
    rintro _ _ ⟨rest⟩
    exact ⟨rest, map_of_read (word_append _ _) _⟩
  stuck := by
    intro line hnot
    have hmark : ¬ mark <+: line := by
      rintro ⟨rest, rfl⟩
      exact hnot _ ⟨rest⟩
    rw [Reader.marker, TextReader.map, word, if_neg hmark, TextOutcome.map_stuck]

/-- The reader of lines without meaning follows the rule for them. -/
theorem follows_ignored : Follows Reader.ignored IsIgnored where
  read := by
    rintro _ _ (rest | _)
    · exact ⟨rest, by simp [Reader.ignored, first, word, TextReader.map]⟩
    · exact ⟨[], rfl⟩
  stuck := by
    intro line hnot
    cases line with
    | nil => exact absurd .empty (hnot _)
    | cons c cs =>
      have hc : '#' ≠ c := by
        rintro rfl
        exact hnot _ (.comment cs)
      simp [Reader.ignored, first, word, atEnd, TextReader.map, hc]

/-- The reader of all other lines follows the rule for them. -/
theorem follows_malformed : Follows Reader.malformed IsMalformed where
  read := by
    rintro _ _ ⟨line⟩
    exact ⟨[], rfl⟩
  stuck := fun hnot => absurd ⟨_⟩ (hnot _)

/-- The grammar follows the first rule that fits. -/
theorem follows_item : Follows Reader.item (FirstFits rules) :=
  follows_first (.cons (follows_entry _ _) (.cons (follows_entry _ _) (.cons (follows_marker _ _)
    (.cons (follows_marker _ _) (.cons follows_ignored (.cons follows_malformed .nil))))))

/-- If a line fits any rule, there is a first one. -/
theorem exists_firstFits {rules : List LineRule} {line : List Char}
    (h : ∃ rule ∈ rules, ∃ l, rule line l) :
    ∃ l, FirstFits rules line l := by
  induction rules with
  | nil => simp at h
  | cons rule rules ih =>
    by_cases hhere : ∃ l, rule line l
    · obtain ⟨l, hl⟩ := hhere
      exact ⟨l, .here hl⟩
    · obtain ⟨other, hmem, hfits⟩ := h
      have hlater : other ∈ rules := by
        rcases List.mem_cons.mp hmem with rfl | hmem
        · exact absurd hfits hhere
        · exact hmem
      obtain ⟨l, hl⟩ := ih ⟨other, hlater, hfits⟩
      exact ⟨l, .later (fun l hl => hhere ⟨l, hl⟩) hl⟩

/-- Every line fits a rule, the last one if no other. -/
theorem exists_item (line : List Char) : ∃ l, FirstFits rules line l :=
  exists_firstFits ⟨IsMalformed, by simp [rules], _, .intro line⟩

end LineItem

/-! ### The list that is the user state -/

/-- The session with another list at a place of its store. -/
def Session.withList (session : Session) (p : Nat) (xs : Array Value) : Session :=
  { session with store :=
    { session.store with containers := session.store.containers.setIfInBounds p (.list xs) } }

namespace LineItem

section Parse

variable {session : Session} {p : Nat} {xs : Array Value}
variable (hstate : session.state = .shared p)
  (hlist : session.store.containers[p]? = some (.list xs))
include hstate hlist

/-- An item is stored behind all others, and nothing else changes. -/
theorem storeLine_eq (l : LineItem) :
    storeLine l session = .ok () (session.withList p (xs.push (.line l))) := by
  obtain ⟨state, store⟩ := session
  obtain rfl : state = .shared p := hstate
  simp only [storeLine, Session.onState, Store.append_list hlist]
  rfl

/-- An item is collected unless it is one to ignore. -/
theorem collect_eq (l : LineItem) :
    collect storeLine (.line l) session =
      .ok .null (if l.kind = .ignore then session else session.withList p (xs.push (.line l))) := by
  by_cases hkind : l.kind = .ignore
  · rw [if_pos hkind]
    simp [collect, hkind]
    rfl
  · rw [if_neg hkind]
    simp only [collect, ne_eq, hkind, not_false_eq_true, if_true]
    rw [Action.bind_of_ok (storeLine_eq hstate hlist l)]
    rfl

/-- **A line is classified once, by the first rule that fits.** Parsing it succeeds, and puts the
    one item that the rule gives behind all others in the list that is the user state, which is left
    as it is if the item is one to ignore.  Nothing else in the session changes. -/
theorem parse_line (setting : Setting Session) (line : List Char) :
    ∃ l, FirstFits rules line l ∧ (∀ l', FirstFits rules line l' → l' = l) ∧
      ∃ q, (parser storeLine).parse setting (.sequence (.text line.toArray)) Depth.limit session =
        .ok (.success .null q) (if l.kind = .ignore then session
          else session.withList p (xs.push (.line l))) := by
  obtain ⟨l, hfits⟩ := exists_item line
  refine ⟨l, hfits, fun l' hfits' => follows_item.unique hfits hfits', ?_⟩
  obtain ⟨rest, hread⟩ := follows_item.read hfits
  obtain ⟨limit, hlimit⟩ : ∃ limit : Limit, Depth.limit = .ok limit := ⟨_, rfl⟩
  let T : TextRun := ⟨line, 0, limit⟩
  have hitem : (item.eval setting (Parser.run setting)) (T.context line) session =
      .ok (.success (.line l) (T.pos rest)) session := by
    rw [reads_item.run line List.suffix_rfl, hread]
    rfl
  refine ⟨T.pos rest, ?_⟩
  rw [Parser.parse, hlimit, Step.ofExcept_ok, pure_bind, ← TextRun.context_text, Parser.run_eq]
  show (item.eval setting (Parser.run setting) (T.context line) >>= _) session = _
  rw [Action.bind_of_ok hitem]
  show (collect storeLine (.line l) >>= _) session = _
  rw [Action.bind_of_ok (collect_eq hstate hlist l)]
  rfl

end Parse

/-- A second `=` belongs to the command; and what begins like an entry but has no command is put
    behind the item before it as the line that it is. -/
theorem parse_line_entries :
    let setting : Setting Session :=
      ⟨{}, { rule := fun _ _ => throw .missingKey, forward := fun _ => none }⟩
    let before : Value := .line { kind := .space }
    let session : Session := ⟨.shared 0, { containers := #[.list #[before]] }⟩
    (∃ q, (parser storeLine).parse setting (.sequence (.text "Com:a=b=c".toList.toArray))
        Depth.limit session = .ok (.success .null q)
          (session.withList 0 #[before, .line ⟨.action, ['a'], ['b', '=', 'c']⟩])) ∧
      ∃ q, (parser storeLine).parse setting (.sequence (.text "Com:a=".toList.toArray))
        Depth.limit session = .ok (.success .null q)
          (session.withList 0 #[before, .line ⟨.malformed, [], "Com:a=".toList⟩]) := by
  intro setting before session
  have hstate : session.state = .shared 0 := rfl
  have hlist : session.store.containers[0]? = some (.list #[before]) := rfl
  constructor
  · obtain ⟨l, hfits, -, q, hrun⟩ := parse_line hstate hlist setting "Com:a=b=c".toList
    obtain ⟨rest, hread⟩ := follows_item.read hfits
    have hitem : Reader.item "Com:a=b=c".toList = .read ⟨.action, ['a'], ['b', '=', 'c']⟩ [] := by
      rfl
    rw [hitem] at hread
    cases hread
    exact ⟨q, hrun⟩
  · obtain ⟨l, hfits, -, q, hrun⟩ := parse_line hstate hlist setting "Com:a=".toList
    obtain ⟨rest, hread⟩ := follows_item.read hfits
    have hitem : Reader.item "Com:a=".toList = .read ⟨.malformed, [], "Com:a=".toList⟩ [] := by rfl
    rw [hitem] at hread
    cases hread
    exact ⟨q, hrun⟩

end LineItem

end Itemwise
