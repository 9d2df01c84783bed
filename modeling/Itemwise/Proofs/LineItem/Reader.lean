import Itemwise.LineItem.Parser
import Itemwise.Parser.Run
import Itemwise.Proofs.Scan.Needle
import Itemwise.Proofs.TextReader.Steps

namespace Itemwise

/-!
# The grammar of configuration lines as a reader

What the parsers of the grammar do on a text, as readers.

* `TextReader.upTo`, `TextReader.everything` — what is before a character, and all that is left;
* `Step.reads_upTo`, `reads_rest`, `Reads.notEmpty`, `LineItem.reads_skip` — the steps that do what
  these say;
* `LineItem.Reader.entry`, `marker`, `ignored`, `malformed`, `item` — the readers of the grammar,
  and `LineItem.reads_item` for the whole of it.

The item is read without a look at the user state, which only `LineItem.collect` changes.
-/

/-! ### Stretches of a text -/

namespace TextReader

/-- Everything before a character, which is taken as well. -/
def upTo (c : Char) : TextReader (List Char) := fun cs =>
  if c ∈ cs then .read (cs.takeWhile (· != c)) (cs.dropWhile (· != c)).tail else .stuck cs

/-- All that is left. -/
def everything : TextReader (List Char) := fun cs => .read cs []

/-- All that is left, which must be something. -/
def something : TextReader (List Char) := everything.mapIf (Option.guard fun w => !w.isEmpty)

variable {c : Char} {w post : List Char}

/-- What is before the first of the characters does not depend on further ones. -/
theorem upTo_append (hw : c ∉ w) (post : List Char) : upTo c (w ++ c :: post) = .read w post := by
  have hbefore : ∀ d ∈ w, (d != c) = true := by
    intro d hd
    rw [bne_iff_ne]
    rintro rfl
    exact hw hd
  have hstop : ∀ d ∈ (c :: post).head?, (d != c) = false := by simp
  obtain ⟨htake, hdrop⟩ := takeWhile_append_of_stop hbefore hstop
  rw [upTo, if_pos (by simp), htake, hdrop, List.tail_cons]

/-- Without the character, nothing is read up to it. -/
theorem upTo_of_not_mem (hw : c ∉ w) : upTo c w = .stuck w := if_neg hw

/-- Something is all that is there. -/
theorem something_of_ne_nil (hw : w ≠ []) : something w = .read w [] := by
  simp [something, everything, mapIf, Option.guard, hw]

/-- Where nothing is left, there is not something. -/
theorem something_nil : something [] = .stuck [] := rfl

/-- Reading up to a character goes forward. -/
theorem isForward_upTo (c : Char) : (upTo c).IsForward := by
  intro cs
  unfold upTo
  split
  · exact (List.tail_suffix _).trans (List.dropWhile_suffix _)
  · exact List.suffix_rfl

/-- Reading everything goes forward. -/
theorem isForward_everything : everything.IsForward := fun _ => List.nil_suffix

/-- A word of one character is that character. -/
theorem word_singleton (c : Char) : word [c] = (char (· == c)).map fun d => [d] := by
  funext cs
  cases cs with
  | nil => rfl
  | cons d cs =>
    by_cases h : d = c
    · simp [word, char, map, h]
    · simp [word, char, map, h, Ne.symm h]

end TextReader

namespace Step

variable {σ : Type} [Memory σ] {T : TextRun}

/-! The first of some characters, by what is before it. -/

section First

variable {c : Char} {w post : List Char}

/-- A character of a text stands where its code does. -/
theorem occurs_char_iff {cs : List Char} (hcs : cs <:+ T.text) (c : Char) (k : Nat) :
    Codes.Occurs [c.toNat] (T.text.toArray.toList.map Char.toNat) (T.pos cs + k) ↔
      cs[k]? = some c := by
  have hdrop : T.text.drop (T.pos cs + k) = cs.drop k := by
    rw [← List.drop_drop, TextRun.drop_pos hcs]
  rw [Codes.Occurs, ← List.map_drop, hdrop, List.prefix_iff_getElem?]
  simp [List.getElem?_map, Char.toNat_inj]

/-- The first place of a character is behind what does not have it. -/
theorem isFirst_char (hcs : w ++ c :: post <:+ T.text) (hw : c ∉ w) :
    Codes.IsFirst [c.toNat] (T.text.toArray.toList.map Char.toNat) (T.pos (w ++ c :: post))
      (T.pos (w ++ c :: post) + w.length) where
  start_le := Nat.le_add_right _ _
  occurs := (occurs_char_iff hcs c _).mpr (by simp)
  before := by
    intro j hj hlt hoccurs
    obtain ⟨k, rfl⟩ := Nat.exists_eq_add_of_le hj
    rw [occurs_char_iff hcs, List.getElem?_append_left (by omega)] at hoccurs
    exact hw (List.mem_of_getElem? hoccurs)

/-- Behind the character comes what is left. -/
theorem pos_append_cons (hcs : w ++ c :: post <:+ T.text) :
    T.pos (w ++ c :: post) + w.length + 1 = T.pos post := by
  have hle := hcs.length_le
  simp only [List.length_append, List.length_cons] at hle
  simp only [TextRun.pos, List.length_append, List.length_cons]
  omega

/-- What stands before the character is what is consumed. -/
theorem slice_append_cons (hcs : w ++ c :: post <:+ T.text) :
    (Items.text T.text.toArray).slice (T.pos (w ++ c :: post))
    (T.pos (w ++ c :: post) + w.length) = .text w := by
  have hstretch := TextRun.context_sliceTo_add hcs w.length
  rw [List.take_left' rfl] at hstretch
  exact Except.ok.inj hstretch

end First

/-- What is before the first of some characters, and that character. -/
theorem reads_upTo (c : Char) :
    Reads (σ := σ) T (Step.seeing (Leaf.upTo (.ofChar c))) Value.text (TextReader.upTo c) where
  forward := TextReader.isForward_upTo c
  run := by
    intro cs hcs
    have hlocate (s : σ) :=
      Leaf.locate_codes (Memory.whole_of_isPlain s) (T.pos cs) (.text (List.cons_ne_nil c []))
        (Value.HasCodes.text [c]) (List.cons_ne_nil _ _)
        (Items.HasCodes.text T.text.toArray) nofun nofun
    by_cases hmem : c ∈ cs
    · obtain ⟨w, post, rfl, hw⟩ := List.eq_append_cons_of_mem hmem
      have hlook (s : σ) : Leaf.upTo (.ofChar c) (Memory.whole s) (T.context (w ++ c :: post)) =
          .ok (.success (.text w) (T.pos post)) := by
        obtain ⟨found, hfound, hfinds⟩ := hlocate s
        rw [(hfinds.some_iff _).mpr (isFirst_char hcs hw)] at hfound
        have hsize := T.pos_le post
        rw [← T.size_text, ← pos_append_cons hcs] at hsize
        rw [← slice_append_cons hcs, ← pos_append_cons hcs]
        exact Leaf.upTo_of_some rfl hfound hsize
      rw [seeing_of_eq hlook, TextReader.upTo_append hw]
      rfl
    · have hlook (s : σ) :
        Leaf.upTo (.ofChar c) (Memory.whole s) (T.context cs) = .ok (.failure (T.pos cs)) := by
        obtain ⟨found, hfound, hfinds⟩ := hlocate s
        have hnone : found = none := by
          refine hfinds.none_iff.mpr fun j hj hoccurs => ?_
          obtain ⟨k, rfl⟩ := Nat.exists_eq_add_of_le hj
          exact hmem (List.mem_of_getElem? ((occurs_char_iff hcs c k).mp hoccurs))
        rw [hnone] at hfound
        exact Leaf.upTo_of_none rfl hfound
      rw [seeing_of_eq hlook, TextReader.upTo_of_not_mem hmem]
      rfl

omit [Memory σ] in
/-- All that is left is read as it is. -/
theorem reads_rest : Reads (σ := σ) T (Step.leaf Leaf.rest) Value.text TextReader.everything where
  forward := TextReader.isForward_everything
  run := by
    intro cs hcs
    have hend : T.pos [] = T.text.length := Nat.sub_zero _
    have hslice : (T.context cs).sliceTo T.text.length = .ok (.text cs) := by
      have hstretch := TextRun.context_sliceTo hcs List.nil_suffix
      rwa [hend, List.length_nil, Nat.sub_zero, List.take_length] at hstretch
    have haccept := Leaf.accept_of_le (c := T.context cs) (.text cs)
      (Nat.le_of_eq (TextRun.context_size T cs).symm)
    rw [Step.leaf, Leaf.rest, TextRun.context_size, hslice, ok_bind, haccept, ← hend]
    rfl

/-- A text that must not be empty. -/
theorem Reads.notEmpty {p : Step σ} {r : TextReader (List Char)} (h : Reads T p Value.text r) :
    Reads T (Step.notEmpty p) Value.text (r.mapIf (Option.guard fun w => !w.isEmpty)) where
  forward := h.forward.mapIf _
  run := by
    intro cs hcs
    have hlook (w : List Char) : (Action.lookAt (.text w) : Action σ Value) = pure (.text w) :=
      lookAt_of_isPlain rfl
    have hlength (w : List Char) : (Value.text w).length = .ok w.length := rfl
    rw [Step.notEmpty, h.run cs hcs, TextReader.mapIf]
    cases r cs with
    | read w rest =>
      simp only [TextOutcome.map_read, TextOutcome.bind_read, TextOutcome.toAction, pure_bind,
        hlook, hlength, ofExcept_ok]
      cases w with
      | nil => rfl
      | cons c w => rfl
    | stuck rest => simp [TextOutcome.toAction]
    | fault f => simp [TextOutcome.toAction]

end Step

namespace LineItem

open TextReader Step

/-! ### The readers of the grammar -/

namespace Reader

/-- An entry: a mark, what is before the first `=`, and what is after it. -/
def entry (kind : LineKind) (mark : List Char) : TextReader LineItem :=
  (((word mark).and ((((upTo '=').and (something.and done)).map fun x => ⟨kind, x.1, x.2.1⟩).and
    done)).map (·.2.1)).attempt

/-- A mark that stands for an item by itself. -/
def marker (kind : LineKind) (mark : List Char) : TextReader LineItem :=
  (word mark).map fun _ => { kind }

/-- A comment, or nothing at all. -/
def ignored : TextReader LineItem :=
  (first [(word ['#']).map fun _ => .null, atEnd.map fun _ => Value.text []]).map fun _ =>
    { kind := .ignore }

/-- Any line. -/
def malformed : TextReader LineItem := everything.map fun w => { kind := .malformed, command := w }

/-- The item of one line. -/
def item : TextReader LineItem :=
  first [entry .action "Com:".toList, entry .info "Info:".toList,
    marker .separator "Separator".toList,
    marker .space "Space".toList, ignored, malformed]

end Reader

/-! ### What the parsers do -/

variable {σ : Type} [Memory σ] {T : TextRun} {setting : Setting σ} {next : Parser σ → Step σ}

/-- What is skipped is a word, also if it is a single character. -/
theorem reads_skip (w : List Char) :
    Reads T ((Parser.skip (.text w)).eval setting next) (fun _ => .null) (word w) := by
  show Reads T (Step.map _ ((Parser.take (.text w)).eval setting next)) _ _
  by_cases hw : w.length = 1
  · obtain ⟨c, rfl⟩ := List.length_eq_one_iff.mp hw
    have hitem : Reads (σ := σ) T (Step.seeing (Leaf.item (.ofChar c))) Value.ofChar
        (char (· == c)) := reads_item c
    rw [word_singleton]
    exact .of_comp _ (hitem.map fun _ => rfl)
  · rw [Parser.take, if_neg hw]
    exact (reads_literal w).map fun _ => rfl

/-- The grammar of lines with a mark and a name is the reader of them. -/
theorem reads_entry (kind : LineKind) (mark : String) :
    Reads T ((entry kind mark).eval setting next) Value.line (Reader.entry kind mark.toList) := by
  have hcommand : Reads T (Parser.eval setting next (.notEmpty .rest)) Value.text something :=
    reads_rest.notEmpty
  have hbody : Reads T
      (Parser.eval setting next (.lift (entryItem kind) [.upTo (.ofChar '='), .notEmpty .rest]))
      (fun x => .line ⟨kind, x.1, x.2.1⟩) ((upTo '=').and (something.and done)) :=
    ((reads_upTo '=').collect_cons (hcommand.collect_cons reads_collect_nil)).sequence fun _ => rfl
  have hentry : Reads T (Parser.eval setting next (.andThen (.skip (.ofString mark))
        (.lift (entryItem kind) [.upTo (.ofChar '='), .notEmpty .rest])))
      (fun x => .line x.2.1) ((word mark.toList).and
        ((((upTo '=').and (something.and done)).map fun x => (⟨kind, x.1, x.2.1⟩ : LineItem)).and
          done)) :=
    ((reads_skip _).collect_cons ((hbody.of_comp _).collect_cons reads_collect_nil)).sequence
      fun _ => rfl
  exact (hentry.of_comp _).attempt

/-- The grammar of lines that are just a mark is the reader of them. -/
theorem reads_marker (kind : LineKind) (mark : String) :
    Reads T ((marker (.skip (.ofString mark)) kind).eval setting next) Value.line
      (Reader.marker kind mark.toList) :=
  .of_comp _ ((reads_skip _).map fun _ => rfl)

/-- The grammar of lines without meaning is the reader of them. -/
theorem reads_ignored :
    Reads T ((marker (.anyOfDropped [.skip (.ofChar '#'), .empty] ["skip('#')", "empty"])
      .ignore).eval setting next) Value.line Reader.ignored := by
  have hcomment : Reads T ((Parser.skip (.ofChar '#')).eval setting next) id
      ((word ['#']).map fun _ => .null) :=
    .of_comp _ (reads_skip ['#'])
  have hempty : Reads (σ := σ) T (Step.leaf Leaf.empty) id (atEnd.map fun _ => Value.text []) :=
    .of_comp _ reads_empty
  have hdropped : Reads T
      ((Parser.anyOfDropped [.skip (.ofChar '#'), .empty] ["skip('#')", "empty"]).eval setting next)
      (fun _ => .null) (first [(word ['#']).map fun _ => .null,
        atEnd.map fun _ => Value.text []]) :=
    ((ReadsEach.cons hcomment (.cons hempty .nil)).choice).map fun _ => rfl
  exact .of_comp _ (hdropped.map fun _ => rfl)

/-- The grammar of all other lines is the reader of them. -/
theorem reads_malformed :
    Reads T (Parser.eval setting next (.convert .rest malformedItem)) Value.line Reader.malformed :=
  .of_comp _ (reads_rest.map fun _ => rfl)

/-- **The grammar is the reader**, whatever the user state is. -/
theorem reads_item : Reads T (item.eval setting next) Value.line Reader.item :=
  (ReadsEach.cons (reads_entry .action "Com:")
    (.cons (reads_entry .info "Info:")
      (.cons (reads_marker .separator "Separator")
        (.cons (reads_marker .space "Space")
          (.cons reads_ignored (.cons reads_malformed .nil)))))).choice

end LineItem

end Itemwise
