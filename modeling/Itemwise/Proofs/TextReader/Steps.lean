import Itemwise.Proofs.TextReader.Basic
import Itemwise.Leaf.Item
import Itemwise.Leaf.Number
import Itemwise.Leaf.Stretch
import Itemwise.Parser.Parse
import Itemwise.Step.Choice
import Itemwise.Step.Eat
import Itemwise.Step.Measure
import Itemwise.Step.Sequence
import Itemwise.Step.Transform

namespace Itemwise

/-!
# The steps of a parser on a text

On a text, a step does what a reader does with the rest of it.

* `TextRun` — a run on a text: the text, the nesting and its limit;
* `TextRun.context` — the context at which the rest of the text is still to be read;
* `Step.Reads` — a step does on a text what a reader says, and with it the reader only goes forward;
* `Step.reads_satisfy`, `reads_itemWhile`, `reads_literal`, `reads_integer`, `reads_eof`,
  `reads_empty` and what follows from them for the parsers of characters — the steps that look at
  the text themselves;
* `Step.Reads.map`, `mapIf`, `filter`, `convert`, `eat`, `optional`, `attempt`, `choice`, `times`,
  the measures and the sequences — steps made of steps do what the readers made of their readers
  say.

No step here changes the user state, whatever its type is.
-/

/-- A run on a text. -/
structure TextRun where
  text : List Char
  depth : Int
  limit : Limit

namespace TextRun

variable (T : TextRun)

/-- The position at which some rest of the text is left. -/
def pos (rest : List Char) : Nat := T.text.length - rest.length

/-- The context at which some rest of the text is left. -/
def context (rest : List Char) : Context :=
  ⟨.sequence (.text T.text.toArray), T.pos rest, T.depth, T.limit⟩

@[simp] theorem context_pos (rest : List Char) : (T.context rest).pos = T.pos rest := rfl

@[simp] theorem context_moveTo (rest rest' : List Char) :
    (T.context rest).moveTo (T.pos rest') = T.context rest' := rfl

@[simp] theorem context_items (rest : List Char) :
    (T.context rest).items = .sequence (.text T.text.toArray) := rfl

@[simp] theorem size_text : (Items.text T.text.toArray).size = T.text.length := by
  simp [Items.size]

@[simp] theorem context_size (rest : List Char) : (T.context rest).items.size = T.text.length := by
  simp

/-- A parse starts where all of the text is left. -/
theorem context_text (text : List Char) (limit : Limit) :
    (TextRun.mk text 0 limit).context text =
      Parser.start (.sequence (.text text.toArray)) limit := by
  show Context.mk _ (text.length - text.length) _ _ = _
  rw [Nat.sub_self]
  rfl

/-- A position is within the text. -/
theorem pos_le (rest : List Char) : T.pos rest ≤ T.text.length := Nat.sub_le _ _

variable {T}

/-- Two rests of a text are left at the same position only if they are the same. -/
theorem pos_inj {rest rest' : List Char} (h : rest <:+ T.text) (h' : rest' <:+ T.text) :
    T.pos rest = T.pos rest' ↔ rest = rest' := by
  refine ⟨fun heq => ?_, fun heq => by rw [heq]⟩
  have hle := h.length_le
  have hle' := h'.length_le
  unfold pos at heq
  rcases List.suffix_or_suffix_of_suffix h h' with hsuf | hsuf
  · exact hsuf.eq_of_length (by omega)
  · exact (hsuf.eq_of_length (by omega)).symm

/-- The next character takes one position. -/
theorem pos_cons {c : Char} {rest : List Char} (h : c :: rest <:+ T.text) :
    T.pos (c :: rest) + 1 = T.pos rest := by
  have hle := h.length_le
  simp only [List.length_cons] at hle
  simp only [pos, List.length_cons]
  omega

/-- Before a character the text is not at its end. -/
theorem not_length_le_pos {c : Char} {rest : List Char} (h : c :: rest <:+ T.text) :
    ¬ T.text.length ≤ T.pos (c :: rest) := by
  have hle := T.pos_le rest
  rw [← pos_cons h] at hle
  omega

/-- What is left is what follows the position. -/
theorem drop_pos {rest : List Char} (h : rest <:+ T.text) : T.text.drop (T.pos rest) = rest :=
  (List.suffix_iff_eq_drop.mp h).symm

/-- As many items remain as characters are left. -/
theorem remaining_context {rest : List Char} (h : rest <:+ T.text) :
    (T.context rest).remaining = rest.length := by
  have hle := h.length_le
  simp only [Context.remaining, context_size, context_pos, pos]
  omega

/-- The next item is the next character, if there is one. -/
theorem context_item? {rest : List Char} (h : rest <:+ T.text) :
    (T.context rest).item? = .ok (rest.head?.map Value.ofChar) := by
  have hhead : T.text[T.pos rest]? = rest.head? := by
    rw [← List.head?_drop, drop_pos h]
  simp [Context.item?, Items.get?, hhead]

/-- A stretch of a text is what it is of the rest that it begins. -/
theorem context_sliceTo_add {cs : List Char} (h : cs <:+ T.text) (n : Nat) :
    (T.context cs).sliceTo (T.pos cs + n) = .ok (.text (cs.take n)) := by
  simp only [Context.sliceTo, context_items, context_pos, Input.slice_sequence, Items.slice,
    List.extract_toArray, List.extract_eq_take_drop, drop_pos h, Nat.add_sub_cancel_left]

/-- The stretch between two rests of a text. -/
theorem context_sliceTo {cs rest : List Char} (h : cs <:+ T.text) (hrest : rest <:+ cs) :
    (T.context cs).sliceTo (T.pos rest) = .ok (.text (cs.take (cs.length - rest.length))) := by
  have hle := h.length_le
  have hle' := hrest.length_le
  have hpos : T.pos rest = T.pos cs + (cs.length - rest.length) := by
    unfold pos
    omega
  rw [hpos, context_sliceTo_add h]

/-- Leaving off some characters goes on by as many positions. -/
theorem pos_drop {cs : List Char} (h : cs <:+ T.text) {n : Nat} (hn : n ≤ cs.length) :
    T.pos (cs.drop n) = T.pos cs + n := by
  have hle := h.length_le
  simp only [pos, List.length_drop]
  omega

end TextRun

/-- A reader's outcome as that of a run on a text. -/
def TextOutcome.toAction {σ α : Type} (T : TextRun) : TextOutcome α → Action σ (Outcome α)
  | read a rest => pure (.success a (T.pos rest))
  | stuck rest => pure (.failure (T.pos rest))
  | fault f => throw f

namespace Step

variable {σ α β γ δ : Type} {T : TextRun}

/-- A step does on a text what a reader says, where `enc` gives the value of the step for that of
    the reader. -/
structure Reads (T : TextRun) (p : Context → Action σ (Outcome γ)) (enc : α → γ)
    (r : TextReader α) : Prop where
  run : ∀ cs, cs <:+ T.text → p (T.context cs) = ((r cs).map enc).toAction T
  forward : r.IsForward

@[simp] theorem throw_bind (f : Fault) (k : α → Action σ β) :
    (throw f >>= k : Action σ β) = throw f :=
  rfl

@[simp] theorem map_throw (f : Fault) (g : α → β) : (g <$> throw f : Action σ β) = throw f := rfl

@[simp] theorem liftM_ok (a : α) : (liftM (Except.ok a : Except Fault α) : Action σ α) = pure a :=
  rfl

@[simp] theorem ofExcept_ok (a : α) : (Action.ofExcept (.ok a) : Action σ α) = pure a := rfl

@[simp] theorem ofExcept_error (f : Fault) : (Action.ofExcept (.error f) : Action σ α) = throw f :=
  rfl

/-! ### Single parsers -/

/-- A step that sees the same in every state does not touch the state. -/
theorem seeing_of_eq [Memory σ] {l : (Value → Value) → Leaf} {c : Context}
    {o : Except Fault (Outcome Value)} (h : ∀ s : σ, l (Memory.whole s) c = o) :
    Step.seeing l c = (Action.ofExcept o : Action σ (Outcome Value)) := by
  funext s
  show Action.ofExcept (l (Memory.whole s) c) s = Action.ofExcept o s
  rw [h s]

/-- A character is seen as it is. -/
theorem whole_ofChar [Memory σ] (s : σ) (c : Char) :
    Memory.whole s (Value.ofChar c) = Value.ofChar c :=
  Memory.whole_of_isPlain s _ rfl

/-- An item of a text is accepted if the character is. -/
theorem reads_satisfy [Memory σ] {test : Value → Except Fault Bool} {p : Char → Bool}
    (htest : ∀ c, test (Value.ofChar c) = .ok (p c)) :
    Reads (σ := σ) T (Step.seeing (Leaf.satisfy test)) Value.ofChar (TextReader.char p) where
  forward := TextReader.isForward_char p
  run := by
    intro cs hcs
    cases cs with
    | nil =>
      refine seeing_of_eq (o := .ok (.failure (T.pos []))) fun s => ?_
      rw [Leaf.satisfy, TextRun.context_item? hcs]
      rfl
    | cons c cs =>
      have hpos := TextRun.pos_cons hcs
      have hlook : ∀ s : σ, Leaf.satisfy test (Memory.whole s) (T.context (c :: cs)) =
          if p c then .ok (.success (Value.ofChar c) (T.pos cs))
          else .ok (.failure (T.pos (c :: cs))) := by
        intro s
        rw [Leaf.satisfy, TextRun.context_item? hcs, ok_bind, List.head?_cons, Option.map_some]
        simp only [whole_ofChar, htest, ok_bind, TextRun.context_pos, hpos]
        split
        · exact Leaf.accept_of_le (c := T.context (c :: cs)) _ (by simpa using T.pos_le cs)
        · rfl
      rw [seeing_of_eq hlook]
      by_cases hc : p c
      · simp [TextReader.char, hc, TextOutcome.toAction]
      · simp [TextReader.char, hc, TextOutcome.toAction]

/-- A run of items of a text ends where the run of characters does. -/
theorem scanWhile_eq {test : Value → Except Fault Bool} {p : Char → Bool}
    (htest : ∀ c, test (Value.ofChar c) = .ok (p c)) {cs : List Char} (hcs : cs <:+ T.text) :
    Leaf.scanWhile (.sequence (.text T.text.toArray)) test cs.length (T.pos cs) =
      .ok (T.pos (cs.dropWhile p)) := by
  induction cs with
  | nil => rfl
  | cons c cs ih =>
    have hitem : (Input.sequence (.text T.text.toArray)).item? (T.pos (c :: cs)) =
        .ok (some (Value.ofChar c)) :=
      TextRun.context_item? hcs
    simp only [List.length_cons, Leaf.scanWhile, hitem, ok_bind, htest, TextRun.pos_cons hcs]
    by_cases hc : p c
    · simpa [hc] using ih ((List.suffix_cons c cs).trans hcs)
    · simp [hc, pure, Except.pure]

/-- A step for characters that pass a test reads a run of them. -/
theorem reads_itemWhile [Memory σ] {test : Value → Except Fault Bool} {p : Char → Bool}
    (htest : ∀ c, test (Value.ofChar c) = .ok (p c)) :
    Reads (σ := σ) T (Step.seeing (Leaf.itemWhile test)) Value.text (TextReader.run p) where
  forward := TextReader.isForward_run p
  run := by
    intro cs hcs
    have hsuf := List.dropWhile_suffix (l := cs) p
    -- the stretch up to where the run ends is the run
    have hstretch : cs.take (cs.length - (cs.dropWhile p).length) = cs.takeWhile p := by
      have hsum := congrArg List.length (List.takeWhile_append_dropWhile (p := p) (l := cs))
      rw [List.length_append] at hsum
      conv => lhs; arg 2; rw [← List.takeWhile_append_dropWhile (p := p) (l := cs)]
      rw [List.take_left' (by omega)]
    refine seeing_of_eq (o := .ok (.success (.text (cs.takeWhile p)) (T.pos (cs.dropWhile p))))
      fun s => ?_
    have hlook : ∀ c, test (Memory.whole s (Value.ofChar c)) = .ok (p c) := by
      intro c
      rw [whole_ofChar, htest]
    rw [Leaf.itemWhile, TextRun.context_items, TextRun.remaining_context hcs, TextRun.context_pos,
      scanWhile_eq hlook hcs, ok_bind,
      TextRun.context_sliceTo hcs hsuf, ok_bind, hstretch]
    exact Leaf.accept_of_le (c := T.context cs) _ (by simpa using T.pos_le _)

/-- White space is skipped. -/
theorem skipBlanks_eq {cs : List Char} (hcs : cs <:+ T.text) :
    Leaf.skipBlanks (T.context cs).items (T.context cs).pos =
      .ok (T.pos (cs.dropWhile TextReader.isBlank)) := by
  have hblank : ∀ c, Leaf.isBlank (Value.ofChar c) = .ok (TextReader.isBlank c) := by
    intro c
    have hmember : (Value.ofChar c).isMember Leaf.blanks = TextReader.isBlank c := by
      simp [Leaf.blanks, Leaf.blankChars, Value.isMember, Value.ofChar, Value.eqv, Value.number?,
        TextReader.isBlank, Bool.beq_eq_decide_eq]
    rw [Leaf.isBlank, hmember]
    rfl
  have hlen := TextRun.remaining_context hcs
  unfold Context.remaining at hlen
  unfold Leaf.skipBlanks
  rw [hlen]
  exact scanWhile_eq hblank hcs

/-- A text is a form of a word if it is that word. -/
theorem isMember_variants {w chunk : List Char} {forms : List Value}
    (h : (Value.text w).variants = .ok forms) :
    (Value.text chunk).isMember forms = (chunk == w) := by
  simp only [Value.variants, Except.ok.injEq] at h
  subst h
  cases Latin1.encode? w <;> simp [Value.isMember, Value.eqv, Value.number?]

/-- A word is accepted where it stands. -/
theorem reads_literal [Memory σ] (w : List Char) :
    Reads (σ := σ) T (Step.seeing (Leaf.literal (.text w))) Value.text (TextReader.word w) where
  forward := TextReader.isForward_word w
  run := by
    intro cs hcs
    obtain ⟨forms, hforms⟩ : ∃ forms, (Value.text w).variants = .ok forms := ⟨_, rfl⟩
    have hlength : (Value.text w).length = .ok w.length := rfl
    have hlook : ∀ s : σ, Leaf.literal (.text w) (Memory.whole s) (T.context cs) =
        if w <+: cs then .ok (.success (.text w) (T.pos (cs.drop w.length)))
        else .ok (.failure (T.pos cs)) := by
      intro s
      have hwhole : ∀ chunk : List Char, Memory.whole s (.text chunk) = .text chunk :=
        fun chunk => Memory.whole_of_isPlain s _ rfl
      simp only [Leaf.literal, hlength, hforms, ok_bind, TextRun.context_pos,
        TextRun.context_sliceTo_add hcs, hwhole, isMember_variants hforms]
      -- the stretch as long as the word is the word just in case the text begins with it
      by_cases hw : w <+: cs
      · have htake : cs.take w.length = w := (List.prefix_iff_eq_take.mp hw).symm
        have hpos := TextRun.pos_drop hcs hw.length_le
        rw [if_pos hw, if_pos (by simp [htake, Value.length?]), htake, hpos]
        exact Leaf.accept_of_le _ (by simpa [← hpos] using T.pos_le _)
      · have htake : cs.take w.length ≠ w := fun heq => hw (List.prefix_iff_eq_take.mpr heq.symm)
        rw [if_neg hw, if_neg (by simp [htake])]
        rfl
    rw [seeing_of_eq hlook]
    by_cases hw : w <+: cs
    · simp [TextReader.word, hw, TextOutcome.toAction]
    · simp [TextReader.word, hw, TextOutcome.toAction]

/-- The step for the end of the input reads the end of the text. -/
theorem reads_eof : Reads (σ := σ) T (Step.leaf Leaf.eof) (fun _ => .null) TextReader.atEnd where
  forward := TextReader.isForward_atEnd
  run := by
    intro cs hcs
    cases cs with
    | nil => simp [Step.leaf, Leaf.eof, TextReader.atEnd, TextOutcome.toAction, TextRun.pos]
    | cons c cs =>
      have hpos := TextRun.not_length_le_pos hcs
      simp [Step.leaf, Leaf.eof, TextReader.atEnd, TextOutcome.toAction, hpos, Leaf.reject]

/-- So does the step for nothing left, with an empty text. -/
theorem reads_empty :
    Reads (σ := σ) T (Step.leaf Leaf.empty) (fun _ => .text []) TextReader.atEnd where
  forward := TextReader.isForward_atEnd
  run := by
    intro cs hcs
    cases cs with
    | nil =>
      have hend : T.pos [] = T.text.length := Nat.sub_zero _
      have hslice : (T.context []).sliceTo T.text.length = .ok (.text []) :=
        hend ▸ TextRun.context_sliceTo hcs List.suffix_rfl
      simp only [Step.leaf, Leaf.empty, TextRun.context_size, TextRun.context_pos, hend,
        Nat.le_refl, if_true, hslice]
      rw [TextReader.atEnd, TextOutcome.map_read, TextOutcome.toAction, hend]
      rfl
    | cons c cs =>
      have hpos := TextRun.not_length_le_pos hcs
      simp [Step.leaf, Leaf.empty, TextReader.atEnd, TextOutcome.toAction, hpos, Leaf.reject]

/-! ### Digits -/

/-- The value of a digit. -/
def digitValue (c : Char) : Nat := c.toNat - '0'.toNat

/-- A character is a digit if it is one of the ten. -/
theorem digit?_ofChar (c : Char) :
    Leaf.digit? (Value.ofChar c) = if Decimal.isDigit c then some (digitValue c) else none := by
  have hdigit : Decimal.isDigit c = decide (0x30 ≤ (c.toNat : Int) ∧ (c.toNat : Int) ≤ 0x39) := by
    simp only [Decimal.isDigit, Char.le_def, UInt32.le_iff_toNat_le, ← Bool.decide_and]
    show decide (48 ≤ c.toNat ∧ c.toNat ≤ 57) = _
    rw [decide_eq_decide]
    omega
  simp only [Value.ofChar, Leaf.digit?, Leaf.digitOfCode?, hdigit, decide_eq_true_eq]
  split
  · show some (c.toNat - 48 : Int).toNat = some (c.toNat - 48)
    congr 1
    omega
  · rfl

/-- The digits of a text are read up to where its run of digits ends. -/
theorem digitRun_eq {cs : List Char} (hcs : cs <:+ T.text) :
    Leaf.digitRun (.sequence (.text T.text.toArray)) cs.length (T.pos cs) =
      .ok ((cs.takeWhile Decimal.isDigit).map digitValue) := by
  induction cs with
  | nil => rfl
  | cons c cs ih =>
    have hitem : (Input.sequence (.text T.text.toArray)).item? (T.pos (c :: cs)) =
        .ok (some (Value.ofChar c)) :=
      TextRun.context_item? hcs
    simp only [List.length_cons, Leaf.digitRun, hitem, ok_bind, Option.bind_some, digit?_ofChar]
    by_cases hc : Decimal.isDigit c
    · simp [hc, TextRun.pos_cons hcs, ih ((List.suffix_cons c cs).trans hcs), pure, Except.pure]
    · simp [hc, pure, Except.pure]

/-- The number of digits is that of their characters. -/
theorem numberOf_map_digitValue (ds : List Char) :
    Leaf.numberOf (ds.map digitValue) = Decimal.toNat ds := by
  rw [Leaf.numberOf, List.foldl_map]
  rfl

/-- An integer without a sign is a run of digits. -/
theorem reads_integer [Memory σ] :
    Reads (σ := σ) T (Step.seeing (Leaf.integer false none)) (fun ds => .int (Decimal.toNat ds))
      (TextReader.run1 Decimal.isDigit) where
  forward := TextReader.isForward_run1 _
  run := by
    intro cs hcs
    have hrest := List.dropWhile_suffix (l := cs) Decimal.isDigit
    have hleft : T.text.length - T.pos cs = cs.length := by
      rw [← TextRun.context_size, ← TextRun.context_pos T cs]
      exact TextRun.remaining_context hcs
    have hstop : T.pos cs + (cs.takeWhile Decimal.isDigit).length =
        T.pos (cs.dropWhile Decimal.isDigit) := by
      have hsum := congrArg List.length
        (List.takeWhile_append_dropWhile (p := Decimal.isDigit) (l := cs))
      have hle := hcs.length_le
      rw [List.length_append] at hsum
      unfold TextRun.pos
      omega
    -- with no sign to look for and no type to fit, the numeral is the run of digits
    have hnumeral : ∀ look, Leaf.numeral? (T.context cs).items (T.pos cs) false none look =
        .ok (if cs.takeWhile Decimal.isDigit = [] then none
          else some ⟨false, (cs.takeWhile Decimal.isDigit).map digitValue⟩) := by
      intro look
      have hitem : (Input.sequence (.text T.text.toArray)).item? (T.pos cs) =
          .ok (cs.head?.map Value.ofChar) :=
        TextRun.context_item? hcs
      simp [Leaf.numeral?, hitem, hleft, digitRun_eq hcs, pure, Except.pure]
    have hlook : ∀ look, Leaf.integer false none look (T.context cs) =
        if cs.takeWhile Decimal.isDigit = [] then .ok (.failure (T.pos cs))
        else .ok (.success (.int (Decimal.toNat (cs.takeWhile Decimal.isDigit)))
          (T.pos (cs.dropWhile Decimal.isDigit))) := by
      intro look
      rw [Leaf.integer, TextRun.context_pos, hnumeral]
      by_cases hempty : cs.takeWhile Decimal.isDigit = []
      · simp only [if_pos hempty, ok_bind]
        rfl
      · simp only [if_neg hempty, ok_bind]
        have hwidth : Leaf.Numeral.width ⟨false, (cs.takeWhile Decimal.isDigit).map digitValue⟩ =
            (cs.takeWhile Decimal.isDigit).length := by
          simp [Leaf.Numeral.width]
        have hvalue : Leaf.Numeral.value ⟨false, (cs.takeWhile Decimal.isDigit).map digitValue⟩ =
            Decimal.toNat (cs.takeWhile Decimal.isDigit) := by
          simp [Leaf.Numeral.value, numberOf_map_digitValue]
        rw [hwidth, hvalue, hstop]
        exact Leaf.accept_of_le (c := T.context cs) _ (by simpa using T.pos_le _)
    rw [seeing_of_eq fun s => hlook (Memory.whole s)]
    by_cases hempty : cs.takeWhile Decimal.isDigit = []
    · simp [TextReader.run1, hempty, TextOutcome.toAction]
    · simp [TextReader.run1, TextReader.run, hempty, TextOutcome.toAction]

/-! ### Characters and their tests -/

/-- Only a character is equal to a character. -/
theorem isMember_equivalents (c d : Char) :
    (Value.ofChar d).isMember (Value.ofChar c).equivalents = (d == c) := by
  simp [Value.ofChar, Value.equivalents, Value.isMember, Value.eqv, Value.number?]

/-- Some characters as patterns accept one of them. -/
theorem accepts_items (cs : List Char) (d : Char) :
    (Compiled.union (cs.map fun c => .item (.ofChar c))).accepts (.ofChar d) =
      .ok (cs.contains d) := by
  have hmember : ∀ cs : List Char, (Value.ofChar d).isMember
      ((cs.map fun c => Pattern.item (.ofChar c)).flatMap Compiled.literalsOf) = cs.contains d := by
    intro cs
    induction cs with
    | nil => rfl
    | cons c cs ih =>
      have hc := isMember_equivalents c d
      unfold Value.isMember at hc ih ⊢
      rw [List.map_cons, List.flatMap_cons, List.any_append, ih, List.contains_cons]
      simp only [Compiled.literalsOf, hc]
  have hranges : ∀ cs : List Char,
      (cs.map fun c => Pattern.item (.ofChar c)).flatMap Compiled.boundsOf = [] := by
    intro cs
    induction cs with
    | nil => rfl
    | cons c cs ih => simp [Compiled.boundsOf, ih]
  have hliteral : (Compiled.union (cs.map fun c => .item (.ofChar c))).isLiteral (.ofChar d) =
      .ok (cs.contains d) := by
    simp only [Compiled.isLiteral, Compiled.union, hmember]
    split <;> rfl
  rw [Compiled.accepts, hliteral, ok_bind, Compiled.union, hranges]
  cases cs.contains d <;> rfl

/-- Two texts of one character are compared as the characters are. -/
theorem compareBy_singleton (c d : Char) :
    compareBy Char.toNat [c] [d] = compare c.toNat d.toNat := by
  by_cases h : c.toNat = d.toNat
  · simp [compareBy, h]
  · simp [compareBy, h]

/-- Characters are in the order of their codes. -/
theorem holds?_le_ofChar (c d : Char) :
    (Value.ofChar c).holds? .le (.ofChar d) = some (decide (c ≤ d)) := by
  simp only [Value.ofChar, Value.holds?, compareBy_singleton, Char.le_def, UInt32.le_iff_toNat_le]
  rcases Nat.lt_trichotomy c.toNat d.toNat with h | h | h
  · simp [Comparison.admits, Nat.compare_eq_lt.mpr h, Nat.le_of_lt h]
  · simp [Comparison.admits, Nat.compare_eq_eq.mpr h, Nat.le_of_eq h]
  · simp [Comparison.admits, Nat.compare_eq_gt.mpr h, Nat.not_le_of_gt h]

/-- The same the other way round. -/
theorem holds?_ge_ofChar (c d : Char) :
    (Value.ofChar c).holds? .ge (.ofChar d) = some (decide (d ≤ c)) := by
  simp only [Value.ofChar, Value.holds?, compareBy_singleton, Char.le_def, UInt32.le_iff_toNat_le]
  rcases Nat.lt_trichotomy c.toNat d.toNat with h | h | h
  · simp [Comparison.admits, Nat.compare_eq_lt.mpr h, Nat.not_le_of_gt h]
  · simp [Comparison.admits, Nat.compare_eq_eq.mpr h, Nat.le_of_eq h.symm]
  · simp [Comparison.admits, Nat.compare_eq_gt.mpr h, Nat.le_of_lt h]

/-- A range of characters accepts those between its bounds. -/
theorem accepts_range (low high d : Char) :
    (Compiled.union [.within ⟨.ofChar low, .ofChar high⟩]).accepts (.ofChar d) =
      .ok (decide (low ≤ d) && decide (d ≤ high)) := by
  have hcode : (Value.int low.toNat).holds? .le (.ofChar d) = none := by
    simp [Value.ofChar, Value.holds?, Value.number?]
  have hwithin : (Compiled.union [.within ⟨.ofChar low, .ofChar high⟩]).ranges.any
      (Compiled.isWithin (.ofChar d)) = (decide (low ≤ d) && decide (d ≤ high)) := by
    have hbounds : (Compiled.union [.within ⟨.ofChar low, .ofChar high⟩]).ranges =
        [(.value (.ofChar low), .value (.ofChar high)),
          (.value (.int low.toNat), .value (.int high.toNat))] := rfl
    simp [hbounds, Compiled.isWithin, Bound.holds?, holds?_le_ofChar, holds?_ge_ofChar, hcode]
  have hliteral : (Compiled.union [.within ⟨.ofChar low, .ofChar high⟩]).isLiteral (.ofChar d) =
      .ok false := rfl
  rw [Compiled.accepts, hliteral, ok_bind, hwithin]
  rfl

/-- An item of a text is what is expected if it is that character. -/
theorem reads_item [Memory σ] (c : Char) :
    Reads (σ := σ) T (Step.seeing (Leaf.item (.ofChar c))) Value.ofChar
      (TextReader.char (· == c)) :=
  reads_satisfy fun d => congrArg Except.ok (isMember_equivalents c d)

/-- A step for some characters reads one of them. -/
theorem reads_items [Memory σ] (cs : List Char) :
    Reads (σ := σ) T (Step.seeing (Leaf.oneOf (Compiled.union (cs.map fun c => .item (.ofChar c)))))
      Value.ofChar (TextReader.char cs.contains) :=
  reads_satisfy (accepts_items cs)

/-- A step for a range of characters reads one between its bounds. -/
theorem reads_range [Memory σ] (low high : Char) :
    Reads (σ := σ) T (Step.seeing
      (Leaf.oneOf (Compiled.union [.within ⟨.ofChar low, .ofChar high⟩]))) Value.ofChar
        (TextReader.char fun d => decide (low ≤ d) && decide (d ≤ high)) :=
  reads_satisfy (accepts_range low high)

/-! ### Steps made of steps -/

section Compound

variable {p q : Step σ} {enc : α → Value} {enc' : β → Value} {r : TextReader α} {r' : TextReader β}

/-- The same values may be had from others. -/
theorem Reads.of_comp {p : Context → Action σ (Outcome γ)} {enc : β → γ} (g : α → β)
    (h : Reads T p (enc ∘ g) r) : Reads T p enc (r.map g) where
  forward := h.forward.map g
  run := by
    intro cs hcs
    rw [h.run cs hcs, TextReader.map, TextOutcome.map_map]

/-- A value that is always converted. -/
theorem Reads.map (h : Reads T p enc r) {f : Value → Except Fault Value} {enc' : α → Value}
    (hf : ∀ a, f (enc a) = .ok (enc' a)) :
    Reads T (Step.map (fun v => Action.ofExcept (f v)) p) enc' r where
  forward := h.forward
  run := by
    intro cs hcs
    rw [Step.map, h.run cs hcs]
    cases r cs with
    | read a rest => simp [TextOutcome.toAction, hf]
    | stuck rest => simp [TextOutcome.toAction]
    | fault f => simp [TextOutcome.toAction]

/-- A value that is converted, unless it is refused. -/
theorem Reads.mapIf (h : Reads T p enc r) {f : Value → Except Fault Value} {g : α → Option β}
    (hf : ∀ a, f (enc a) = .ok ((g a).elim .null enc')) (hnull : ∀ b, enc' b ≠ .null) :
    Reads T (Step.mapIf (fun v => Action.ofExcept (f v)) p) enc' (r.mapIf g) where
  forward := h.forward.mapIf g
  run := by
    intro cs hcs
    rw [Step.mapIf, h.run cs hcs, TextReader.mapIf]
    cases r cs with
    | read a rest =>
      simp only [TextOutcome.map_read, TextOutcome.bind_read, TextOutcome.toAction, pure_bind,
        hf, ofExcept_ok]
      cases hg : g a with
      | none => rfl
      | some b =>
        simp only [Option.elim_some, TextOutcome.map_read]
        split
        · next heq => exact absurd heq (hnull b)
        · rfl
    | stuck rest => simp [TextOutcome.toAction]
    | fault f => simp [TextOutcome.toAction]

/-- A plain value is looked at without the user state. -/
theorem look_of_isPlain [Memory σ] {v : Value} (h : v.isPlain = true) :
    (Action.look v : Action σ Value) = pure v := by
  funext s
  simp only [Action.look, Memory.whole_of_isPlain s v h]
  rfl

/-- A value that has to pass a test. -/
theorem Reads.filter [Memory σ] (h : Reads T p enc r) (hplain : ∀ a, (enc a).isPlain = true)
    {test : Value → Except Fault Bool} {t : α → Bool} (htest : ∀ a, test (enc a) = .ok (t a)) :
    Reads T (Step.filter test p) enc (r.mapIf (Option.guard fun a => t a)) where
  forward := h.forward.mapIf _
  run := by
    intro cs hcs
    rw [Step.filter, h.run cs hcs, TextReader.mapIf]
    cases r cs with
    | read a rest =>
      simp only [TextOutcome.map_read, TextOutcome.bind_read, TextOutcome.toAction, pure_bind,
        look_of_isPlain (hplain a), htest, ofExcept_ok]
      by_cases ht : t a
      · simp [Option.guard, ht]
      · simp [Option.guard, ht]
    | stuck rest => simp [TextOutcome.toAction]
    | fault f => simp [TextOutcome.toAction]

/-- A value whose conversion may be a fault. -/
theorem Reads.convert (h : Reads T p enc r) {f : Value → Except Fault Value}
    {g : α → Except Fault β} (hf : ∀ a, f (enc a) = (g a).map enc') :
    Reads T (Step.map (fun v => Action.ofExcept (f v)) p) enc' (r.convert g) where
  forward := h.forward.convert g
  run := by
    intro cs hcs
    rw [Step.map, h.run cs hcs, TextReader.convert]
    cases r cs with
    | read a rest =>
      cases hg : g a <;> simp [TextOutcome.toAction, TextOutcome.ofExcept, hf, hg, Except.map]
    | stuck rest => simp [TextOutcome.toAction]
    | fault f => simp [TextOutcome.toAction]

/-- The same for its members. -/
theorem lookAt_of_isPlain [Memory σ] {v : Value} (h : v.isPlain = true) :
    (Action.lookAt v : Action σ Value) = pure v := by
  funext s
  simp only [Action.lookAt, Memory.surface_of_isPlain s v h]
  rfl

/-- A run of characters that must not be empty. -/
theorem reads_notEmpty_itemWhile [Memory σ] {test : Value → Except Fault Bool} {t : Char → Bool}
    (htest : ∀ c, test (Value.ofChar c) = .ok (t c)) :
    Reads (σ := σ) T (Step.notEmpty (Step.seeing (Leaf.itemWhile test))) Value.text
      (TextReader.run1 t) where
  forward := TextReader.isForward_run1 t
  run := by
    intro cs hcs
    have hlook : ∀ w, (Action.lookAt (.text w) : Action σ Value) = pure (.text w) :=
      fun w => lookAt_of_isPlain rfl
    have hlength : ∀ w, (Value.text w).length = .ok w.length := fun w => rfl
    rw [Step.notEmpty, (reads_itemWhile htest).run cs hcs]
    by_cases hempty : cs.takeWhile t = []
    · simp [TextReader.run, TextReader.run1, TextOutcome.toAction, hlook, hlength, hempty]
    · simp [TextReader.run, TextReader.run1, TextOutcome.toAction, hlook, hlength, hempty]

/-- Two ends of a text are at one position if they are one. -/
theorem isAt_pos {cs rest : List Char} (hcs : cs <:+ T.text) (hrest : rest <:+ cs) :
    (Place.position (T.pos rest)).isAt (T.pos cs) = decide (rest = cs) := by
  rw [Place.isAt_position, Bool.beq_eq_decide_eq, decide_eq_decide]
  exact TextRun.pos_inj (hrest.trans hcs) hcs

/-- White space before what is read. -/
theorem Reads.eat (h : Reads T p enc r) : Reads T (Step.eat p) enc r.eat where
  forward := h.forward.eat
  run := by
    intro cs hcs
    have hsuf := List.dropWhile_suffix (l := cs) TextReader.isBlank
    have hstart := hsuf.trans hcs
    rw [Step.eat, skipBlanks_eq hcs, ofExcept_ok, pure_bind, TextRun.context_moveTo,
      TextRun.context_pos, TextReader.eat]
    -- a failure where the step starts counts as one before the white space, if there is any
    by_cases hblank : cs.dropWhile TextReader.isBlank = cs
    · rw [if_pos (by rw [hblank]), hblank, h.run cs hcs]
      cases hr : r cs with
      | read a rest => rfl
      | stuck rest =>
        by_cases hsame : rest = cs
        · simp [hsame]
        · simp [hsame]
      | fault f => rfl
    · rw [if_neg (by rwa [TextRun.pos_inj hstart hcs]), h.run _ hstart]
      cases hr : r (cs.dropWhile TextReader.isBlank) with
      | read a rest => simp [TextOutcome.toAction]
      | stuck rest =>
        have hrest := h.forward.suffix_of_stuck hr
        by_cases hsame : rest = cs.dropWhile TextReader.isBlank
        · simp [TextOutcome.toAction, hsame]
        · simp [TextOutcome.toAction, hsame, isAt_pos hstart hrest]
      | fault f => simp [TextOutcome.toAction]

/-- What may as well not be there. -/
theorem Reads.optional (h : Reads T p enc r) :
    Reads T (Step.optional p) (Option.elim · .null enc) r.optional where
  forward := h.forward.optional
  run := by
    intro cs hcs
    rw [Step.optional, h.run cs hcs, TextReader.optional]
    cases hr : r cs with
    | read a rest => simp [TextOutcome.toAction]
    | stuck rest =>
      have hrest := h.forward.suffix_of_stuck hr
      by_cases hsame : rest = cs
      · simp [TextOutcome.toAction, hsame]
      · simp [TextOutcome.toAction, hsame, isAt_pos hcs hrest]
    | fault f => simp [TextOutcome.toAction]

/-- What gives up where it starts. -/
theorem Reads.attempt (h : Reads T p enc r) : Reads T (Step.attempt p) enc r.attempt where
  forward := h.forward.attempt
  run := by
    intro cs hcs
    rw [Step.attempt, h.run cs hcs, TextReader.attempt]
    cases hr : r cs with
    | read a rest => simp [TextOutcome.toAction]
    | stuck rest =>
      have hrest := h.forward.suffix_of_stuck hr
      by_cases hsame : rest = cs
      · simp [TextOutcome.toAction, hsame]
      · simp [TextOutcome.toAction, hsame, isAt_pos hcs hrest]
    | fault f => simp [TextOutcome.toAction]

/-- The alternatives of a choice, one by one. -/
inductive ReadsEach (T : TextRun) (enc : α → Value) : List (Step σ) → List (TextReader α) → Prop
  | nil : ReadsEach T enc [] []
  | cons {p : Step σ} {r : TextReader α} {ps : List (Step σ)} {rs : List (TextReader α)} :
    Reads T p enc r → ReadsEach T enc ps rs → ReadsEach T enc (p :: ps) (r :: rs)

/-- The alternatives leave an end of the text. -/
theorem ReadsEach.forward {ps : List (Step σ)} {rs : List (TextReader α)}
    (h : ReadsEach T enc ps rs) :
    ∀ r ∈ rs, r.IsForward := by
  induction h with
  | nil => simp
  | cons hr _ ih =>
    rintro r' (_ | ⟨_, hr'⟩)
    · exact hr.forward
    · exact ih r' hr'

/-- The first alternative that does not give up where it started. -/
theorem ReadsEach.choice {ps : List (Step σ)} {rs : List (TextReader α)}
    (h : ReadsEach T enc ps rs) :
    Reads T (Step.choice ps) enc (TextReader.first rs) where
  forward := TextReader.isForward_first h.forward
  run := by
    intro cs hcs
    show Step.choiceAfter (.position (T.pos cs)) ps (T.context cs) = _
    induction h with
    | nil => rfl
    | @cons p r ps rs hr _ ih =>
      rw [Step.choiceAfter, hr.run cs hcs, TextReader.first]
      cases heq : r cs with
      | read a rest => simp [TextOutcome.toAction]
      | stuck rest =>
        have hrest := hr.forward.suffix_of_stuck heq
        by_cases hsame : rest = cs
        · simp [TextOutcome.toAction, hsame, ih]
        · simp [TextOutcome.toAction, hsame, isAt_pos hcs hrest]
      | fault f => simp [TextOutcome.toAction]

/-! ### Steps one after the other -/

/-- Collecting nothing reads nothing. -/
theorem reads_collect_nil : Reads (σ := σ) T (Step.collect []) (fun _ => []) TextReader.done where
  forward := TextReader.isForward_done
  run := fun _ _ => rfl

/-- A step before others. -/
theorem Reads.collect_cons {ps : List (Step σ)} {encs : β → List Value} (h : Reads T p enc r)
    (hs : Reads T (Step.collect ps) encs r') :
    Reads T (Step.collect (p :: ps)) (fun x => enc x.1 :: encs x.2) (r.and r') where
  forward := h.forward.and hs.forward
  run := by
    intro cs hcs
    rw [Step.collect, h.run cs hcs, TextReader.and]
    cases hr : r cs with
    | read a rest =>
      have hrest := (h.forward.suffix_of_read hr).trans hcs
      simp only [TextOutcome.map_read, TextOutcome.bind_read, TextOutcome.toAction, pure_bind,
        TextRun.context_moveTo, hs.run rest hrest]
      cases r' rest <;> simp
    | stuck rest => simp [TextOutcome.toAction]
    | fault f => simp [TextOutcome.toAction]

/-- A sequence, with the one value made of its list. -/
theorem Reads.sequence {ps : List (Step σ)} {encs : α → List Value}
    (h : Reads T (Step.collect ps) encs r) {kind : SequenceKind σ}
    (henc : ∀ a, kind.combine (encs a) = pure (enc a)) :
    Reads T (Step.sequence kind ps) enc r where
  forward := h.forward
  run := by
    intro cs hcs
    rw [Step.sequence, h.run cs hcs]
    cases r cs <;> simp [TextOutcome.toAction, henc]

/-- A step a number of times. -/
theorem Reads.again (h : Reads T p enc r) (n : Nat) : Reads T (Step.again p n) id (r.again n) where
  forward := h.forward.again n
  run := by
    intro cs hcs
    induction n generalizing cs with
    | zero => rfl
    | succ n ih =>
      rw [Step.again, h.run cs hcs, TextReader.again]
      cases hr : r cs with
      | read a rest =>
        simpa [TextOutcome.toAction] using ih rest ((h.forward.suffix_of_read hr).trans hcs)
      | stuck rest => simp [TextOutcome.toAction]
      | fault f => simp [TextOutcome.toAction]

/-- A step several times over reads the characters of all of it. -/
theorem Reads.times (h : Reads T p enc r) (n : Nat) :
    Reads T (Step.times n p) (fun x => .text x.1) (r.again n).stretch where
  forward := (h.forward.again n).stretch
  run := by
    intro cs hcs
    rw [Step.times, (h.again n).run cs hcs, TextReader.stretch]
    cases hr : r.again n cs with
    | read a rest =>
      have hrest := (h.forward.again n).suffix_of_read hr
      simp [TextOutcome.toAction, TextRun.context_sliceTo hcs hrest]
    | stuck rest => simp [TextOutcome.toAction]
    | fault f => simp [TextOutcome.toAction]

/-- A step with the stretch that it took. -/
theorem Reads.measure_stretch (h : Reads T p enc r) :
    Reads T (Step.measure .stretch p) (fun x => .text x.1) r.stretch where
  forward := h.forward.stretch
  run := by
    intro cs hcs
    rw [Step.measure, h.run cs hcs, TextReader.stretch]
    cases hr : r cs with
    | read a rest =>
      simp [TextOutcome.toAction, Measure.report,
        TextRun.context_sliceTo hcs (h.forward.suffix_of_read hr)]
    | stuck rest => simp [TextOutcome.toAction]
    | fault f => simp [TextOutcome.toAction]

/-- A step with the stretch that it took and its value. -/
theorem Reads.measure_stretchAndValue (h : Reads T p enc r) :
    Reads T (Step.measure .stretchAndValue p) (fun x => .tuple [.text x.1, enc x.2]) r.stretch where
  forward := h.forward.stretch
  run := by
    intro cs hcs
    rw [Step.measure, h.run cs hcs, TextReader.stretch]
    cases hr : r cs with
    | read a rest =>
      simp [TextOutcome.toAction, Measure.report, Except.map,
        TextRun.context_sliceTo hcs (h.forward.suffix_of_read hr)]
    | stuck rest => simp [TextOutcome.toAction]
    | fault f => simp [TextOutcome.toAction]

end Compound

end Step

end Itemwise
