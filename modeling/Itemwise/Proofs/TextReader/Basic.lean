import Itemwise.Leaf.Blank

namespace Itemwise

/-!
# Readers of text

What a grammar does with a text depends on what is left of the text alone.  A **reader** says what
that is: it takes the rest of a text and comes to a value and the rest after it, to the rest at
which it gives up, or to a fault.

* `TextOutcome`, `TextReader` — the outcomes and the readers;
* `TextReader.char`, `run`, `run1`, `word`, `atEnd` — readers of characters;
* `TextReader.map`, `mapIf`, `convert`, `and`, `first`, `optional`, `attempt`, `eat`, `again`,
  `stretch`, `separated`, `atLeast` — readers made of readers;
* `TextOutcome.IsWithin`, `TextReader.IsForward` — a reader leaves an end of the text it was given.

That the steps of a parser do on a text what these readers say is the matter of
`Itemwise.Proofs.TextReader.Steps`.
-/

/-- What a reader comes to: a value and the text after it, the text at which it gave up, or a
    fault. -/
inductive TextOutcome (α : Type)
  | read (a : α) (rest : List Char)
  | stuck (rest : List Char)
  | fault (f : Fault)

/-- A reader takes the rest of a text. -/
abbrev TextReader (α : Type) := List Char → TextOutcome α

variable {α β γ : Type}

namespace TextOutcome

/-- The outcome with another value. -/
def map (g : α → β) : TextOutcome α → TextOutcome β
  | read a rest => read (g a) rest
  | stuck rest => stuck rest
  | fault f => fault f

/-- The outcome of a reader that goes on where another one stopped. -/
def bind (o : TextOutcome α) (g : α → TextReader β) : TextOutcome β :=
  match o with
  | read a rest => g a rest
  | stuck rest => stuck rest
  | fault f => fault f

/-- The outcome of a conversion, which leaves the text as it is. -/
def ofExcept : Except Fault α → TextReader α
  | .ok a, cs => read a cs
  | .error f, _ => fault f

/-- What is left is an end of a text. -/
def IsWithin (cs : List Char) : TextOutcome α → Prop
  | read _ rest => rest <:+ cs
  | stuck rest => rest <:+ cs
  | fault _ => True

@[simp] theorem map_read (g : α → β) (a : α) (rest : List Char) :
    (read a rest).map g = read (g a) rest :=
  rfl
@[simp] theorem map_stuck (g : α → β) (rest : List Char) : (stuck rest).map g = stuck rest := rfl
@[simp] theorem map_fault (g : α → β) (f : Fault) : (fault f).map g = fault f := rfl

@[simp] theorem bind_read (g : α → TextReader β) (a : α) (rest : List Char) :
    (read a rest).bind g = g a rest := rfl
@[simp] theorem bind_stuck (g : α → TextReader β) (rest : List Char) :
    (stuck rest).bind g = stuck rest :=
  rfl
@[simp] theorem bind_fault (g : α → TextReader β) (f : Fault) : (fault f).bind g = fault f := rfl

/-- Two changes of what was read are one. -/
theorem map_map (g : α → β) (h : β → γ) (o : TextOutcome α) : (o.map g).map h = o.map (h ∘ g) := by
  cases o <;> rfl

/-- What is read after a change was read before it. -/
theorem map_eq_read {g : α → β} {o : TextOutcome α} {b : β} {rest : List Char} :
    o.map g = read b rest ↔ ∃ a, o = read a rest ∧ g a = b := by
  cases o <;> grind [map]

/-- What is read by two readers, one after the other, is read by the second from where the first
    stopped. -/
theorem bind_eq_read {o : TextOutcome α} {g : α → TextReader β} {b : β} {rest : List Char} :
    o.bind g = read b rest ↔ ∃ a mid, o = read a mid ∧ g a mid = read b rest := by
  cases o <;> grind [bind]

/-- A change comes to a fault only where the reader does. -/
theorem map_eq_fault {g : α → β} {o : TextOutcome α} {f : Fault} :
    o.map g = fault f ↔ o = fault f := by
  cases o <;> simp [map]

/-- Two readers come to a fault where one of them does. -/
theorem bind_eq_fault {o : TextOutcome α} {g : α → TextReader β} {f : Fault} :
    o.bind g = fault f ↔ o = fault f ∨ ∃ a mid, o = read a mid ∧ g a mid = fault f := by
  cases o <;> grind [bind]

/-- What is left of an end of a text is left of the text. -/
theorem IsWithin.trans {o : TextOutcome α} {cs ds : List Char} (h : o.IsWithin cs)
    (hcs : cs <:+ ds) :
    o.IsWithin ds := by
  cases o with
  | read a rest => exact List.IsSuffix.trans h hcs
  | stuck rest => exact List.IsSuffix.trans h hcs
  | fault f => exact h

/-- A computation takes nothing of the text. -/
theorem isWithin_ofExcept (e : Except Fault α) (cs : List Char) : (ofExcept e cs).IsWithin cs := by
  cases e with
  | ok a => exact List.suffix_rfl
  | error f => trivial

/-- A change leaves what was left. -/
theorem IsWithin.map {o : TextOutcome α} {cs : List Char} (h : o.IsWithin cs) (g : α → β) :
    (o.map g).IsWithin cs := by
  cases o <;> exact h

/-- Readers one after the other leave an end of the text. -/
theorem IsWithin.bind {o : TextOutcome α} {cs : List Char} (h : o.IsWithin cs)
    {g : α → TextReader β} (hg : ∀ a rest, (g a rest).IsWithin rest) : (o.bind g).IsWithin cs := by
  cases o with
  | read a rest => exact (hg a rest).trans h
  | stuck rest => exact h
  | fault f => trivial

end TextOutcome

namespace TextReader

/-! ### Characters -/

/-- A character that passes a test. -/
def char (p : Char → Bool) : TextReader Char
  | [] => .stuck []
  | c :: cs => if p c then .read c cs else .stuck (c :: cs)

/-- The longest run of characters that pass a test. -/
def run (p : Char → Bool) : TextReader (List Char) :=
  fun cs => .read (cs.takeWhile p) (cs.dropWhile p)

/-- The same, which must not be empty. -/
def run1 (p : Char → Bool) : TextReader (List Char) := fun cs =>
  if cs.takeWhile p = [] then .stuck cs else run p cs

/-- A given word. -/
def word (w : List Char) : TextReader (List Char) := fun cs =>
  if w <+: cs then .read w (cs.drop w.length) else .stuck cs

/-- The end of the text. -/
def atEnd : TextReader Unit
  | [] => .read () []
  | c :: cs => .stuck (c :: cs)

/-- Whether a character is white space. -/
def isBlank (c : Char) : Bool := Leaf.blankChars.contains c

/-! ### Readers made of readers -/

/-- A reader with another value. -/
def map (g : α → β) (r : TextReader α) : TextReader β := fun cs => (r cs).map g

/-- A reader with another value, which gives up where it started if there is none. -/
def mapIf (g : α → Option β) (r : TextReader α) : TextReader β := fun cs =>
  (r cs).bind fun a rest => (g a).elim (.stuck cs) fun b => .read b rest

/-- A reader whose value is converted, which may be a fault. -/
def convert (g : α → Except Fault β) (r : TextReader α) : TextReader β := fun cs =>
  (r cs).bind fun a rest => .ofExcept (g a) rest

/-- Nothing. -/
def done : TextReader Unit := fun cs => .read () cs

/-- A reader, and another one from where it stopped. -/
def and (r : TextReader α) (r' : TextReader β) : TextReader (α × β) := fun cs =>
  (r cs).bind fun a rest => (r' rest).map fun b => (a, b)

/-- The first of several readers that does not give up where it started. -/
def first : List (TextReader α) → TextReader α
  | [], cs => .stuck cs
  | r :: rs, cs =>
    match r cs with
    | .stuck rest => if rest = cs then first rs cs else .stuck rest
    | o => o

/-- A reader that may as well not begin. -/
def optional (r : TextReader α) : TextReader (Option α) := fun cs =>
  match r cs with
  | .stuck rest => if rest = cs then .read none cs else .stuck rest
  | o => o.map some

/-- A reader that gives up where it started, however far it came. -/
def attempt (r : TextReader α) : TextReader α := fun cs =>
  match r cs with
  | .stuck _ => .stuck cs
  | o => o

/-- A reader after white space, which alone does not count as a beginning. -/
def eat (r : TextReader α) : TextReader α := fun cs =>
  match r (cs.dropWhile isBlank) with
  | .stuck rest => if rest = cs.dropWhile isBlank then .stuck cs else .stuck rest
  | o => o

/-- A reader a number of times. -/
def again (r : TextReader α) : Nat → TextReader Unit
  | 0, cs => .read () cs
  | n + 1, cs => (r cs).bind fun _ => again r n

/-- A reader with the characters that it read. -/
def stretch (r : TextReader α) : TextReader (List Char × α) := fun cs =>
  (r cs).bind fun a rest => .read (cs.take (cs.length - rest.length), a) rest

/-- The end of a repetition, which no separator may precede unless that is allowed. -/
def ended (trailing dangling : Bool) : TextReader (List α) := fun cs =>
  if dangling && !trailing then .stuck cs else .read [] cs

/-- A reader over and over, with another one in between, for as long as both get further.  A
    separator at the end may be allowed; `dangling` tells whether one has just been read. -/
def separated (one : TextReader α) (sep : TextReader β) (trailing : Bool) :
    (dangling : Bool) → TextReader (List α)
  | dangling, cs =>
    match one cs with
    | .fault f => .fault f
    | .stuck rest => if rest = cs then ended trailing dangling cs else .stuck rest
    | .read a rest =>
      if rest = cs then ended trailing dangling cs
      else
        match sep rest with
        | .fault f => .fault f
        | .stuck rest' => if rest' = rest then .read [a] rest else .stuck rest'
        | .read _ rest' =>
          if rest'.length < cs.length then (separated one sep trailing true rest').map (a :: ·)
          else .stuck cs
termination_by _ cs => cs.length

/-- A reader of so many values or more, which gives up where too few of them end. -/
def atLeast (n : Nat) (r : TextReader (List α)) : TextReader (List α) := fun cs =>
  (r cs).bind fun as rest => if as.length < n then .stuck rest else .read as rest

/-! ### What is read -/

/-- A run of characters ends where the next one does not pass the test. -/
theorem takeWhile_append_of_stop {p : Char → Bool} {w post : List Char} (hw : ∀ c ∈ w, p c = true)
    (hpost : ∀ c ∈ post.head?, p c = false) :
    (w ++ post).takeWhile p = w ∧ (w ++ post).dropWhile p = post := by
  rw [List.takeWhile_append_of_pos hw, List.dropWhile_append_of_pos hw]
  cases post with
  | nil => simp
  | cons c post => simp [hpost c rfl]

/-- A run of characters is read up to the first that does not fit. -/
theorem run_append {p : Char → Bool} {w post : List Char} (hw : ∀ c ∈ w, p c = true)
    (hpost : ∀ c ∈ post.head?, p c = false) : run p (w ++ post) = .read w post := by
  obtain ⟨htake, hdrop⟩ := takeWhile_append_of_stop hw hpost
  rw [run, htake, hdrop]

/-- The same for a run that must not be empty. -/
theorem run1_append {p : Char → Bool} {w post : List Char} (hne : w ≠ []) (hw : ∀ c ∈ w, p c = true)
    (hpost : ∀ c ∈ post.head?, p c = false) : run1 p (w ++ post) = .read w post := by
  rw [run1, if_neg (by rwa [(takeWhile_append_of_stop hw hpost).1]), run_append hw hpost]

/-- Such a run gives up where the first character does not fit. -/
theorem run1_of_stop {p : Char → Bool} {cs : List Char} (hcs : ∀ c ∈ cs.head?, p c = false) :
    run1 p cs = .stuck cs := by
  have htake := (takeWhile_append_of_stop (List.forall_mem_nil _) hcs).1
  rw [List.nil_append] at htake
  rw [run1, if_pos htake]

section Read

variable {r : TextReader α} {r' : TextReader β} {cs mid rest : List Char} {a : α}

/-- What is read is changed. -/
theorem map_of_read (h : r cs = .read a rest) (g : α → β) : r.map g cs = .read (g a) rest := by
  rw [map, h, TextOutcome.map_read]

/-- It is read if the change allows it. -/
theorem mapIf_of_read {g : α → Option β} {b : β} (h : r cs = .read a rest) (hg : g a = some b) :
    r.mapIf g cs = .read b rest := by
  rw [mapIf, h, TextOutcome.bind_read, hg, Option.elim_some]

/-- After the first reader, the second goes on. -/
theorem and_of_read (h : r cs = .read a mid) (r' : TextReader β) :
    r.and r' cs = (r' mid).map fun b => (a, b) := by
  rw [and, h, TextOutcome.bind_read]

/-- Where the first reader gives up, both do. -/
theorem and_of_stuck (h : r cs = .stuck rest) (r' : TextReader β) : r.and r' cs = .stuck rest := by
  rw [and, h, TextOutcome.bind_stuck]

/-- What is read is there. -/
theorem optional_of_read (h : r cs = .read a rest) : r.optional cs = .read (some a) rest := by
  simp [optional, h]

/-- Where a reader gives up at its start, nothing is read in its place. -/
theorem optional_of_stuck (h : r cs = .stuck cs) : r.optional cs = .read none cs := by
  simp [optional, h]

/-- An attempt reads what the reader does. -/
theorem attempt_of_read (h : r cs = .read a rest) : r.attempt cs = .read a rest := by
  rw [attempt, h]

/-- It gives up at its start. -/
theorem attempt_of_stuck (h : r cs = .stuck rest) : r.attempt cs = .stuck cs := by
  rw [attempt, h]

/-- The characters that were read stand beside what was read. -/
theorem stretch_of_read {w : List Char} (h : r (w ++ rest) = .read a rest) :
    r.stretch (w ++ rest) = .read (w, a) rest := by
  rw [stretch, h, TextOutcome.bind_read, List.length_append, Nat.add_sub_cancel,
    List.take_left' rfl]

/-- An alternative that does not begin is passed over. -/
theorem first_of_stuck (h : r cs = .stuck cs) (rs : List (TextReader α)) :
    first (r :: rs) cs = first rs cs := by
  simp [first, h]

/-- An alternative that does not give up is the one. -/
theorem first_of_ne_stuck (h : ∀ rest, r cs ≠ .stuck rest) (rs : List (TextReader α)) :
    first (r :: rs) cs = r cs := by
  unfold first
  split
  · next rest heq => exact absurd heq (h rest)
  · rfl

/-! A repetition, by what its first round comes to. -/

/-- A repetition ends where its reader gives up at its start. -/
theorem separated_of_stuck (h : r cs = .stuck cs) (r' : TextReader β) (trailing dangling : Bool) :
    separated r r' trailing dangling cs = ended trailing dangling cs := by
  rw [separated, h]
  exact if_pos rfl

/-- It comes to the fault of its reader. -/
theorem separated_of_fault {f : Fault} (h : r cs = .fault f) (r' : TextReader β)
    (trailing dangling : Bool) :
    separated r r' trailing dangling cs = .fault f := by
  rw [separated, h]

/-- It ends after an element that nothing follows. -/
theorem separated_of_last (h : r cs = .read a rest) (hne : rest ≠ cs) (h' : r' rest = .stuck rest)
    (trailing dangling : Bool) : separated r r' trailing dangling cs = .read [a] rest := by
  rw [separated, h]
  simp [hne, h']

/-- It goes on after an element and what stands between. -/
theorem separated_of_more {b : β} (h : r cs = .read a mid) (hne : mid ≠ cs)
    (h' : r' mid = .read b rest) (hlt : rest.length < cs.length) (trailing dangling : Bool) :
    separated r r' trailing dangling cs = (separated r r' trailing true rest).map (a :: ·) := by
  rw [separated, h]
  simp [hne, h', hlt]

@[simp] theorem atLeast_zero (r : TextReader (List α)) : r.atLeast 0 = r := by
  funext cs
  unfold atLeast
  cases r cs <;> rfl

/-- Enough elements are read as they are. -/
theorem atLeast_of_read {as : List α} {r : TextReader (List α)} {n : Nat} (h : r cs = .read as rest)
    (hn : n ≤ as.length) : r.atLeast n cs = .read as rest := by
  rw [atLeast, h, TextOutcome.bind_read, if_neg (Nat.not_lt.mpr hn)]

end Read

/-! ### What is left -/

/-- A reader leaves an end of the text it was given. -/
def IsForward (r : TextReader α) : Prop := ∀ cs, (r cs).IsWithin cs

/-- What a reader leaves is an end of its text. -/
theorem IsForward.suffix_of_read {r : TextReader α} (h : r.IsForward) {cs rest : List Char} {a : α}
    (heq : r cs = .read a rest) : rest <:+ cs := by
  have hcs := h cs
  rwa [heq] at hcs

/-- So is what is left where it gives up. -/
theorem IsForward.suffix_of_stuck {r : TextReader α} (h : r.IsForward) {cs rest : List Char}
    (heq : r cs = .stuck rest) : rest <:+ cs := by
  have hcs := h cs
  rwa [heq] at hcs

/-! The readers of characters leave an end of the text, and so do readers that are made of such. -/

theorem isForward_char (p : Char → Bool) : (char p).IsForward := by
  intro cs
  cases cs with
  | nil => exact List.suffix_rfl
  | cons c cs =>
    by_cases hc : p c
    · simp [char, hc, TextOutcome.IsWithin]
    · simp [char, hc, TextOutcome.IsWithin]

theorem isForward_run (p : Char → Bool) : (run p).IsForward := fun _ => List.dropWhile_suffix p

theorem isForward_run1 (p : Char → Bool) : (run1 p).IsForward := by
  intro cs
  unfold run1
  split
  · exact List.suffix_rfl
  · exact isForward_run p cs

theorem isForward_word (w : List Char) : (word w).IsForward := by
  intro cs
  unfold word
  split
  · exact List.drop_suffix _ _
  · exact List.suffix_rfl

theorem isForward_atEnd : atEnd.IsForward := by
  intro cs
  cases cs <;> exact List.suffix_rfl

theorem IsForward.map {r : TextReader α} (h : r.IsForward) (g : α → β) : (r.map g).IsForward :=
  fun cs => (h cs).map g

theorem IsForward.mapIf {r : TextReader α} (h : r.IsForward) (g : α → Option β) :
    (r.mapIf g).IsForward := by
  intro cs
  unfold TextReader.mapIf
  cases hr : r cs with
  | read a rest =>
    rw [TextOutcome.bind_read]
    cases g a with
    | none => exact List.suffix_rfl
    | some b => exact h.suffix_of_read hr
  | stuck rest => exact h.suffix_of_stuck hr
  | fault f => trivial

theorem IsForward.convert {r : TextReader α} (h : r.IsForward) (g : α → Except Fault β) :
    (r.convert g).IsForward :=
  fun cs => (h cs).bind fun a _ => TextOutcome.isWithin_ofExcept (g a) _

theorem isForward_done : done.IsForward := fun _ => List.suffix_rfl

theorem IsForward.and {r : TextReader α} (h : r.IsForward) {r' : TextReader β} (h' : r'.IsForward) :
    (r.and r').IsForward :=
  fun cs => (h cs).bind fun _ rest => (h' rest).map _

theorem isForward_first {rs : List (TextReader α)} (h : ∀ r ∈ rs, r.IsForward) :
    (first rs).IsForward := by
  intro cs
  induction rs with
  | nil => exact List.suffix_rfl
  | cons r rs ih =>
    have hr : r.IsForward := h r (by simp)
    unfold first
    split
    · next rest heq =>
      split
      · exact ih fun r' hr' => h r' (by simp [hr'])
      · exact hr.suffix_of_stuck heq
    · exact hr cs

theorem IsForward.optional {r : TextReader α} (h : r.IsForward) : r.optional.IsForward := by
  intro cs
  unfold TextReader.optional
  split
  · next rest heq =>
    split
    · exact List.suffix_rfl
    · exact h.suffix_of_stuck heq
  · exact (h cs).map _

theorem IsForward.attempt {r : TextReader α} (h : r.IsForward) : r.attempt.IsForward := by
  intro cs
  unfold TextReader.attempt
  split
  · exact List.suffix_rfl
  · exact h cs

theorem IsForward.eat {r : TextReader α} (h : r.IsForward) : r.eat.IsForward := by
  intro cs
  have hblank := List.dropWhile_suffix (l := cs) isBlank
  unfold TextReader.eat
  split
  · next rest heq =>
    split
    · exact List.suffix_rfl
    · exact (h.suffix_of_stuck heq).trans hblank
  · exact (h _).trans hblank

theorem IsForward.again {r : TextReader α} (h : r.IsForward) (n : Nat) : (r.again n).IsForward := by
  induction n with
  | zero => exact fun _ => List.suffix_rfl
  | succ n ih => exact fun cs => (h cs).bind fun _ => ih

theorem IsForward.stretch {r : TextReader α} (h : r.IsForward) : r.stretch.IsForward :=
  fun cs => (h cs).bind fun _ _ => List.suffix_rfl

/-- The end of a repetition takes nothing. -/
theorem isWithin_ended (trailing dangling : Bool) (cs : List Char) :
    (ended (α := α) trailing dangling cs).IsWithin cs := by
  unfold ended
  split <;> exact List.suffix_rfl

/-- A repetition leaves an end of the text if its readers do. -/
theorem IsForward.separated {one : TextReader α} (h : one.IsForward) {sep : TextReader β}
    (hs : sep.IsForward) (trailing dangling : Bool) :
    IsForward (TextReader.separated one sep trailing dangling) := by
  intro cs
  fun_induction TextReader.separated one sep trailing dangling cs with
  | case1 => trivial
  | case2 => exact isWithin_ended _ _ _
  | case3 d cs rest heq => exact h.suffix_of_stuck heq
  | case4 => exact isWithin_ended _ _ _
  | case5 => trivial
  | case6 d cs a rest heq => exact h.suffix_of_read heq
  | case7 d cs a rest heq hne rest' heq' =>
    exact (hs.suffix_of_stuck heq').trans (h.suffix_of_read heq)
  | case8 d cs a rest heq hne b rest' heq' hlt ih =>
    exact (ih.map _).trans ((hs.suffix_of_read heq').trans (h.suffix_of_read heq))
  | case9 => exact List.suffix_rfl

theorem IsForward.atLeast {r : TextReader (List α)} (h : r.IsForward) (n : Nat) :
    (r.atLeast n).IsForward := by
  intro cs
  refine (h cs).bind fun as rest => ?_
  split <;> exact List.suffix_rfl

end TextReader

end Itemwise
