import Itemwise.Proofs.TextReader.Stuck
import Mathlib.Data.List.Forall2

namespace Itemwise

/-!
# What comes after a part of a text

A reader that stops within the first part of a text, with enough of that part left, has not seen
what comes after the part, and does the same whatever comes there.

* `TextReader.Foretells` — where one reader stops within a part of a text, another one does so too,
  whatever comes after the part;
* `TextReader.foretells_char`, `foretells_run`, `foretells_run1`, `foretells_word`,
  `foretells_atEnd` — the readers of characters;
* `TextReader.Foretells.and`, `foretells_first`, `Foretells.eat`, `foretells_separated` and others —
  a rule for each way to make readers of readers.

How much has to be left is part of the statement: `D` where something was read, `E` where the reader
gave up.  To most readers one character is enough.
-/

namespace TextReader

variable {α β : Type} {D D₁ E E₁ : List Char → Prop}

/-- Where `r` stops within a part of a text, and what is left of the part is as `D` says if
    something was read and as `E` says if not, `r'` stops there too, whatever comes after the
    part. -/
structure Foretells (D E : List Char → Prop) (r r' : TextReader α) : Prop where
  forward : r.IsForward
  read : ∀ {s y a u}, r (s ++ y) = .read a (u ++ y) → D u → ∀ y', r' (s ++ y') = .read a (u ++ y')
  stuck : ∀ {s y u}, r (s ++ y) = .stuck (u ++ y) → E u → ∀ y', r' (s ++ y') = .stuck (u ++ y')

/-- What comes after two ends of a text may be left off. -/
theorem suffix_of_append {u s y : List Char} (h : u ++ y <:+ s ++ y) : u <:+ s := by
  obtain ⟨t, ht⟩ := h
  rw [← List.append_assoc] at ht
  exact ⟨t, List.append_cancel_right ht⟩

/-- A reader that leaves the end of a text, and more before it, began before that end. -/
theorem split_of_suffix {u y mid : List Char} (h : u ++ y <:+ mid) :
    ∃ m, mid = m ++ y ∧ u <:+ m := by
  obtain ⟨t, rfl⟩ := h
  exact ⟨t ++ u, (List.append_assoc ..).symm, List.suffix_append t u⟩

/-- An end that is not empty is one of a text that is not empty. -/
theorem ne_nil_of_suffix {u m : List Char} (h : u <:+ m) (hu : u ≠ []) : m ≠ [] := by
  rintro rfl
  exact hu (List.suffix_nil.mp h)

/-- A text that is not empty keeps its first character whatever comes after it. -/
theorem head?_append_of_ne_nil {u : List Char} (hu : u ≠ []) (y : List Char) :
    (u ++ y).head? = u.head? := by
  cases u with
  | nil => contradiction
  | cons c u => rfl

/-- Whether two texts differ does not depend on what comes after both. -/
theorem append_ne_of_ne {u s y y' : List Char} (h : u ++ y ≠ s ++ y) : u ++ y' ≠ s ++ y' := by
  intro heq
  exact h (by rw [List.append_cancel_right heq])

/-- Characters are dropped alike whatever comes after those that are kept. -/
theorem dropWhile_append_of_ne_nil {p : Char → Bool} {s y : List Char} (h : s.dropWhile p ≠ []) :
    (s ++ y).dropWhile p = s.dropWhile p ++ y := by
  rw [List.dropWhile_append, if_neg (by simpa using h)]

/-- Where more is left than what comes after a part, something other than white space is in it. -/
theorem dropWhile_ne_nil_of_suffix {p : Char → Bool} {u s y : List Char}
    (h : u ++ y <:+ (s ++ y).dropWhile p) (hu : u ≠ []) : s.dropWhile p ≠ [] := by
  intro hnil
  rw [List.dropWhile_append, hnil, if_pos List.isEmpty_nil] at h
  have hlen := (h.trans (List.dropWhile_suffix p)).length_le
  rw [List.length_append] at hlen
  exact hu (List.length_eq_zero_iff.mp (by omega))

/-! ### Characters -/

section Characters

variable (p : Char → Bool) (hD : ∀ u, D u → u ≠ []) (hE : ∀ u, E u → u ≠ [])

include hE in
/-- A character is foretold. -/
theorem foretells_char : Foretells D E (char p) (char p) where
  forward := isForward_char p
  read := by
    intro s y c u h _ y'
    obtain ⟨hs, hp⟩ := char_eq_read h
    obtain rfl : s = c :: u := List.append_cancel_right hs
    simp [char, hp]
  stuck := by
    intro s y u h hu y'
    obtain rfl := List.append_cancel_right (isAtomic_char p _ _ h)
    -- what is left has a first character, and that is the one that did not pass the test
    cases u with
    | nil => exact absurd rfl (hE [] hu)
    | cons c u =>
      by_cases hc : p c
      · simp [char, hc] at h
      · simp [char, hc]

include hD in
/-- So is a run of characters, if some of the part is left. -/
theorem foretells_run : Foretells D E (run p) (run p) where
  forward := isForward_run p
  read := by
    intro s y w u h hu y'
    obtain ⟨hs, hw⟩ := run_eq_read h
    have hstop := run_stops h
    rw [head?_append_of_ne_nil (hD u hu)] at hstop
    obtain rfl : s = w ++ u := List.append_cancel_right (by rw [hs, List.append_assoc])
    rw [List.append_assoc]
    refine run_append hw ?_
    rwa [head?_append_of_ne_nil (hD u hu)]
  stuck := fun h => nomatch h

include hD hE in
theorem foretells_run1 : Foretells D E (run1 p) (run1 p) where
  forward := isForward_run1 p
  read := by
    intro s y w u h hu y'
    obtain ⟨-, hne, hw⟩ := run1_eq_read h
    have hrun : run p (s ++ y) = .read w (u ++ y) := by
      unfold run1 at h
      split at h
      · cases h
      · exact h
    obtain ⟨hs, -⟩ := run_eq_read hrun
    have hstop := run_stops hrun
    rw [head?_append_of_ne_nil (hD u hu)] at hstop
    obtain rfl : s = w ++ u := List.append_cancel_right (by rw [hs, List.append_assoc])
    rw [List.append_assoc]
    refine run1_append hne hw ?_
    rwa [head?_append_of_ne_nil (hD u hu)]
  stuck := by
    intro s y u h hu y'
    obtain rfl := List.append_cancel_right (isAtomic_run1 p _ _ h)
    cases u with
    | nil => exact absurd rfl (hE [] hu)
    | cons c u =>
      by_cases hc : p c
      · simp [run1, hc, run] at h
      · exact run1_of_stop (by simpa using hc)

/-- Where a word is not there, what is there is not the beginning of it. -/
theorem foretells_word (w : List Char) (hE : ∀ u, E u → ¬ (u <+: w ∧ u ≠ w)) :
    Foretells D E (word w) (word w) where
  forward := isForward_word w
  read := by
    intro s y w' u h _ y'
    have hs := word_eq_read h
    obtain rfl : s = w ++ u := List.append_cancel_right (by rw [hs, List.append_assoc])
    have hw' : w' = w := by
      unfold word at h
      split at h
      · exact (TextOutcome.read.inj h).1.symm
      · cases h
    simp [word, hw']
  stuck := by
    intro s y u h hu y'
    obtain rfl := List.append_cancel_right (isAtomic_word w _ _ h)
    have hnot : ¬ w <+: u ++ y := by
      intro hpre
      simp [word, hpre] at h
    have hnot' : ¬ w <+: u ++ y' := by
      intro hpre
      rcases List.prefix_or_prefix_of_prefix hpre (List.prefix_append u y') with hwu | huw
      · exact hnot (hwu.trans (List.prefix_append u y))
      · refine hE u hu ⟨huw, ?_⟩
        rintro rfl
        exact hnot (List.prefix_append u y)
    simp [word, hnot']

include hD hE in
theorem foretells_atEnd : Foretells D E atEnd atEnd where
  forward := isForward_atEnd
  read := by
    intro s y a u h hu
    have hnil := (List.append_eq_nil_iff.mp (atEnd_eq_read h).2).1
    exact absurd hnil (hD u hu)
  stuck := by
    intro s y u h hu y'
    obtain rfl := List.append_cancel_right (isAtomic_atEnd _ _ h)
    cases u with
    | nil => exact absurd rfl (hE [] hu)
    | cons c u => rfl

end Characters

theorem foretells_done : Foretells D E done done where
  forward := isForward_done
  read := by
    intro s y a u h _ y'
    rw [List.append_cancel_right (done_eq_read h)]
    rfl
  stuck := fun h => absurd h done_ne_stuck

/-! ### Readers made of readers -/

namespace Foretells

variable {r r' : TextReader α} {q q' : TextReader β}

/-- What is foretold is so for fewer parts. -/
theorem mono {D' E' : List Char → Prop} (h : Foretells D E r r') (hD : ∀ u, D' u → D u)
    (hE : ∀ u, E' u → E u) :
    Foretells D' E' r r' where
  forward := h.forward
  read := fun hread hu => h.read hread (hD _ hu)
  stuck := fun hstuck hu => h.stuck hstuck (hE _ hu)

/-- A change of what is foretold is. -/
theorem map (h : Foretells D E r r') (g : α → β) : Foretells D E (r.map g) (r'.map g) where
  forward := h.forward.map g
  read := by
    intro s y b u hmap hu y'
    obtain ⟨a, hread, rfl⟩ := map_eq_read hmap
    exact map_of_read (h.read hread hu y') g
  stuck := by
    intro s y u hmap hu y'
    rw [TextReader.map, h.stuck (map_eq_stuck hmap) hu y', TextOutcome.map_stuck]

/-- So is one that can come to a fault. -/
theorem convert (h : Foretells D E r r') (g : α → Except Fault β) :
    Foretells D E (r.convert g) (r'.convert g) where
  forward := h.forward.convert g
  read := by
    intro s y b u hconvert hu y'
    obtain ⟨a, hread, hg⟩ := convert_eq_read hconvert
    rw [TextReader.convert, h.read hread hu y', TextOutcome.bind_read, hg, TextOutcome.ofExcept]
  stuck := by
    intro s y u hconvert hu y'
    rw [TextReader.convert, h.stuck (convert_eq_stuck hconvert) hu y', TextOutcome.bind_stuck]

/-- So is what is foretold with the characters that were read. -/
theorem stretch (h : Foretells D E r r') : Foretells D E r.stretch r'.stretch where
  forward := h.forward.stretch
  read := by
    intro s y x u hstretch hu y'
    obtain ⟨hread, hs⟩ := stretch_eq_read h.forward hstretch
    have hread' := h.read hread hu y'
    obtain rfl : s = x.1 ++ u := List.append_cancel_right (by rw [hs, List.append_assoc])
    rw [List.append_assoc] at hread' ⊢
    exact stretch_of_read hread'
  stuck := by
    intro s y u hstretch hu y'
    rw [TextReader.stretch, h.stuck (stretch_eq_stuck hstretch) hu y', TextOutcome.bind_stuck]

/-- A reader and another one, if where the second one stops tells that enough was left where it
    began. -/
theorem and_of (h : Foretells D₁ E r r') (h' : Foretells D E q q')
    (hread : ∀ {m y b u}, q (m ++ y) = .read b (u ++ y) → D u → D₁ m)
    (hstuck : ∀ {m y u}, q (m ++ y) = .stuck (u ++ y) → E u → D₁ m) :
    Foretells D E (r.and q) (r'.and q') where
  forward := h.forward.and h'.forward
  read := by
    intro s y x u hand hu y'
    obtain ⟨mid, hr, hq⟩ := and_eq_read hand
    obtain ⟨m, rfl, -⟩ := split_of_suffix (h'.forward.suffix_of_read hq)
    rw [and_of_read (h.read hr (hread hq hu) y'), h'.read hq hu y', TextOutcome.map_read]
  stuck := by
    intro s y u hand hu y'
    rcases and_eq_stuck hand with hr | ⟨a, mid, hr, hq⟩
    · exact and_of_stuck (h.stuck hr hu y') q'
    · obtain ⟨m, rfl, -⟩ := split_of_suffix (h'.forward.suffix_of_stuck hq)
      rw [and_of_read (h.read hr (hstuck hq hu) y'), h'.stuck hq hu y', TextOutcome.map_stuck]

/-- Where one character is enough to the first reader, it is left if it is left after the second
    one. -/
theorem and (h : Foretells (· ≠ []) E r r') (h' : Foretells D E q q') (hD : ∀ u, D u → u ≠ [])
    (hE : ∀ u, E u → u ≠ []) : Foretells D E (r.and q) (r'.and q') := by
  refine h.and_of h' (fun hq hu => ?_) (fun hq hu => ?_)
  · exact ne_nil_of_suffix (suffix_of_append (h'.forward.suffix_of_read hq)) (hD _ hu)
  · exact ne_nil_of_suffix (suffix_of_append (h'.forward.suffix_of_stuck hq)) (hE _ hu)

/-- Two readers are foretold if each is while some of the part is left. -/
theorem seq (h : Foretells (· ≠ []) (· ≠ []) r r') (h' : Foretells (· ≠ []) (· ≠ []) q q') :
    Foretells (· ≠ []) (· ≠ []) (r.and q) (r'.and q') :=
  h.and h' (fun _ hu => hu) fun _ hu => hu

/-- What may be left out is foretold, or that it is. -/
theorem optional (h : Foretells D E r r') (hDE : ∀ u, D u → E u) :
    Foretells D E r.optional r'.optional where
  forward := h.forward.optional
  read := by
    intro s y o u hoptional hu y'
    cases o with
    | some a =>
      obtain ⟨a', heq, hread⟩ | ⟨heq, -⟩ := optional_eq_read hoptional
      · obtain rfl := Option.some.inj heq
        exact optional_of_read (h.read hread hu y')
      · cases heq
    | none =>
      obtain ⟨hrest, hstuck⟩ := optional_eq_none hoptional
      obtain rfl := List.append_cancel_right hrest
      exact optional_of_stuck (h.stuck hstuck (hDE u hu) y')
  stuck := by
    intro s y u hoptional hu y'
    obtain ⟨hne, hstuck⟩ := optional_eq_stuck hoptional
    exact optional_of_begun (h.stuck hstuck hu y') (append_ne_of_ne hne)

/-- So is what is read several times over. -/
theorem again (h : Foretells (· ≠ []) (· ≠ []) r r') (n : Nat) :
    Foretells (· ≠ []) (· ≠ []) (r.again n) (r'.again n) := by
  induction n with
  | zero => exact foretells_done
  | succ n ih =>
    refine ⟨h.forward.again (n + 1), ?_, ?_⟩
    · intro s y a u hagain hu y'
      obtain ⟨b, mid, hr, hrest⟩ := TextOutcome.bind_eq_read.mp hagain
      obtain ⟨m, rfl, hm⟩ := split_of_suffix (ih.forward.suffix_of_read hrest)
      rw [TextReader.again, h.read hr (ne_nil_of_suffix hm hu) y']
      exact ih.read hrest hu y'
    · intro s y u hagain hu y'
      obtain hr | ⟨b, mid, hr, hrest⟩ := TextOutcome.bind_eq_stuck.mp hagain
      · rw [TextReader.again, h.stuck hr hu y', TextOutcome.bind_stuck]
      · obtain ⟨m, rfl, hm⟩ := split_of_suffix (ih.forward.suffix_of_stuck hrest)
        rw [TextReader.again, h.read hr (ne_nil_of_suffix hm hu) y']
        exact ih.stuck hrest hu y'

/-- A reader after white space, if what is enough to be left is so after white space too. -/
theorem eat (h : Foretells D E₁ r r') (hD : ∀ u, D u → u ≠ []) (hE : ∀ u, E u → u ≠ [] ∧ E₁ u)
    (hstart : ∀ s, E s → s.dropWhile isBlank ≠ [] ∧ E₁ (s.dropWhile isBlank)) :
    Foretells D E r.eat r'.eat where
  forward := h.forward.eat
  read := by
    intro s y a u heat hu y'
    have hread := eat_eq_read heat
    have hne := dropWhile_ne_nil_of_suffix (h.forward.suffix_of_read hread) (hD u hu)
    rw [dropWhile_append_of_ne_nil hne] at hread
    have hread' := h.read hread hu y'
    rw [TextReader.eat, dropWhile_append_of_ne_nil hne, hread']
  stuck := by
    intro s y u heat hu y'
    rcases eat_eq_stuck heat with ⟨heq, hstuck⟩ | ⟨hbegun, hstuck⟩
    · obtain rfl := List.append_cancel_right heq
      obtain ⟨hne, hdrop⟩ := hstart u hu
      rw [dropWhile_append_of_ne_nil hne] at hstuck
      have hstuck' := h.stuck hstuck hdrop y'
      rw [← dropWhile_append_of_ne_nil hne] at hstuck'
      exact eat_of_start hstuck'
    · have hne := dropWhile_ne_nil_of_suffix (h.forward.suffix_of_stuck hstuck) (hE u hu).1
      rw [dropWhile_append_of_ne_nil hne] at hstuck hbegun
      have hstuck' := h.stuck hstuck (hE u hu).2 y'
      have hbegun' : u ++ y' ≠ s.dropWhile isBlank ++ y' := append_ne_of_ne hbegun
      rw [← dropWhile_append_of_ne_nil hne] at hstuck' hbegun'
      exact eat_of_begun hstuck' hbegun'

end Foretells

/-- Several readers, if where one of them stops tells that enough was there for those before it. -/
theorem foretells_first {rs rs' : List (TextReader α)} (h : List.Forall₂ (Foretells D E) rs rs')
    (hread : ∀ r ∈ rs, ∀ {s y a u}, r (s ++ y) = .read a (u ++ y) → D u → E s)
    (hstuck : ∀ r ∈ rs, ∀ {s y u}, r (s ++ y) = .stuck (u ++ y) → E u → E s) :
    Foretells D E (first rs) (first rs') := by
  have hforward : ∀ r ∈ rs, r.IsForward := by
    clear hread hstuck
    induction h with
    | nil => exact List.forall_mem_nil _
    | cons hr _ ih => exact List.forall_mem_cons.mpr ⟨hr.forward, ih⟩
  induction h with
  | nil =>
    refine ⟨isForward_first hforward, nofun, fun h _ y' => ?_⟩
    rw [List.append_cancel_right (TextOutcome.stuck.inj h)]
    rfl
  | @cons r r' rs rs' hr _ ih =>
    have hrs := ih (fun r hr => hread r (by simp [hr])) (fun r hr => hstuck r (by simp [hr]))
      fun r hr => hforward r (by simp [hr])
    refine ⟨isForward_first hforward, ?_, ?_⟩
    · intro s y a u hfirst hu y'
      rcases first_cons_eq_read hfirst with hread₁ | ⟨hstart, hfirst⟩
      · exact first_of_read (hr.read hread₁ hu y') rs'
      · obtain ⟨r₂, hr₂, hread₂⟩ := first_eq_read hfirst
        rw [first_of_stuck (hr.stuck hstart (hread r₂ (by simp [hr₂]) hread₂ hu) y')]
        exact hrs.read hfirst hu y'
    · intro s y u hfirst hu y'
      rcases first_cons_eq_stuck hfirst with ⟨hne, hstuck₁⟩ | ⟨hstart, hfirst⟩
      · exact first_of_begun (hr.stuck hstuck₁ hu y') (append_ne_of_ne hne) rs'
      · have hs : E s := by
          rcases first_eq_stuck hfirst with heq | ⟨r₂, hr₂, hstuck₂⟩
          · rwa [← List.append_cancel_right heq]
          · exact hstuck r₂ (by simp [hr₂]) hstuck₂ hu
        rw [first_of_stuck (hr.stuck hstart hs y')]
        exact hrs.stuck hfirst hu y'

/-- Several readers to each of which one character is enough. -/
theorem foretells_first_of_ne_nil {rs : List (TextReader α)}
    (h : ∀ r ∈ rs, Foretells (· ≠ []) (· ≠ []) r r) :
    Foretells (· ≠ []) (· ≠ []) (first rs) (first rs) := by
  refine foretells_first (List.forall₂_same.mpr h) (fun r hr _ _ _ _ hread hu => ?_)
    fun r hr _ _ _ hstuck hu => ?_
  · exact ne_nil_of_suffix (suffix_of_append ((h r hr).forward.suffix_of_read hread)) hu
  · exact ne_nil_of_suffix (suffix_of_append ((h r hr).forward.suffix_of_stuck hstuck)) hu

theorem foretells_ended (trailing dangling : Bool) :
    Foretells D E (ended (α := α) trailing dangling) (ended trailing dangling) where
  forward := isWithin_ended trailing dangling
  read := by
    intro s y as u h _ y'
    obtain rfl := List.append_cancel_right (ended_eq_read h)
    by_cases hlast : (dangling && !trailing) = true
    · simp [ended, hlast] at h
    · simp only [ended, hlast, Bool.false_eq_true, if_false, TextOutcome.read.injEq] at h ⊢
      exact ⟨h.1, trivial⟩
  stuck := by
    intro s y u h _ y'
    obtain rfl := List.append_cancel_right (isAtomic_ended trailing dangling _ _ h)
    by_cases hlast : (dangling && !trailing) = true
    · simp [ended, hlast]
    · simp [ended, hlast] at h

/-- One outcome on a text that ends in `y`, and the others on what that text is with other ends. -/
structure StopsAlike (E : List Char → Prop) (y : List Char) (o : TextOutcome α)
    (o' : List Char → TextOutcome α) : Prop where
  read : ∀ {a u}, o = .read a (u ++ y) → E u → ∀ y', o' y' = .read a (u ++ y')
  stuck : ∀ {u}, o = .stuck (u ++ y) → E u → ∀ y', o' y' = .stuck (u ++ y')

/-- Nothing is asked of a fault. -/
theorem stopsAlike_fault (y : List Char) (f : Fault) (o' : List Char → TextOutcome α) :
    StopsAlike E y (.fault f) o' := by
  refine ⟨fun h => ?_, fun h => ?_⟩
  · cases h
  · cases h

/-- Something that was read is read whatever comes after. -/
theorem stopsAlike_read {y rest : List Char} {a : α} {o' : List Char → TextOutcome α}
    (h : ∀ u, rest = u ++ y → E u → ∀ y', o' y' = .read a (u ++ y')) :
    StopsAlike E y (.read a rest) o' := by
  refine ⟨fun heq hu => ?_, fun heq => ?_⟩
  · obtain ⟨rfl, hrest⟩ := TextOutcome.read.inj heq
    exact h _ hrest hu
  · cases heq

/-- What gave up gives up whatever comes after. -/
theorem stopsAlike_stuck {y rest : List Char} {o' : List Char → TextOutcome α}
    (h : ∀ u, rest = u ++ y → E u → ∀ y', o' y' = .stuck (u ++ y')) :
    StopsAlike E y (.stuck rest) o' := by
  refine ⟨fun heq => ?_, fun heq hu => ?_⟩
  · cases heq
  · exact h _ (TextOutcome.stuck.inj heq) hu

/-- A repetition, if one character is enough where an element or what is between two of them was
    read. -/
theorem foretells_separated {r r' : TextReader α} {q q' : TextReader β}
    (h : Foretells (· ≠ []) E r r') (h' : Foretells (· ≠ []) E q q') (hE : ∀ u, E u → u ≠ [])
    (trailing dangling : Bool) :
    Foretells E E (separated r q trailing dangling) (separated r' q' trailing dangling) := by
  have hforward := h.forward.separated h'.forward trailing
  suffices hstops : ∀ cs s y, cs = s ++ y →
      StopsAlike E y (separated r q trailing dangling cs) fun y' =>
        separated r' q' trailing dangling (s ++ y') from
    ⟨hforward dangling, (hstops _ _ _ rfl).read, (hstops _ _ _ rfl).stuck⟩
  -- where the repetition ends at once, what is left is all that there is
  have hends : ∀ {dangling s y},
      (E s → ∀ y', separated r' q' trailing dangling (s ++ y') =
        ended trailing dangling (s ++ y')) →
      StopsAlike E y (ended trailing dangling (s ++ y)) fun y' =>
      separated r' q' trailing dangling (s ++ y') := by
    intro dangling s y hsame
    have hended := foretells_ended (α := α) (D := E) (E := E) trailing dangling
    refine ⟨fun hread hu y' => ?_, fun hstuck hu y' => ?_⟩
    · obtain rfl := List.append_cancel_right (ended_eq_read hread)
      rw [hsame hu, hended.read hread hu]
    · obtain rfl := List.append_cancel_right (isAtomic_ended trailing dangling _ _ hstuck)
      rw [hsame hu, hended.stuck hstuck hu]
  intro cs s y hcs
  fun_induction separated r q trailing dangling cs generalizing s with
  | case1 dangling cs f heq => exact stopsAlike_fault y f _
  | case2 dangling cs heq =>
    subst hcs
    exact hends fun hs y' => separated_of_stuck (h.stuck heq hs y') q' trailing dangling
  | case3 dangling cs rest heq hne =>
    subst hcs
    apply stopsAlike_stuck
    rintro u rfl hu y'
    exact separated_of_begun (h.stuck heq hu y') (append_ne_of_ne hne) q' trailing dangling
  | case4 dangling a cs heq =>
    subst hcs
    exact hends fun hs y' => separated_of_idle (h.read heq (hE _ hs) y') q' trailing dangling
  | case5 dangling cs a mid heq hne f heq' => exact stopsAlike_fault y f _
  | case6 dangling cs a rest heq hne heq' =>
    subst hcs
    apply stopsAlike_read
    rintro u rfl hu y'
    exact separated_of_last (h.read heq (hE u hu) y') (append_ne_of_ne hne)
      (h'.stuck heq' hu y') trailing dangling
  | case7 dangling cs a mid heq hne rest heq' hne' =>
    subst hcs
    apply stopsAlike_stuck
    rintro u rfl hu y'
    obtain ⟨m, rfl, hm⟩ := split_of_suffix (h'.forward.suffix_of_stuck heq')
    have hread := h.read heq (ne_nil_of_suffix hm (hE u hu)) y'
    exact separated_of_between hread (append_ne_of_ne hne) (h'.stuck heq' hu y')
      (append_ne_of_ne hne') trailing dangling
  | case8 dangling cs a mid heq hne b mid' heq' hlt ih =>
    subst hcs
    -- the first round goes the same way if something is left after it
    have hround : ∀ {u}, u ++ y <:+ mid' → u ≠ [] → ∃ m', mid' = m' ++ y ∧ ∀ y',
        separated r' q' trailing dangling (s ++ y') = (separated r' q' trailing true (m' ++ y')).map
          (a :: ·) := by
      intro u hu hne'
      obtain ⟨m', rfl, hm'⟩ := split_of_suffix hu
      obtain ⟨m, rfl, hm⟩ := split_of_suffix (h'.forward.suffix_of_read heq')
      refine ⟨m', rfl, fun y' => ?_⟩
      have hsome := ne_nil_of_suffix hm' hne'
      have hread := h.read heq (ne_nil_of_suffix hm hsome) y'
      have hshorter : (m' ++ y').length < (s ++ y').length := by
        simp only [List.length_append] at hlt ⊢
        omega
      exact separated_of_more hread (append_ne_of_ne hne) (h'.read heq' hsome y') hshorter
        trailing dangling
    refine ⟨fun hrest hu y' => ?_, fun hrest hu y' => ?_⟩
    · obtain ⟨as, hread, rfl⟩ := TextOutcome.map_eq_read.mp hrest
      obtain ⟨m', rfl, hsame⟩ := hround ((hforward true).suffix_of_read hread) (hE _ hu)
      rw [hsame, (ih m' rfl).read hread hu y', TextOutcome.map_read]
    · have hstuck := TextOutcome.map_eq_stuck.mp hrest
      obtain ⟨m', rfl, hsame⟩ := hround ((hforward true).suffix_of_stuck hstuck) (hE _ hu)
      rw [hsame, (ih m' rfl).stuck hstuck hu y', TextOutcome.map_stuck]
  | case9 dangling cs a mid heq hne b mid' heq' hle =>
    -- a round that gets no further would leave no less than it was given
    have hmid := h.forward.suffix_of_read heq
    have hmid' := (h'.forward.suffix_of_read heq').length_le
    exact absurd (hmid.eq_of_length_le (by omega)) hne

end TextReader

end Itemwise
