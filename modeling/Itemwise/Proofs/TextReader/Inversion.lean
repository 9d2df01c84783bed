import Itemwise.Proofs.TextReader.Basic

namespace Itemwise

/-!
# What an outcome tells

From what a reader of readers came to, what its readers came to.

* `TextReader.char_eq_read`, `run_eq_read`, `run1_eq_read`, `word_eq_read` — the characters that
  were read;
* `TextReader.and_eq_read`, `map_eq_read`, `mapIf_eq_read`, `first_eq_read`, `optional_eq_read`,
  `attempt_eq_read`, `eat_eq_read`, `stretch_eq_read`, `again_char_eq_read`, `convert_eq_read`,
  `atLeast_eq_read` — where a value comes from;
* the same lemmas for faults, and `TextReader.IsSafe` for the readers that come to none;
* `TextReader.Rounds`, `separated_eq_read`, `separated_eq_fault` — the rounds of a repetition before
  the last one.
-/

namespace TextReader

variable {α β γ : Type} {r : TextReader α} {r' : TextReader β} {cs rest : List Char} {a : α}
  {b : β} {f : Fault}

/-! ### Characters -/

/-- A character that is read was the next one, and fits. -/
theorem char_eq_read {p : Char → Bool} {c : Char} (h : char p cs = .read c rest) :
    cs = c :: rest ∧ p c = true := by
  cases cs with
  | nil => simp [char] at h
  | cons d cs =>
    by_cases hd : p d
    · simp only [char, hd, if_true, TextOutcome.read.injEq] at h
      obtain ⟨rfl, rfl⟩ := h
      exact ⟨rfl, hd⟩
    · simp [char, hd] at h

/-- A run that is read was next, and its characters fit. -/
theorem run_eq_read {p : Char → Bool} {w : List Char} (h : run p cs = .read w rest) :
    cs = w ++ rest ∧ ∀ c ∈ w, p c = true := by
  simp only [run, TextOutcome.read.injEq] at h
  obtain ⟨rfl, rfl⟩ := h
  exact ⟨List.takeWhile_append_dropWhile.symm,
    fun c hc => List.all_eq_true.mp List.all_takeWhile c hc⟩

/-- A run goes on for as long as the characters pass the test. -/
theorem run_stops {p : Char → Bool} {w : List Char} (h : run p cs = .read w rest) :
    ∀ c ∈ rest.head?, p c = false := by
  simp only [run, TextOutcome.read.injEq] at h
  obtain ⟨-, rfl⟩ := h
  intro c hc
  have hstop := List.head?_dropWhile_not p cs
  rwa [hc] at hstop

/-- The same for a run that is not empty. -/
theorem run1_eq_read {p : Char → Bool} {w : List Char} (h : run1 p cs = .read w rest) :
    cs = w ++ rest ∧ w ≠ [] ∧ ∀ c ∈ w, p c = true := by
  unfold run1 at h
  split at h
  · cases h
  · next hne =>
    obtain ⟨hcs, hw⟩ := run_eq_read h
    simp only [run, TextOutcome.read.injEq] at h
    exact ⟨hcs, h.1 ▸ hne, hw⟩

/-- A word that is read was next. -/
theorem word_eq_read {w w' : List Char} (h : word w cs = .read w' rest) : cs = w ++ rest := by
  unfold word at h
  split at h
  · next hw =>
    simp only [TextOutcome.read.injEq] at h
    rw [← h.2]
    exact (List.prefix_iff_eq_append.mp hw).symm
  · cases h

/-- The end is read where nothing is left. -/
theorem atEnd_eq_read {u : Unit} (h : atEnd cs = .read u rest) : cs = [] ∧ rest = [] := by
  cases cs with
  | nil =>
    simp only [atEnd, TextOutcome.read.injEq] at h
    exact ⟨rfl, h.2.symm⟩
  | cons c cs => cases h

/-! ### Values -/

/-- Before the change something was read. -/
theorem map_eq_read {g : α → β} (h : r.map g cs = .read b rest) :
    ∃ a, r cs = .read a rest ∧ g a = b :=
  TextOutcome.map_eq_read.mp h

/-- The same where the change can be refused. -/
theorem mapIf_eq_read {g : α → Option β} (h : r.mapIf g cs = .read b rest) :
    ∃ a, r cs = .read a rest ∧ g a = some b := by
  obtain ⟨a, mid, ha, hb⟩ := TextOutcome.bind_eq_read.mp h
  cases hg : g a with
  | none => simp [hg] at hb
  | some b' =>
    simp only [hg, Option.elim_some, TextOutcome.read.injEq] at hb
    obtain ⟨rfl, rfl⟩ := hb
    exact ⟨a, ha, hg⟩

/-- Both readers have read, one after the other. -/
theorem and_eq_read {x : α × β} (h : r.and r' cs = .read x rest) :
    ∃ mid, r cs = .read x.1 mid ∧ r' mid = .read x.2 rest := by
  obtain ⟨a, mid, ha, hx⟩ := TextOutcome.bind_eq_read.mp h
  obtain ⟨b, hb, rfl⟩ := TextOutcome.map_eq_read.mp hx
  exact ⟨mid, ha, hb⟩

/-- Nothing was taken. -/
theorem done_eq_read {u : Unit} (h : done cs = .read u rest) : rest = cs := by
  simp only [done, TextOutcome.read.injEq] at h
  exact h.2.symm

/-- The change has come to no fault. -/
theorem convert_eq_read {g : α → Except Fault β} (h : r.convert g cs = .read b rest) :
    ∃ a, r cs = .read a rest ∧ g a = .ok b := by
  obtain ⟨a, mid, ha, hb⟩ := TextOutcome.bind_eq_read.mp h
  cases hg : g a with
  | ok b' =>
    simp only [hg, TextOutcome.ofExcept, TextOutcome.read.injEq] at hb
    obtain ⟨rfl, rfl⟩ := hb
    exact ⟨a, ha, hg⟩
  | error f => simp [hg, TextOutcome.ofExcept] at hb

/-- One of the alternatives has read. -/
theorem first_eq_read {rs : List (TextReader α)} (h : first rs cs = .read a rest) :
    ∃ r ∈ rs, r cs = .read a rest := by
  induction rs with
  | nil => cases h
  | cons r rs ih =>
    unfold first at h
    split at h
    · next rest' heq =>
      split at h
      · obtain ⟨r', hr', hread⟩ := ih h
        exact ⟨r', by simp [hr'], hread⟩
      · cases h
    · exact ⟨r, by simp, h⟩

/-- What may be left out was read, or nothing was. -/
theorem optional_eq_read {o : Option α} (h : r.optional cs = .read o rest) :
    (∃ a, o = some a ∧ r cs = .read a rest) ∨ (o = none ∧ rest = cs) := by
  unfold TextReader.optional at h
  split at h
  · split at h
    · simp only [TextOutcome.read.injEq] at h
      exact .inr ⟨h.1.symm, h.2.symm⟩
    · cases h
  · obtain ⟨a, ha, rfl⟩ := TextOutcome.map_eq_read.mp h
    exact .inl ⟨a, rfl, ha⟩

/-- An attempt has read what its reader did. -/
theorem attempt_eq_read (h : r.attempt cs = .read a rest) : r cs = .read a rest := by
  unfold TextReader.attempt at h
  split at h
  · cases h
  · exact h

/-- A repetition has read its elements, and enough of them. -/
theorem atLeast_eq_read {r : TextReader (List α)} {n : Nat} {as : List α}
    (h : r.atLeast n cs = .read as rest) :
    r cs = .read as rest ∧ n ≤ as.length := by
  obtain ⟨as', mid, has, hread⟩ := TextOutcome.bind_eq_read.mp h
  split at hread
  · cases hread
  · next hlen =>
    simp only [TextOutcome.read.injEq] at hread
    obtain ⟨rfl, rfl⟩ := hread
    exact ⟨has, Nat.not_lt.mp hlen⟩

/-- Where nothing was read in its place, the reader gave up at its start. -/
theorem optional_eq_none (h : r.optional cs = .read none rest) : rest = cs ∧ r cs = .stuck cs := by
  unfold TextReader.optional at h
  split at h
  · next rest' heq =>
    split at h
    · next hsame =>
      simp only [TextOutcome.read.injEq] at h
      exact ⟨h.2.symm, hsame ▸ heq⟩
    · cases h
  · obtain ⟨a, -, hsome⟩ := TextOutcome.map_eq_read.mp h
    cases hsome

/-- A change gives up where its reader does. -/
theorem map_eq_stuck {g : α → β} (h : r.map g cs = .stuck rest) : r cs = .stuck rest := by
  unfold TextReader.map at h
  cases hr : r cs with
  | stuck rest' =>
    rw [hr] at h
    obtain rfl := TextOutcome.stuck.inj h
    rfl
  | read a rest' => simp [hr] at h
  | fault f => simp [hr] at h

/-- A reader that starts with a character gives up where it starts only if the character is not
    there. -/
theorem char_and_eq_stuck {p : Char → Bool} (hr : r.IsForward) (h : (char p).and r cs = .stuck cs) :
    ∀ c ∈ cs.head?, p c = false := by
  intro c hc
  cases cs with
  | nil => cases hc
  | cons d cs =>
    obtain rfl : d = c := by simpa using hc
    refine Bool.eq_false_iff.mpr fun hp => ?_
    have hread : char p (d :: cs) = .read d cs := by simp [char, hp]
    rw [and_of_read hread] at h
    -- what is left would be longer than what there is
    have hwithin := (hr cs).map fun b => (d, b)
    rw [h] at hwithin
    have hlen := hwithin.length_le
    rw [List.length_cons] at hlen
    omega

/-- The reader has read what follows the blanks. -/
theorem eat_eq_read (h : r.eat cs = .read a rest) : r (cs.dropWhile isBlank) = .read a rest := by
  unfold TextReader.eat at h
  split at h
  · split at h <;> cases h
  · exact h

/-- The characters that were read are those that are not left. -/
theorem stretch_eq_read {x : List Char × α} (hr : r.IsForward) (h : r.stretch cs = .read x rest) :
    r cs = .read x.2 rest ∧ cs = x.1 ++ rest := by
  obtain ⟨a, mid, ha, hx⟩ := TextOutcome.bind_eq_read.mp h
  simp only [TextOutcome.read.injEq] at hx
  obtain ⟨rfl, rfl⟩ := hx
  obtain ⟨w, rfl⟩ := hr.suffix_of_read ha
  refine ⟨ha, ?_⟩
  rw [List.length_append, Nat.add_sub_cancel, List.take_left' rfl]

/-- A character several times over is that many characters that fit. -/
theorem again_char_eq_read {p : Char → Bool} {n : Nat} {u : Unit}
    (h : (char p).again n cs = .read u rest) :
    ∃ w, cs = w ++ rest ∧ w.length = n ∧ ∀ c ∈ w, p c = true := by
  induction n generalizing cs with
  | zero =>
    simp only [again, TextOutcome.read.injEq] at h
    exact ⟨[], h.2, rfl, by simp⟩
  | succ n ih =>
    obtain ⟨c, mid, hc, hrest⟩ := TextOutcome.bind_eq_read.mp h
    obtain ⟨rfl, hpc⟩ := char_eq_read hc
    obtain ⟨w, rfl, hlen, hw⟩ := ih hrest
    exact ⟨c :: w, rfl, by simp [hlen], by simpa [hpc] using hw⟩

/-! ### Faults -/

/-- A fault after a change is one of the reader. -/
theorem map_eq_fault {g : α → β} (h : r.map g cs = .fault f) : r cs = .fault f :=
  TextOutcome.map_eq_fault.mp h

/-- The same where the change can be refused. -/
theorem mapIf_eq_fault {g : α → Option β} (h : r.mapIf g cs = .fault f) : r cs = .fault f := by
  obtain h | ⟨a, mid, _, hb⟩ := TextOutcome.bind_eq_fault.mp h
  · exact h
  · cases hg : g a <;> simp [hg] at hb

/-- A fault of two readers is one of the first or, after that, of the second. -/
theorem and_eq_fault (h : r.and r' cs = .fault f) :
    r cs = .fault f ∨ ∃ a mid, r cs = .read a mid ∧ r' mid = .fault f := by
  obtain h | ⟨a, mid, ha, hb⟩ := TextOutcome.bind_eq_fault.mp h
  · exact .inl h
  · exact .inr ⟨a, mid, ha, TextOutcome.map_eq_fault.mp hb⟩

/-- The fault is one of the reader or of the change. -/
theorem convert_eq_fault {g : α → Except Fault β} (h : r.convert g cs = .fault f) :
    r cs = .fault f ∨ ∃ a rest, r cs = .read a rest ∧ g a = .error f := by
  obtain h | ⟨a, mid, ha, hb⟩ := TextOutcome.bind_eq_fault.mp h
  · exact .inl h
  · cases hg : g a with
    | ok b' => simp [hg, TextOutcome.ofExcept] at hb
    | error f' =>
      simp only [hg, TextOutcome.ofExcept, TextOutcome.fault.injEq] at hb
      exact .inr ⟨a, mid, ha, hb ▸ hg⟩

/-- A fault of alternatives is one of one of them. -/
theorem first_eq_fault {rs : List (TextReader α)} (h : first rs cs = .fault f) :
    ∃ r ∈ rs, r cs = .fault f := by
  induction rs with
  | nil => cases h
  | cons r rs ih =>
    unfold first at h
    split at h
    · next rest' heq =>
      split at h
      · obtain ⟨r', hr', hfault⟩ := ih h
        exact ⟨r', by simp [hr'], hfault⟩
      · cases h
    · exact ⟨r, by simp, h⟩

/-- A fault after blanks is one of the reader. -/
theorem eat_eq_fault (h : r.eat cs = .fault f) : r (cs.dropWhile isBlank) = .fault f := by
  unfold TextReader.eat at h
  split at h
  · split at h <;> cases h
  · exact h

/-- So is one of a reader that may be left out. -/
theorem optional_eq_fault (h : r.optional cs = .fault f) : r cs = .fault f := by
  unfold TextReader.optional at h
  split at h
  · split at h <;> cases h
  · exact TextOutcome.map_eq_fault.mp h

/-- So is one of an attempt. -/
theorem attempt_eq_fault (h : r.attempt cs = .fault f) : r cs = .fault f := by
  unfold TextReader.attempt at h
  split at h
  · cases h
  · exact h

/-- So is one of at least some elements. -/
theorem atLeast_eq_fault {r : TextReader (List α)} {n : Nat} (h : r.atLeast n cs = .fault f) :
    r cs = .fault f := by
  obtain h | ⟨as, mid, _, hread⟩ := TextOutcome.bind_eq_fault.mp h
  · exact h
  · split at hread <;> cases hread

/-- So is one of a reader with the characters that it read. -/
theorem stretch_eq_fault (h : r.stretch cs = .fault f) : r cs = .fault f := by
  obtain h | ⟨a, mid, _, hx⟩ := TextOutcome.bind_eq_fault.mp h
  · exact h
  · cases hx

/-- So is one of a reader several times over. -/
theorem again_eq_fault {n : Nat} (h : r.again n cs = .fault f) : ∃ cs', r cs' = .fault f := by
  induction n generalizing cs with
  | zero => cases h
  | succ n ih =>
    obtain h | ⟨a, mid, _, hx⟩ := TextOutcome.bind_eq_fault.mp h
    · exact ⟨cs, h⟩
    · exact ih hx

/-! ### Readers that come to no fault -/

/-- A reader that comes to no fault. -/
def IsSafe (r : TextReader α) : Prop := ∀ cs f, r cs ≠ .fault f

/-- Reading a character comes to no fault. -/
theorem isSafe_char (p : Char → Bool) : (char p).IsSafe := by
  intro cs f
  cases cs with
  | nil => simp [char]
  | cons c cs => by_cases hc : p c <;> simp [char, hc]

theorem isSafe_run (p : Char → Bool) : (run p).IsSafe := nofun

theorem isSafe_run1 (p : Char → Bool) : (run1 p).IsSafe := by
  intro cs f
  unfold run1
  split <;> simp [run]

theorem isSafe_word (w : List Char) : (word w).IsSafe := by
  intro cs f
  unfold word
  split <;> simp

theorem isSafe_atEnd : atEnd.IsSafe := by
  intro cs f
  cases cs <;> simp [atEnd]

theorem isSafe_done : done.IsSafe := nofun

/-- A change comes to no fault if its reader does not. -/
theorem IsSafe.map (h : r.IsSafe) (g : α → γ) : (r.map g).IsSafe :=
  fun cs f hf => h cs f (map_eq_fault hf)

theorem IsSafe.mapIf (h : r.IsSafe) (g : α → Option β) : (r.mapIf g).IsSafe :=
  fun cs f hf => h cs f (mapIf_eq_fault hf)

theorem IsSafe.attempt (h : r.IsSafe) : r.attempt.IsSafe :=
  fun cs f hf => h cs f (attempt_eq_fault hf)

theorem IsSafe.atLeast {r : TextReader (List α)} (h : r.IsSafe) (n : Nat) : (r.atLeast n).IsSafe :=
  fun cs f hf => h cs f (atLeast_eq_fault hf)

/-- Two readers that come to no fault do not one after the other. -/
theorem IsSafe.and (h : r.IsSafe) (h' : r'.IsSafe) : (r.and r').IsSafe := fun cs f hf =>
  (and_eq_fault hf).elim (h cs f) fun ⟨_, mid, _, hmid⟩ => h' mid f hmid

theorem isSafe_first {rs : List (TextReader α)} (h : ∀ r ∈ rs, r.IsSafe) : (first rs).IsSafe :=
  fun cs f hf =>
  let ⟨r, hr, hfault⟩ := first_eq_fault hf
  h r hr cs f hfault

theorem IsSafe.optional (h : r.IsSafe) : r.optional.IsSafe :=
  fun cs f hf => h cs f (optional_eq_fault hf)

theorem IsSafe.eat (h : r.IsSafe) : r.eat.IsSafe := fun _ f hf => h _ f (eat_eq_fault hf)

theorem IsSafe.again (h : r.IsSafe) (n : Nat) : (r.again n).IsSafe := fun _ f hf =>
  let ⟨cs, hfault⟩ := again_eq_fault hf
  h cs f hfault

theorem IsSafe.stretch (h : r.IsSafe) : r.stretch.IsSafe :=
  fun cs f hf => h cs f (stretch_eq_fault hf)

/-! ### Repetitions -/

/-- Rounds of a repetition in which an element and what separates it from the next were read. -/
inductive Rounds (r : TextReader α) (r' : TextReader β) : List α → List Char → List Char → Prop
  | nil {cs : List Char} : Rounds r r' [] cs cs
  | cons {a : α} {as : List α} {b : β} {cs mid mid' rest : List Char} :
    r cs = .read a mid → r' mid = .read b mid' → Rounds r r' as mid' rest →
    Rounds r r' (a :: as) cs rest

/-- A repetition that is read ends where no element begins, which no separator may precede unless
    that is allowed, or after an element. -/
theorem separated_eq_read {trailing dangling : Bool} {as : List α}
    (h : separated r r' trailing dangling cs = .read as rest) :
    ∃ as' mid, Rounds r r' as' cs mid ∧
      ((as = as' ∧ rest = mid ∧ (as' ≠ [] ∨ dangling = true → trailing = true)) ∨
        ∃ a, as = as' ++ [a] ∧ r mid = .read a rest) := by
  -- an end that is read adds no value, and has no separator before it that may not come last
  have hended : ∀ {dangling cs as}, ended (α := α) trailing dangling cs = .read as rest →
      as = [] ∧ rest = cs ∧ (dangling = true → trailing = true) := by
    intro dangling cs as h
    unfold ended at h
    split at h
    · cases h
    · next hne =>
      simp only [TextOutcome.read.injEq] at h
      refine ⟨h.1.symm, h.2.symm, fun hd => ?_⟩
      simpa [hd] using hne
  fun_induction separated r r' trailing dangling cs generalizing as with
  | case1 => cases h
  | case2 dangling cs heq =>
    obtain ⟨rfl, rfl, htrailing⟩ := hended h
    exact ⟨[], rest, .nil, .inl ⟨rfl, rfl, fun hd => htrailing (by simpa using hd)⟩⟩
  | case3 => cases h
  | case4 dangling cs a heq =>
    obtain ⟨rfl, rfl, htrailing⟩ := hended h
    exact ⟨[], rest, .nil, .inl ⟨rfl, rfl, fun hd => htrailing (by simpa using hd)⟩⟩
  | case5 => cases h
  | case6 dangling cs a rest' heq hne heq' =>
    simp only [TextOutcome.read.injEq] at h
    obtain ⟨rfl, rfl⟩ := h
    exact ⟨[], cs, .nil, .inr ⟨a, rfl, heq⟩⟩
  | case7 => cases h
  | case8 dangling cs a mid heq hne b mid' heq' hlt ih =>
    obtain ⟨as, hread, rfl⟩ := TextOutcome.map_eq_read.mp h
    obtain ⟨as', end', hrounds, hlast⟩ := ih hread
    refine ⟨a :: as', end', .cons heq heq' hrounds, ?_⟩
    obtain ⟨rfl, rfl, htrailing⟩ | ⟨last, rfl, hlast⟩ := hlast
    · exact .inl ⟨rfl, rfl, fun _ => htrailing (.inr rfl)⟩
    · exact .inr ⟨last, rfl, hlast⟩
  | case9 => cases h

/-- A repetition comes to a fault in an element, or in what separates it from the next. -/
theorem separated_eq_fault {trailing dangling : Bool}
    (h : separated r r' trailing dangling cs = .fault f) :
    ∃ as mid, Rounds r r' as cs mid ∧
      (r mid = .fault f ∨ ∃ a mid', r mid = .read a mid' ∧ r' mid' = .fault f) := by
  have hended : ∀ {dangling cs}, ended (α := α) trailing dangling cs ≠ .fault f := by
    intro dangling cs
    unfold ended
    split <;> simp
  fun_induction separated r r' trailing dangling cs with
  | case1 dangling cs f' heq =>
    simp only [TextOutcome.fault.injEq] at h
    exact ⟨[], cs, .nil, .inl (h ▸ heq)⟩
  | case2 => exact absurd h hended
  | case3 => cases h
  | case4 => exact absurd h hended
  | case5 dangling cs a mid heq hne f' heq' =>
    simp only [TextOutcome.fault.injEq] at h
    exact ⟨[], cs, .nil, .inr ⟨a, mid, heq, h ▸ heq'⟩⟩
  | case6 => cases h
  | case7 => cases h
  | case8 dangling cs a mid heq hne b mid' heq' hlt ih =>
    obtain ⟨as, end', hrounds, hfault⟩ := ih (TextOutcome.map_eq_fault.mp h)
    exact ⟨a :: as, end', .cons heq heq' hrounds, hfault⟩
  | case9 => cases h

theorem IsSafe.separated (h : r.IsSafe) (h' : r'.IsSafe) (trailing dangling : Bool) :
    IsSafe (TextReader.separated r r' trailing dangling) := fun _ f hf =>
  let ⟨_, mid, _, hfault⟩ := separated_eq_fault hf
  hfault.elim (h mid f) fun ⟨_, mid', _, hmid'⟩ => h' mid' f hmid'

end TextReader

end Itemwise
