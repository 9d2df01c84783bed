import Itemwise.Proofs.TextReader.Inversion

namespace Itemwise

/-!
# Where a reader gives up

From where a reader of readers gave up, which of its readers did, and what had been read by then.

* `TextReader.IsAtomic` — a reader that gives up nowhere but where it started, with a rule for each
  reader that does;
* `TextReader.and_eq_stuck`, `first_eq_stuck`, `optional_eq_stuck`, `eat_eq_stuck`,
  `stretch_eq_stuck`, `convert_eq_stuck`, `again_char_eq_stuck` — the part that gave up;
* `TextReader.separated_eq_stuck` — the rounds of a repetition before the one in which it gave up.
-/

variable {α β : Type}

namespace TextOutcome

/-- A change gives up where its reader does. -/
theorem map_eq_stuck {g : α → β} {o : TextOutcome α} {rest : List Char} :
    o.map g = stuck rest ↔ o = stuck rest := by
  cases o <;> simp [map]

/-- Two readers give up where one of them does. -/
theorem bind_eq_stuck {o : TextOutcome α} {g : α → TextReader β} {rest : List Char} :
    o.bind g = stuck rest ↔ o = stuck rest ∨ ∃ a mid, o = read a mid ∧ g a mid = stuck rest := by
  cases o <;> grind [bind]

end TextOutcome

namespace TextReader

variable {r : TextReader α} {r' : TextReader β} {cs rest : List Char}

/-! ### Readers that give up where they start -/

/-- A reader that gives up nowhere but where it started. -/
def IsAtomic (r : TextReader α) : Prop := ∀ cs rest, r cs = .stuck rest → rest = cs

/-- A character gives up at its start. -/
theorem isAtomic_char (p : Char → Bool) : (char p).IsAtomic := by
  intro cs rest h
  cases cs with
  | nil => exact (TextOutcome.stuck.inj h).symm
  | cons c cs =>
    by_cases hc : p c
    · simp [char, hc] at h
    · simp only [char, hc, Bool.false_eq_true, if_false] at h
      exact (TextOutcome.stuck.inj h).symm

theorem isAtomic_run1 (p : Char → Bool) : (run1 p).IsAtomic := by
  intro cs rest h
  unfold run1 at h
  split at h
  · exact (TextOutcome.stuck.inj h).symm
  · cases h

theorem isAtomic_word (w : List Char) : (word w).IsAtomic := by
  intro cs rest h
  unfold word at h
  split at h
  · cases h
  · exact (TextOutcome.stuck.inj h).symm

theorem isAtomic_atEnd : atEnd.IsAtomic := by
  intro cs rest h
  cases cs with
  | nil => cases h
  | cons c cs => exact (TextOutcome.stuck.inj h).symm

theorem IsAtomic.map (h : r.IsAtomic) (g : α → β) : (r.map g).IsAtomic :=
  fun cs rest hstuck => h cs rest (map_eq_stuck hstuck)

/-- Of a reader and another one that never gives up, only the first one does. -/
theorem IsAtomic.and (h : r.IsAtomic) (h' : ∀ cs rest, r' cs ≠ .stuck rest) :
    (r.and r').IsAtomic := by
  intro cs rest hstuck
  obtain hr | ⟨a, mid, -, hr'⟩ := TextOutcome.bind_eq_stuck.mp hstuck
  · exact h cs rest hr
  · exact absurd (TextOutcome.map_eq_stuck.mp hr') (h' mid rest)

/-! ### Readers made of readers -/

/-- What the first alternative reads is read. -/
theorem first_of_read {a : α} (h : r cs = .read a rest) (rs : List (TextReader α)) :
    first (r :: rs) cs = .read a rest := by
  rw [first_of_ne_stuck (by simp [h]), h]

/-- Where the first alternative gives up after its start, all do. -/
theorem first_of_begun (h : r cs = .stuck rest) (hne : rest ≠ cs) (rs : List (TextReader α)) :
    first (r :: rs) cs = .stuck rest := by
  rw [first, h]
  exact if_neg hne

/-- The same for a reader that may be left out. -/
theorem optional_of_begun (h : r cs = .stuck rest) (hne : rest ≠ cs) :
    r.optional cs = .stuck rest := by
  rw [optional, h]
  exact if_neg hne

/-- A reader after blanks that gives up at its start does so before them. -/
theorem eat_of_start (h : r (cs.dropWhile isBlank) = .stuck (cs.dropWhile isBlank)) :
    r.eat cs = .stuck cs := by
  rw [eat, h]
  exact if_pos rfl

/-- Where it gives up later, both do. -/
theorem eat_of_begun (h : r (cs.dropWhile isBlank) = .stuck rest)
    (hne : rest ≠ cs.dropWhile isBlank) :
    r.eat cs = .stuck rest := by
  rw [eat, h]
  exact if_neg hne

/-- Two readers one after the other give up where one of them does. -/
theorem and_eq_stuck (h : r.and r' cs = .stuck rest) :
    r cs = .stuck rest ∨ ∃ a mid, r cs = .read a mid ∧ r' mid = .stuck rest := by
  obtain h | ⟨a, mid, ha, hb⟩ := TextOutcome.bind_eq_stuck.mp h
  · exact .inl h
  · exact .inr ⟨a, mid, ha, TextOutcome.map_eq_stuck.mp hb⟩

/-- Reading nothing never gives up. -/
theorem done_ne_stuck : done cs ≠ .stuck rest := nofun

/-- Where nothing has to follow a reader, it is the reader that gives up. -/
theorem and_done_eq_stuck (h : r.and done cs = .stuck rest) : r cs = .stuck rest := by
  obtain h | ⟨_, _, _, hdone⟩ := and_eq_stuck h
  · exact h
  · exact absurd hdone done_ne_stuck

/-- A change that comes to no fault gives up where its reader does. -/
theorem convert_eq_stuck {g : α → Except Fault β} (h : r.convert g cs = .stuck rest) :
    r cs = .stuck rest := by
  obtain h | ⟨a, mid, _, hg⟩ := TextOutcome.bind_eq_stuck.mp h
  · exact h
  · cases hga : g a <;> simp [hga, TextOutcome.ofExcept] at hg

/-- A reader with the characters that it read gives up where it does. -/
theorem stretch_eq_stuck (h : r.stretch cs = .stuck rest) : r cs = .stuck rest := by
  obtain h | ⟨a, mid, _, hread⟩ := TextOutcome.bind_eq_stuck.mp h
  · exact h
  · cases hread

/-- It gives up at its start if it does so on its own. -/
theorem IsAtomic.stretch (h : r.IsAtomic) : r.stretch.IsAtomic :=
  fun cs rest hstuck => h cs rest (stretch_eq_stuck hstuck)

/-- Of several readers, the first one reads, or it gives up where it started and another one
    does. -/
theorem first_cons_eq_read {a : α} {rs : List (TextReader α)}
    (h : first (r :: rs) cs = .read a rest) :
    r cs = .read a rest ∨ r cs = .stuck cs ∧ first rs cs = .read a rest := by
  unfold first at h
  split at h
  · next rest' heq =>
    split at h
    · next hstart =>
      rw [hstart] at heq
      exact .inr ⟨heq, h⟩
    · cases h
  · exact .inl h

/-- Of several readers, the first one gives up after it has begun, or it gives up where it started
    and so do the others somewhere. -/
theorem first_cons_eq_stuck {rs : List (TextReader α)} (h : first (r :: rs) cs = .stuck rest) :
    rest ≠ cs ∧ r cs = .stuck rest ∨ r cs = .stuck cs ∧ first rs cs = .stuck rest := by
  unfold first at h
  split at h
  · next rest' heq =>
    split at h
    · next hstart =>
      rw [hstart] at heq
      exact .inr ⟨heq, h⟩
    · next hne =>
      obtain rfl := TextOutcome.stuck.inj h
      exact .inl ⟨hne, heq⟩
  · next hne => exact absurd h (hne rest)

/-- If not where they start, several readers give up where one of them does. -/
theorem first_eq_stuck {rs : List (TextReader α)} (h : first rs cs = .stuck rest) :
    rest = cs ∨ ∃ r ∈ rs, r cs = .stuck rest := by
  induction rs with
  | nil => exact .inl (TextOutcome.stuck.inj h).symm
  | cons r rs ih =>
    rcases first_cons_eq_stuck h with ⟨-, hstuck⟩ | ⟨-, hfirst⟩
    · exact .inr ⟨r, by simp, hstuck⟩
    · rcases ih hfirst with hstart | ⟨r', hr', hstuck⟩
      · exact .inl hstart
      · exact .inr ⟨r', by simp [hr'], hstuck⟩

theorem isAtomic_first {rs : List (TextReader α)} (h : ∀ r ∈ rs, r.IsAtomic) :
    (first rs).IsAtomic := by
  intro cs rest hstuck
  rcases first_eq_stuck hstuck with hstart | ⟨r, hr, hstuck⟩
  · exact hstart
  · exact h r hr cs rest hstuck

/-- What may be left out gives up only after its start. -/
theorem optional_eq_stuck (h : r.optional cs = .stuck rest) : rest ≠ cs ∧ r cs = .stuck rest := by
  unfold TextReader.optional at h
  split at h
  · next rest' heq =>
    split at h
    · cases h
    · next hne =>
      obtain rfl := TextOutcome.stuck.inj h
      exact ⟨hne, heq⟩
  · next hne => exact absurd (TextOutcome.map_eq_stuck.mp h) (hne rest)

/-- Where a reader gives up nowhere but where it started, it may as well not begin. -/
theorem IsAtomic.optional_ne_stuck (hr : r.IsAtomic) : r.optional cs ≠ .stuck rest := by
  intro h
  obtain ⟨hne, hstuck⟩ := optional_eq_stuck h
  exact hne (hr cs rest hstuck)

/-- After white space, a reader gives up before the white space if it does not begin, or after it
    has begun. -/
theorem eat_eq_stuck (h : r.eat cs = .stuck rest) :
    rest = cs ∧ r (cs.dropWhile isBlank) = .stuck (cs.dropWhile isBlank) ∨
      rest ≠ cs.dropWhile isBlank ∧ r (cs.dropWhile isBlank) = .stuck rest := by
  unfold TextReader.eat at h
  split at h
  · next rest' heq =>
    split at h
    · next hstart =>
      rw [hstart] at heq
      exact .inl ⟨(TextOutcome.stuck.inj h).symm, heq⟩
    · next hne =>
      obtain rfl := TextOutcome.stuck.inj h
      exact .inr ⟨hne, heq⟩
  · next hne => exact absurd h (hne rest)

/-- A reader after blanks gives up at its start if it does so on its own. -/
theorem IsAtomic.eat (h : r.IsAtomic) : r.eat.IsAtomic := by
  intro cs rest hstuck
  rcases eat_eq_stuck hstuck with ⟨hstart, -⟩ | ⟨hne, hstuck⟩
  · exact hstart
  · exact absurd (h _ _ hstuck) hne

/-- A character several times over gives up after fewer of them. -/
theorem again_char_eq_stuck {p : Char → Bool} {n : Nat} (h : (char p).again n cs = .stuck rest) :
    ∃ w, cs = w ++ rest ∧ w.length < n ∧ ∀ c ∈ w, p c = true := by
  induction n generalizing cs with
  | zero => cases h
  | succ n ih =>
    obtain hstart | ⟨c, mid, hc, hafter⟩ := TextOutcome.bind_eq_stuck.mp h
    · obtain rfl := isAtomic_char p cs rest hstart
      exact ⟨[], rfl, Nat.succ_pos n, by simp⟩
    · obtain ⟨rfl, hpc⟩ := char_eq_read hc
      obtain ⟨w, rfl, hlen, hw⟩ := ih hafter
      exact ⟨c :: w, rfl, Nat.succ_lt_succ hlen, by simpa [hpc] using hw⟩

/-- The end of a repetition takes nothing. -/
theorem ended_eq_read {trailing dangling : Bool} {as : List α}
    (h : ended trailing dangling cs = .read as rest) :
    rest = cs := by
  unfold ended at h
  split at h
  · cases h
  · exact (TextOutcome.read.inj h).2.symm

/-- It gives up at its start. -/
theorem isAtomic_ended (trailing dangling : Bool) :
    (ended (α := α) trailing dangling).IsAtomic := by
  intro cs rest h
  unfold ended at h
  split at h
  · exact (TextOutcome.stuck.inj h).symm
  · cases h

/-- A repetition gives up after some rounds: where it may not end, in an element, or in what
    separates it from the next. -/
theorem separated_eq_stuck {trailing dangling : Bool}
    (h : separated r r' trailing dangling cs = .stuck rest) :
    ∃ as mid, Rounds r r' as cs mid ∧
      (rest = mid ∨ r mid = .stuck rest ∨ ∃ a mid', r mid = .read a mid' ∧
        r' mid' = .stuck rest) := by
  -- Only in `case8` is there a next round; in the others the repetition stops in its first one.
  fun_induction separated r r' trailing dangling cs with
  | case1 => cases h
  | case2 dangling cs heq => exact ⟨[], cs, .nil, .inl (isAtomic_ended _ _ _ _ h)⟩
  | case3 dangling cs rest' heq hne =>
    obtain rfl := TextOutcome.stuck.inj h
    exact ⟨[], cs, .nil, .inr (.inl heq)⟩
  | case4 dangling a cs heq => exact ⟨[], cs, .nil, .inl (isAtomic_ended _ _ _ _ h)⟩
  | case5 => cases h
  | case6 => cases h
  | case7 dangling cs a mid heq hne rest' heq' hne' =>
    obtain rfl := TextOutcome.stuck.inj h
    exact ⟨[], cs, .nil, .inr (.inr ⟨a, mid, heq, heq'⟩)⟩
  | case8 dangling cs a mid heq hne b mid' heq' hlt ih =>
    obtain ⟨as, end', hrounds, hstuck⟩ := ih (TextOutcome.map_eq_stuck.mp h)
    exact ⟨a :: as, end', .cons heq heq' hrounds, hstuck⟩
  | case9 dangling cs => exact ⟨[], cs, .nil, .inl (TextOutcome.stuck.inj h).symm⟩

/-! A repetition, by what its first round comes to where it does not go on. -/

/-- An element that takes nothing ends a repetition. -/
theorem separated_of_idle {a : α} (h : r cs = .read a cs) (r' : TextReader β)
    (trailing dangling : Bool) :
    separated r r' trailing dangling cs = ended trailing dangling cs := by
  rw [separated, h]
  exact if_pos rfl

/-- An element that is begun and not ended makes it give up. -/
theorem separated_of_begun (h : r cs = .stuck rest) (hne : rest ≠ cs) (r' : TextReader β)
    (trailing dangling : Bool) :
    separated r r' trailing dangling cs = .stuck rest := by
  rw [separated, h]
  exact if_neg hne

/-- The same for what stands between the elements. -/
theorem separated_of_between {a : α} {mid : List Char} (h : r cs = .read a mid) (hne : mid ≠ cs)
    (h' : r' mid = .stuck rest) (hne' : rest ≠ mid) (trailing dangling : Bool) :
    separated r r' trailing dangling cs = .stuck rest := by
  rw [separated, h]
  simp [hne, h', hne']

end TextReader

end Itemwise
