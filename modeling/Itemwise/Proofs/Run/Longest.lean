import Itemwise.Proofs.Run.Places
import Itemwise.Proofs.Run.Sinks

namespace Itemwise

/-!
# The longest alternative

A greedy choice runs all of its alternatives from one position and keeps the outcome that is better
than the others.  Where nothing but the outcomes matters, it is told by the list of them, and but
for ties not by their order.

* `Outcome.IsLongest` — the outcome that reaches furthest of some, a success before a failure and
  the earlier one on a tie;
* `Outcome.isLongest_foldl` — the longest outcome is found by keeping the better one each time;
* `Outcome.IsLongest.perm` — the longest of the same outcomes in another order is of the same kind
  and at the same place;
* `Step.Settles` — a step comes to one outcome whatever the user state is;
* `Step.greedyChoice_isLongest` — a greedy choice between such steps comes to the longest of their
  outcomes;
* `Parser.run_longest` — what this makes of the alternatives of a parser in any order.
-/

namespace Outcome

/-- The place that an outcome reports. -/
def place : Outcome Value → Place
  | .success _ q => q
  | .failure x => x

/-- A success reaches its position. -/
@[simp] theorem place_success (v : Value) (q : Nat) : (Outcome.success v q).place = .position q :=
  rfl

@[simp] theorem place_failure (x : Place) : (Outcome.failure x : Outcome Value).place = x := rfl

/-- An outcome is a success at a position. -/
def succeedsAt (n : Nat) : Outcome Value → Bool
  | .success _ q => q == n
  | .failure _ => false

/-- A success is one at its own position only. -/
@[simp] theorem succeedsAt_success (n : Nat) (v : Value) (q : Nat) :
    succeedsAt n (.success v q) = (q == n) :=
  rfl

@[simp] theorem succeedsAt_failure (n : Nat) (x : Place) : succeedsAt n (.failure x) = false := rfl

/-- The outcome that reaches furthest of some: the first of the successes at the greatest position,
    or, if all of them are failures, a failure at the place of one of them that is before no
    other. -/
inductive IsLongest : Outcome Value → List (Outcome Value) → Prop
  | success {before after : List (Outcome Value)} {v : Value} {q : Nat}
      (hbefore : ∀ w r, .success w r ∈ before → r < q) (hafter : ∀ w r, .success w r ∈ after →
        r ≤ q) : IsLongest (.success v q) (before ++ .success v q :: after)
  | failure {os : List (Outcome Value)} {x : Place} (hfailures : ∀ w r, .success w r ∉ os)
      (hmem : ∃ y, .failure y ∈ os ∧ x.Same y) (hmost : ∀ y, .failure y ∈ os →
        ¬ x.precedes y = true) :
    IsLongest (.failure x) os

variable {os os' : List (Outcome Value)} {o o' : Outcome Value} {start : Nat}

/-- The furthest outcome is one of some, so there are some. -/
theorem IsLongest.ne_nil (h : IsLongest o os) : os ≠ [] := by
  cases h with
  | success => simp
  | failure _ hmem =>
    obtain ⟨y, hy, -⟩ := hmem
    exact List.ne_nil_of_mem hy

/-- A furthest success is one of the outcomes. -/
theorem IsLongest.mem_of_success {v : Value} {q : Nat} (h : IsLongest (.success v q) os) :
    .success v q ∈ os := by
  cases h
  simp

/-- The longest of some outcomes is no success only if none of them is one. -/
theorem IsLongest.of_success_mem {w : Value} {r : Nat} (h : IsLongest o os)
    (hmem : .success w r ∈ os) :
    ∃ v q, o = .success v q ∧ r ≤ q := by
  cases h with
  | @success before after v q hbefore hafter =>
    refine ⟨v, q, rfl, ?_⟩
    simp only [List.mem_append, List.mem_cons, Outcome.success.injEq] at hmem
    rcases hmem with hmem | ⟨-, rfl⟩ | hmem
    · exact Nat.le_of_lt (hbefore w r hmem)
    · exact Nat.le_refl r
    · exact hafter w r hmem
  | failure hfailures => exact absurd hmem (hfailures w r)

/-- Behind the longest success, only one that reaches further is better. -/
theorem IsLongest.better_of_success {v : Value} {q : Nat} (h : IsLongest (.success v q) os)
    (next : Outcome Value) :
    IsLongest (Step.better (.success v q) next) (os ++ [next]) := by
  have hreached (w : Value) (r : Nat) (hmem : .success w r ∈ os) : r ≤ q := by
    obtain ⟨_, _, ⟨⟩, hle⟩ := h.of_success_mem hmem
    exact hle
  obtain @⟨before, after, _, _, hbefore, hafter⟩ := h
  cases next with
  | failure x =>
    rw [List.append_assoc, List.cons_append]
    exact .success hbefore fun w r hmem => hafter w r (by simpa using hmem)
  | success w r =>
    by_cases hlt : q < r
    · simp only [Step.better, hlt, if_true]
      exact .success (fun w' r' hmem => Nat.lt_of_le_of_lt (hreached w' r' hmem) hlt) (by simp)
    · simp only [Step.better, hlt, if_false]
      rw [List.append_assoc, List.cons_append]
      refine .success hbefore fun w' r' hmem => ?_
      simp only [List.mem_append, List.mem_singleton, Outcome.success.injEq] at hmem
      rcases hmem with hmem | ⟨-, rfl⟩
      · exact hafter w' r' hmem
      · exact Nat.le_of_not_lt hlt

/-- Behind failures, every success is better, and so is a failure that reaches further. -/
theorem IsLongest.better_of_failure {x : Place} (h : IsLongest (.failure x) os)
    (next : Outcome Value) :
    IsLongest (Step.better (.failure x) next) (os ++ [next]) := by
  obtain ⟨⟩ | @⟨_, _, hfailures, hmem, hmost⟩ := h
  cases next with
  | success w r => exact .success (fun w' r' hmem => absurd hmem (hfailures w' r')) (by simp)
  | failure y =>
    have hfailures' (w : Value) (r : Nat) : .success w r ∉ os ++ [.failure y] := by simp [hfailures]
    have hcases (z : Place) (hz : .failure z ∈ os ++ [.failure y]) :
        ¬ x.precedes z = true ∨ z = y := by
      simp only [List.mem_append, List.mem_singleton, Outcome.failure.injEq] at hz
      exact hz.imp_left (hmost z)
    by_cases hlt : x.precedes y = true
    · -- what the last failure was not before, the next one is not before either
      simp only [Step.better, hlt, if_true]
      refine .failure hfailures' ⟨y, by simp, rfl⟩ fun z hz hyz => ?_
      rcases hcases z hz with hxz | rfl
      · exact hxz (Place.precedes_trans hlt hyz)
      · exact Place.not_precedes_self z hyz
    · simp only [Step.better, hlt]
      obtain ⟨z, hz, hsame⟩ := hmem
      refine .failure hfailures' ⟨z, by simp [hz], hsame⟩ fun z hz => ?_
      rcases hcases z hz with hxz | rfl
      · exact hxz
      · exact hlt

/-- The longest of some outcomes is found by going through them and keeping the better one each
    time. -/
theorem isLongest_foldl {seen : List (Outcome Value)} (h : IsLongest o seen)
    (os : List (Outcome Value)) :
    IsLongest (os.foldl Step.better o) (seen ++ os) := by
  induction os generalizing seen o with
  | nil => simpa using h
  | cons next os ih =>
    rw [List.append_cons, List.foldl_cons]
    apply ih
    cases o with
    | success v q => exact h.better_of_success next
    | failure x => exact h.better_of_failure next

/-- A failure at the start is dispensable if there are others, none of which is before it. -/
theorem IsLongest.of_cons (hne : os ≠ []) (hos : ∀ o ∈ os, o.place.From start)
    (h : IsLongest o (.failure (.position start) :: os)) : IsLongest o os := by
  generalize hall : Outcome.failure (.position start) :: os = all at h
  cases h with
  | @success before after v q hbefore hafter =>
    cases before with
    | nil => simp at hall
    | cons first before =>
      rw [List.cons_append, List.cons.injEq] at hall
      obtain ⟨rfl, rfl⟩ := hall
      exact .success (fun w r hmem => hbefore w r (List.mem_cons_of_mem _ hmem)) hafter
  | @failure _ x hfailures hmem hmost =>
    subst hall
    have hfailures' (w : Value) (r : Nat) : .success w r ∉ os :=
      fun hmem => hfailures w r (List.mem_cons_of_mem _ hmem)
    have hmost' (y : Place) (hy : .failure y ∈ os) : ¬ x.precedes y = true :=
      hmost y (List.mem_cons_of_mem _ hy)
    refine .failure hfailures' ?_ hmost'
    obtain ⟨y, hy, hsame⟩ := hmem
    rcases List.mem_cons.mp hy with heq | hy
    · -- none of the failures is further than the start, so all of them are there
      obtain rfl : y = start := by simpa using heq
      obtain ⟨first, hfirst⟩ := List.exists_mem_of_ne_nil os hne
      cases first with
      | success w r => exact absurd hfirst (hfailures' w r)
      | failure z =>
        rcases hos _ hfirst with hat | hlt
        · exact ⟨z, hfirst, hsame.trans (Place.isAt_iff.mp hat).symm⟩
        · rw [← hsame.precedes_eq] at hlt
          exact absurd hlt (hmost' z hfirst)
    · exact ⟨y, hy, hsame⟩

/-! ### Other orders -/

/-- The longest of the same outcomes in another order is of the same kind and at the same place, and
    equal to the first one if it is the only success there. -/
theorem IsLongest.perm (hos : ∀ o ∈ os, o.place.From start) (h : IsLongest o os)
    (hperm : os.Perm os') (h' : IsLongest o' os') :
    o'.isSuccess = o.isSuccess ∧ o'.place.Same o.place ∧
      ∀ v q, o = .success v q → os.countP (succeedsAt q) = 1 → o' = o := by
  cases o with
  | success v q =>
    -- each of the two is among the outcomes of which the other one is the longest
    obtain ⟨w, r, rfl, hqr⟩ := h'.of_success_mem (hperm.mem_iff.mp h.mem_of_success)
    have hmem' := hperm.mem_iff.mpr h'.mem_of_success
    obtain ⟨_, _, ⟨⟩, hrq⟩ := h.of_success_mem hmem'
    obtain rfl : q = r := Nat.le_antisymm hqr hrq
    refine ⟨rfl, rfl, ?_⟩
    rintro _ _ ⟨⟩ hone
    rw [List.countP_eq_length_filter, List.length_eq_one_iff] at hone
    obtain ⟨only, honly⟩ := hone
    have heq (o : Outcome Value) (ho : o ∈ os) (hat : o.succeedsAt q = true) : o = only := by
      have hfiltered : o ∈ os.filter (succeedsAt q) := List.mem_filter.mpr ⟨ho, hat⟩
      simpa [honly] using hfiltered
    rw [heq _ hmem' (by simp), heq _ h.mem_of_success (by simp)]
  | failure x =>
    obtain ⟨⟩ | @⟨_, _, hfailures, ⟨y, hy, hxy⟩, hmost⟩ := h
    cases o' with
    | success w r => exact absurd (hperm.mem_iff.mpr h'.mem_of_success) (hfailures w r)
    | failure x' =>
      obtain ⟨⟩ | @⟨_, _, -, ⟨y', hy', hxy'⟩, hmost'⟩ := h'
      have hy'' := hperm.mem_iff.mpr hy'
      -- neither is before the other, as each is where one of the failures is
      have hle : ¬ y.precedes y' = true := by
        rw [← hxy.precedes_eq]
        exact hmost y' hy''
      have hge : ¬ y'.precedes y = true := by
        rw [← hxy'.precedes_eq]
        exact hmost' y (hperm.mem_iff.mp hy)
      have hsame : y'.Same y :=
        Place.same_of_not_precedes (hos _ hy'').value_ne_none (hos _ hy).value_ne_none hge hle
      exact ⟨rfl, hxy'.trans (hsame.trans hxy.symm), nofun⟩

end Outcome

/-! ### Greedy choices -/

variable {σ : Type}

namespace Step

/-- A step comes to an outcome whatever the user state is, leaves it as it is, and reports its start
    or a place after it. -/
structure Settles (step : Step σ) (c : Context) (o : Outcome Value) : Prop where
  runs : ∀ s, step c s = .ok o s
  reports : o.place.From c.pos

variable {ps ps' : List (Step σ)} {os : List (Outcome Value)} {c : Context}

/-- The alternatives are run one after the other, each from the start, and the better outcome is
    kept each time. -/
theorem best_eq_foldl (h : List.Forall₂ (fun p o => Settles p c o) ps os)
    (known : Outcome Value) (s : σ) :
    best ps known c s = .ok (os.foldl better known) s := by
  induction h generalizing known with
  | nil => rfl
  | @cons p o ps os hp _ ih => exact (Action.bind_of_ok (hp.runs s)).trans (ih (better known o))

/-- Every outcome that alternatives settle on reports their start or a place after it. -/
theorem forall_reports (h : List.Forall₂ (fun p o => Settles p c o) ps os) :
    ∀ o ∈ os, o.place.From c.pos := by
  induction h with
  | nil => simp
  | cons hp _ ih => exact List.forall_mem_cons.mpr ⟨hp.reports, ih⟩

/-- **Maximal munch.** A greedy choice comes to the longest of the outcomes of its alternatives. -/
theorem greedyChoice_isLongest (hne : os ≠ []) (h : List.Forall₂ (fun p o => Settles p c o) ps os) :
    ∃ o, o.IsLongest os ∧ ∀ s, greedyChoice ps c s = .ok o s := by
  -- The choice starts from a failure at the start, which is the longest outcome as long as there is
  -- no other.
  have hstart : Outcome.IsLongest (.failure (.position c.pos)) [.failure (.position c.pos)] :=
    .failure (by simp) ⟨c.pos, by simp, rfl⟩ (by simp)
  have hlongest := Outcome.isLongest_foldl hstart os
  exact ⟨_, hlongest.of_cons hne (forall_reports h), best_eq_foldl h (.failure c.pos)⟩

/-- In another order, a greedy choice comes to an outcome of the same kind at the same place, which
    is the same outcome if one alternative alone succeeds there. -/
theorem greedyChoice_perm {o : Outcome Value} (h : List.Forall₂ (fun p o => Settles p c o) ps os)
    (ho : o.IsLongest os) (hperm : ps.Perm ps') :
    ∃ o', (∀ s, greedyChoice ps' c s = .ok o' s) ∧ o'.isSuccess = o.isSuccess ∧
      o'.place.Same o.place ∧
      ∀ v q, o = .success v q → os.countP (Outcome.succeedsAt q) = 1 → o' = o := by
  -- the outcomes of the alternatives are in the other order too
  obtain ⟨os', h', hperm'⟩ := List.perm_comp_forall₂ hperm.symm h
  have hne : os' ≠ [] := by
    rintro rfl
    exact ho.ne_nil hperm'.nil_eq.symm
  obtain ⟨o', ho', hruns⟩ := greedyChoice_isLongest hne h'
  exact ⟨o', hruns, ho.perm (forall_reports h) hperm'.symm ho'⟩

end Step

namespace Parser

variable [Memory σ] {setting : Setting σ} {ps : List (Parser σ)}
  {os : List (Outcome Value)} {c : Context}

/-- The alternative that reaches furthest is a greedy choice, also if there is none. -/
theorem run_longest_eq (ps : List (Parser σ)) :
    (longest ps).run setting = Step.greedyChoice (ps.map (run setting)) := by
  rw [run_eq]
  cases ps with
  | nil => rfl
  | cons p ps =>
    show Step.greedyChoice (evalAll setting _ (p :: ps)) = _
    rw [evalAll_run]

/-- **The longest alternative.** Let each of some alternatives come to an outcome whatever the user
    state is, and report the start or a place after it.  Then the choice of the longest comes to the
    success that reaches furthest, and to the earliest one of those; or, if none succeeds, to a
    failure at the greatest place where one fails.  In whatever order the alternatives are, the
    outcome is of the same kind and at the same place, and it has the same value if only one
    alternative succeeds there. -/
theorem run_longest (hne : ps ≠ [])
    (h : List.Forall₂ (fun p o => (p.run setting).Settles c o) ps os) :
    ∃ o, o.IsLongest os ∧ (∀ s, (longest ps).run setting c s = .ok o s) ∧
      ∀ ps', ps.Perm ps' →
        ∃ o', (∀ s, (longest ps').run setting c s = .ok o' s) ∧ o'.isSuccess = o.isSuccess ∧
          o'.place.Same o.place ∧
          ∀ v q, o = .success v q → os.countP (Outcome.succeedsAt q) = 1 → o' = o := by
  have hsteps : List.Forall₂ (fun p o => Step.Settles p c o) (ps.map (run setting)) os :=
    List.forall₂_map_left_iff.mpr h
  have hne' : os ≠ [] := by
    rintro rfl
    exact hne (List.forall₂_nil_right_iff.mp h)
  simp only [run_longest_eq]
  obtain ⟨o, ho, hruns⟩ := Step.greedyChoice_isLongest hne' hsteps
  refine ⟨o, ho, hruns, fun ps' hperm => ?_⟩
  exact Step.greedyChoice_perm hsteps ho (hperm.map (run setting))

/-- Of three words that begin alike, the longest that is there is found in every order. -/
theorem run_longest_words :
    let c := start (.sequence (.text #['a', 'b', 'c', 'd'])) { levels := 50 }
    let words : List (Parser Unit) :=
      [.literal (.text ['a', 'b']), .literal (.text ['a', 'b', 'c']), .literal (.text ['a', 'c'])]
    ∀ words', words.Perm words' → (longest words').run brackets c () =
    .ok (.success (.text ['a', 'b', 'c']) 3) () := by
  intro c words words' hperm
  have hsettles : List.Forall₂ (fun p o => (p.run brackets).Settles c o) words
      [.success (.text ['a', 'b']) 2, .success (.text ['a', 'b', 'c']) 3,
        .failure (.position 0)] := by
    refine .cons ⟨fun s => ?_, .inr rfl⟩
      (.cons ⟨fun s => ?_, .inr rfl⟩ (.cons ⟨fun s => ?_, .inl rfl⟩ .nil))
    · with_unfolding_all rfl
    · with_unfolding_all rfl
    · with_unfolding_all rfl
  obtain ⟨o, -, hruns, hperms⟩ := run_longest (by simp [words]) hsettles
  -- in the given order, the choice is computed
  have hrun : (longest words).run brackets c () = .ok (.success (.text ['a', 'b', 'c']) 3) () := by
    with_unfolding_all rfl
  obtain rfl : o = .success (.text ['a', 'b', 'c']) 3 := by
    rw [hruns ()] at hrun
    exact (EStateM.Result.ok.inj hrun).1
  obtain ⟨o', hruns', -, -, hone⟩ := hperms words' hperm
  rw [hruns' (), hone _ _ rfl rfl]

end Parser

end Itemwise
