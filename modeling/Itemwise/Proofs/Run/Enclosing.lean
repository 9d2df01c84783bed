import Itemwise.Function.StateFn
import Itemwise.Proofs.Run.Threading
import Mathlib.Data.Set.Card

namespace Itemwise

/-!
# Enclosing runs

Every recursive parser whose run has begun and not ended counts as one level, and a parser that is
run within it finds that many in its context.

* `Stack.height`, `Machine.Enters` — how many computations wait, and whether a recursive parser is
  about to be entered;
* `Machine.enclosing` — the entries whose runs enclose a state of the machine;
* `Machine.Threads` — whatever is done or waits to be done threads the surroundings through, each at
  its own depth;
* `Machine.Threads.step`, `Machine.threads_iterate` — one step keeps to that, and so do all steps of
  a parse;
* `Parser.parse_contexts` — what every parser finds in its context.
-/

variable {σ α β : Type}

/-- How many computations wait for a result. -/
def Stack.height : {α : Type} → Stack σ α → Nat
  | _, .empty => 0
  | _, .push _ rest => rest.height + 1

namespace Machine

/-- How many computations wait for what is done. -/
def height : Machine σ → Nat
  | .running _ stack _ => stack.height
  | .halted _ => 0

/-- The machine is about to enter a recursive parser. -/
def Enters : Machine σ → Prop
  | .running (.await j) _ _ => j.Enters
  | _ => False

/-! ### Entries that enclose a state -/

variable (m : Nat → Machine σ)

/-- The entries into recursive parsers whose runs enclose a state: as the end of a run takes away
    what waited for it, those since which there have always waited as many computations as then. -/
def enclosing (n : Nat) : Set Nat :=
  {i | i < n ∧ (m i).Enters ∧ ∀ k, i < k → k ≤ n → (m i).height ≤ (m k).height}

/-- Those of them that were made with no more than some computations waiting. -/
def enclosingBelow (n g : Nat) : Set Nat := {i | i ∈ enclosing m n ∧ (m i).height ≤ g}

/-- How many there are of them. -/
noncomputable def nesting (n g : Nat) : Int := (enclosingBelow m n g).ncard

variable {m} {n g : Nat}

/-- There are finitely many computations that enclose one, as all of them were made before it. -/
theorem finite_enclosingBelow : (enclosingBelow m n g).Finite :=
  (Set.finite_lt_nat n).subset fun _ hi => hi.1.1

/-- Nothing encloses the first state. -/
theorem nesting_zero : nesting m 0 g = 0 := by
  have hnone : enclosingBelow m 0 g = ∅ :=
    Set.eq_empty_of_forall_notMem fun i hi => Nat.not_lt_zero i hi.1.1
  rw [nesting, hnone, Set.ncard_empty]
  rfl

/-- With all that wait now, there are all entries. -/
theorem nesting_of_height_le (h : (m n).height ≤ g) : nesting m n g = (enclosing m n).ncard := by
  have hall : enclosingBelow m n g = enclosing m n := by
    ext i
    refine ⟨And.left, fun hi => ⟨hi, ?_⟩⟩
    exact Nat.le_trans (hi.2.2 n hi.1 (Nat.le_refl n)) h
  rw [nesting, hall]

/-- An entry made with no more computations waiting than now stays one, and the last state may be a
    new one. -/
theorem mem_enclosingBelow_succ (h : g ≤ (m (n + 1)).height) {i : Nat} :
    i ∈ enclosingBelow m (n + 1) g ↔ i ∈ enclosingBelow m n g ∨ i = n ∧ (m n).Enters ∧
      (m n).height ≤ g := by
  constructor
  · rintro ⟨⟨hi, henters, hlow⟩, hg⟩
    rcases Nat.lt_succ_iff_lt_or_eq.mp hi with hi | rfl
    · exact .inl ⟨⟨hi, henters, fun k hik hk => hlow k hik (Nat.le_succ_of_le hk)⟩, hg⟩
    · exact .inr ⟨rfl, henters, hg⟩
  · rintro (⟨⟨hi, henters, hlow⟩, hg⟩ | ⟨rfl, henters, hg⟩)
    · refine ⟨⟨Nat.lt_succ_of_lt hi, henters, fun k hik hk => ?_⟩, hg⟩
      rcases Nat.le_succ_iff.mp hk with hk | rfl
      · exact hlow k hik hk
      · exact Nat.le_trans hg h
    · refine ⟨⟨Nat.lt_succ_self i, henters, fun k hik hk => ?_⟩, hg⟩
      obtain rfl : k = i + 1 := by omega
      exact Nat.le_trans hg h

/-- A step that makes no run of a recursive parser below some height leaves the count as it is. -/
theorem nesting_succ (h : g ≤ (m (n + 1)).height) (hnot : (m n).Enters → g < (m n).height) :
    nesting m (n + 1) g = nesting m n g := by
  have hsame : enclosingBelow m (n + 1) g = enclosingBelow m n g := by
    ext i
    rw [mem_enclosingBelow_succ h]
    refine or_iff_left ?_
    rintro ⟨-, henters, hg⟩
    exact Nat.not_lt.mpr hg (hnot henters)
  rw [nesting, hsame, nesting]

/-- One that does make such a run adds one. -/
theorem nesting_succ_of_enters (h : g ≤ (m (n + 1)).height) (henters : (m n).Enters)
    (hg : (m n).height ≤ g) :
    nesting m (n + 1) g = nesting m n g + 1 := by
  have hinsert : enclosingBelow m (n + 1) g = insert n (enclosingBelow m n g) := by
    ext i
    rw [mem_enclosingBelow_succ h, Set.mem_insert_iff, or_comm]
    exact or_congr_left (and_iff_left ⟨henters, hg⟩)
  have hnew : n ∉ enclosingBelow m n g := fun hn => Nat.lt_irrefl n hn.1.1
  rw [nesting, hinsert, Set.ncard_insert_of_notMem hnew finite_enclosingBelow, nesting]
  push_cast
  rfl

end Machine

/-! ### The machine threads its surroundings through -/

section Threads

variable (config : Config) (w : Surroundings σ) (depth : Nat → Int)

/-- What waits on a stack threads the surroundings through, each computation at the depth of what
    waits below it. -/
inductive Stack.Threads : {α : Type} → Stack σ α → (α → Prop) → Prop
  | empty {R : Outcome Value → Prop} : Threads .empty R
  | push {α β : Type} {k : α → Task σ β} {rest : Stack σ β} {R : α → Prop} {S : β → Prop}
    (hk : ∀ v, R v → (k v).Threads config w (depth rest.height) S) (hrest : Threads rest S) :
      Threads (.push k rest) R

/-- The machine is in the same user state, and what it does and what waits for it thread the
    surroundings through. -/
def Machine.Threads : Machine σ → Prop
  | .running x stack s =>
    w.same s ∧ ∃ R, x.Threads config w (depth stack.height) R ∧ stack.Threads config w depth R
  | .halted _ => True

end Threads

variable {w : Surroundings σ} {depth depth' : Nat → Int}

/-- What waits on a stack is at the depths below it only. -/
theorem Stack.Threads.congr {config : Config} {stack : Stack σ α} {R : α → Prop}
    (h : stack.Threads config w depth R) (hdepth : ∀ g, g < stack.height → depth' g = depth g) :
    stack.Threads config w depth' R := by
  induction h with
  | empty => exact .empty
  | @push α β k rest R S hk _ ih =>
    refine .push (fun v hv => ?_) (ih fun g hg => hdepth g (Nat.lt_succ_of_lt hg))
    rw [hdepth rest.height (Nat.lt_succ_self _)]
    exact hk v hv

namespace Machine

variable [Memory σ] {setting : Setting σ}

/-- **A step threads the surroundings through.** The depths stay below what waits next, but for that
    of a recursive parser that is entered. -/
theorem Threads.step (hsetting : setting.KeepsTo w.same) {m : Machine σ}
    (h : m.Threads setting.config w depth) (habove : ∀ g, m.height ≤ g → depth g = depth m.height)
    (hsame : ∀ g, g ≤ (m.step setting).height → (m.Enters → g < m.height) → depth' g = depth g)
    (henters : m.Enters → depth' m.height = depth m.height + 1) :
    (m.step setting).Threads setting.config w depth' := by
  cases m with
  | halted r => exact trivial
  | running x stack s =>
    obtain ⟨hs, R, hx, hstack⟩ := h
    have hheight : (running x stack s).height = stack.height := rfl
    rw [hheight] at habove
    cases hx with
    | done hv =>
      cases hstack with
      | empty => exact trivial
      | @push _ β k rest _ S hk hrest =>
        -- what waited goes on, at its own depth
        have hdepth (g : Nat) (hg : g ≤ rest.height) : depth' g = depth g := hsame g hg nofun
        refine ⟨hs, S, ?_, hrest.congr fun g hg => hdepth g (Nat.le_of_lt hg)⟩
        rw [hdepth rest.height (Nat.le_refl _)]
        exact hk _ hv
    | @act _ a _ ha =>
      cases hrun : a s with
      | error f t =>
        have hstep : Machine.step setting (.running (.act a) stack s) = .halted (.error f t) := by
          simp only [Machine.step, hrun]
        rw [hstep]
        exact trivial
      | ok v t =>
        have hstep : Machine.step setting (.running (.act a) stack s) =
            .running (.done v) stack t := by
          simp only [Machine.step, hrun]
        rw [hstep] at hsame ⊢
        have hdepth (g : Nat) (hg : g ≤ stack.height) : depth' g = depth g := hsame g hg nofun
        obtain ⟨ht, hv⟩ := ha s v t hs hrun
        exact ⟨ht, R, .done hv, hstack.congr fun g hg => hdepth g (Nat.le_of_lt hg)⟩
    | @await _ j _ hj hR =>
      have hbelow (g : Nat) (hg : g < stack.height) : depth' g = depth g :=
        hsame g (Nat.le_of_lt hg) fun _ => hg
      refine ⟨hs, R, ?_, hstack.congr hbelow⟩
      by_cases hentered : j.Enters
      · have hdeeper : depth' stack.height = depth stack.height + 1 := henters hentered
        rw [hdeeper]
        exact (hj.threads_enters hsetting hentered).imp fun v _ => hR v
      · have hdepth : depth' stack.height = depth stack.height :=
          hsame stack.height (Nat.le_refl _) fun h => absurd h hentered
        rw [hdepth]
        exact (hj.threads hentered).imp fun v _ => hR v
    | @andThen _ _ x k S _ hx hk =>
      -- what is done now is at the depth of what waits for it
      have hdepth (g : Nat) (hg : g ≤ stack.height + 1) : depth' g = depth g := hsame g hg nofun
      refine ⟨hs, S, ?_, .push (fun v hv => ?_) (hstack.congr fun g hg => hdepth g (by omega))⟩
      · show Task.Threads setting.config w (depth' (stack.height + 1)) x S
        rw [hdepth _ (Nat.le_refl _), habove _ (Nat.le_succ _)]
        exact hx
      · rw [hdepth _ (Nat.le_succ _)]
        exact hk v hv

/-- An entry itself leaves as many computations waiting as before. -/
theorem height_step_of_enters {m : Machine σ} (h : m.Enters) :
    (m.step setting).height = m.height := by
  cases m with
  | halted r => exact h.elim
  | running x stack s =>
    cases x with
    | await j => rfl
    | _ => exact h.elim

/-- From a state at no depth on, the machine threads the surroundings through, and each depth is the
    number of entries that enclose what is done there. -/
theorem threads_steps (hsetting : setting.KeepsTo w.same) {m : Nat → Machine σ}
    (hm : ∀ n, m (n + 1) = (m n).step setting) (h : (m 0).Threads setting.config w fun _ => 0)
    (n : Nat) : (m n).Threads setting.config w (nesting m n) := by
  induction n with
  | zero =>
    have hzero : nesting m 0 = fun _ => 0 := funext fun _ => nesting_zero
    rw [hzero]
    exact h
  | succ n ih =>
    rw [hm]
    refine ih.step hsetting (fun g hg => ?_) (fun g hg hnot => ?_) fun henters => ?_
    · rw [nesting_of_height_le hg, nesting_of_height_le (Nat.le_refl _)]
    · rw [← hm] at hg
      exact nesting_succ hg hnot
    · refine nesting_succ_of_enters ?_ henters (Nat.le_refl _)
      rw [hm, height_step_of_enters henters]

end Machine

/-! ### Parses -/

/-- A task done on an empty stack halts the machine with what comes of it. -/
theorem Does.halts [Memory σ] {setting : Setting σ} {x : Task σ (Outcome Value)}
    {a : Action σ (Outcome Value)} {s : σ} (h : Does setting x a s) :
    ∃ n, (Machine.step setting)^[n] (.running x .empty s) = .halted (a s) := by
  obtain ⟨n, hn⟩ := h .empty
  cases ha : a s with
  | ok o t =>
    rw [ha] at hn
    refine ⟨n + 1, ?_⟩
    rw [Function.iterate_succ_apply', hn]
    rfl
  | error f t =>
    rw [ha] at hn
    exact ⟨n, hn⟩

/-- The states of the machine in a parse under a requested limit, one after the other. -/
def Machine.parsing [Memory σ] (setting : Setting σ) (p : Parser σ) (items : Input) (d : Int)
    (s : σ) (n : Nat) : Machine σ :=
  (Machine.step setting)^[n] (Machine.parse p items (Depth.limit (some d)) s)

namespace Parser

variable [Memory σ] {setting : Setting σ} {p : Parser σ} {s : σ}

/-- A parse begins at no depth, in the user state that is given. -/
theorem threads_parsing {same : σ → Prop} (hs : same s) (hp : p.KeepsTo setting.config same)
    (items : Input) (d : Int) :
    (Machine.parsing setting p items d s 0).Threads setting.config
    ⟨items, { levels := min d 59 }, same⟩ fun _ => 0 := by
  refine ⟨hs, fun _ => True, ?_, .empty⟩
  refine .andThen (S := fun l => Depth.limit (some d) = .ok l) (.act fun s' l t hs' hl => ?_)
    fun l hl => ?_
  · exact ⟨Action.preserves_ofExcept _ s' l t hs' hl, ofExcept_eq_ok hl⟩
  · obtain ⟨hd, rfl⟩ := Depth.limit_eq_ok hl
    refine Task.threads_run hp ⟨rfl, rfl, rfl, ?_⟩
    show 0 ≤ min d 59
    omega

/-- **What every parser finds.** Let the functions of a caller never replace the user state by
    another one.  Whenever a parse under a requested limit has come to run some parser, wherever in
    the tree that is, the context of the run has the input of the parse and the requested limit, or
    59 if that is less; the user state is still the same; and the depth is the number of recursive
    parsers whose runs enclose this one, which does not exceed the limit.  And if no step of a
    caller goes back, the machine comes to what the parse comes to. -/
theorem parse_contexts {ι : Type} (object : σ → ι)
    (hsetting : setting.KeepsTo fun t => object t = object s)
    (hp : p.KeepsTo setting.config fun t => object t = object s) (items : Input) (d : Int) :
    (∀ n q c stack u, Machine.parsing setting p items d s n = .running (.await (.run q c)) stack u →
        c.items = items ∧ object u = object s ∧ c.limit = { levels := min d 59 } ∧
          c.depth = (Machine.enclosing (Machine.parsing setting p items d s) n).ncard ∧
            c.depth ≤ c.limit.levels) ∧
      (setting.Each MovesForward → p.Each MovesForward →
        ∃ n, Machine.parsing setting p items d s n =
          .halted (p.parse setting items (Depth.limit (some d)) s)) := by
  constructor
  · intro n q c stack u hn
    have hstart : (Machine.parsing setting p items d s 0).Threads setting.config
        ⟨items, { levels := min d 59 }, fun t => object t = object s⟩ fun _ => 0 := by
      refine threads_parsing ?_ hp items d
      rfl
    have hthreads := Machine.threads_steps hsetting
      (fun k => Function.iterate_succ_apply' _ k _) hstart n
    -- what the machine waits for here is a run at the depth of what waits below it
    have hheight : (Machine.parsing setting p items d s n).height ≤ stack.height := by
      rw [hn]; exact Nat.le_refl _
    have hnesting := Machine.nesting_of_height_le hheight
    rw [hn] at hthreads
    obtain ⟨hu, R, hrun, -⟩ := hthreads
    cases hrun with
    | await hj _ =>
      obtain ⟨-, hc⟩ := hj
      have hlevels : c.depth ≤ c.limit.levels := by
        rw [hc.atDepth, hc.sameLimit]
        exact hc.withinLimit
      exact ⟨hc.sameItems, hu, hc.sameLimit, hc.atDepth.trans hnesting, hlevels⟩
  · intro hsetting hp
    have hdoes : Does setting (Task.act (Action.ofExcept (Depth.limit (some d))) >>=
        fun limit => Task.run p (start items limit))
          (p.parse setting items (Depth.limit (some d))) s :=
      (does_act _).andThen fun l t _ => (performs hsetting (start items l).levels hp).does _ t
      (Nat.zero_le _) (Nat.le_refl _)
    exact hdoes.halts

/-- A function of the user state of a session changes what it holds, but it stays the same value. -/
theorem preserves_run (f : StateFn) (v : Value) (session : Session) :
    (f.run v).Preserves fun t => t.state = session.state := by
  intro s w t hs h
  obtain ⟨state, store⟩ := s
  simp only [StateFn.run, Session.onState] at h
  split at h
  · cases h
    exact hs
  · cases h

/-- Brackets around nothing or brackets, which leave a mark in the user state for each pair within
    them. -/
def marked : Parser Session :=
  .optional (.between (.char '(') (.liftToState StateFn.append.run (.forward "marked")) (.char ')'))

/-- The grammar in which every declaration is that of marked brackets. -/
def markedBrackets : Setting Session where
  config := {}
  grammar := { rule := fun _ _ => throw .missingKey, forward := fun _ => some marked }

/-- At the closing bracket the run of the inner brackets has ended, and only that of the outer ones
    encloses it. -/
theorem parse_contexts_closing :
    ∃ c stack u, Machine.parsing markedBrackets (.forward "marked") (.sequence (.text #['(', ')']))
        5 (.ofState (.list [])) 40 = .running (.await (.run (.char ')') c)) stack u ∧ c.depth = 1 ∧
          u.state = (Session.ofState (.list [])).state ∧
      (Machine.enclosing (Machine.parsing markedBrackets (.forward "marked")
        (.sequence (.text #['(', ')'])) 5 (.ofState (.list []))) 40).ncard = 1 := by
  have heach : marked.Each fun q => q.Preserves fun t => t.state =
      (Session.ofState (.list [])).state := by
    refine .node trivial fun q hq => ?_
    cases hq with
    | optional =>
      refine .node trivial fun q hq => ?_
      cases hq with
      | sequence hq =>
        simp only [List.mem_cons, List.not_mem_nil, or_false] at hq
        rcases hq with rfl | rfl | rfl
        · exact .node trivial nofun
        · refine .node (fun v => preserves_run .append v _) fun q hq => ?_
          cases hq with
          | liftToState => exact .node trivial nofun
        · exact .node trivial nofun
  have hsetting : markedBrackets.KeepsTo fun t => t.state = (Session.ofState (.list [])).state := by
    constructor
    · rintro r s p t hs ⟨⟩
    · rintro name _ ⟨⟩
      exact .of_each heach
  obtain ⟨hcontexts, -⟩ :=
    parse_contexts Session.state hsetting
      (.node trivial nofun : (Parser.forward "marked").KeepsTo _ _)
      (.sequence (.text #['(', ')'])) 5
  obtain ⟨stack, u, hn⟩ : ∃ stack u,
      Machine.parsing markedBrackets (.forward "marked") (.sequence (.text #['(', ')'])) 5
        (.ofState (.list [])) 40 =
          .running (.await (.run (.char ')')
            ⟨.sequence (.text #['(', ')']), 1, 1, { levels := 5 }⟩)) stack u := by
    apply Exists.intro
    apply Exists.intro
    with_unfolding_all rfl
  obtain ⟨-, hu, -, hdepth, -⟩ := hcontexts 40 _ _ _ _ hn
  exact ⟨_, stack, u, hn, rfl, hu, Int.ofNat.inj hdepth.symm⟩

end Parser

end Itemwise
