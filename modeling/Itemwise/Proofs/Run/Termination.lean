import Itemwise.Proofs.Run.Machine
import Itemwise.Proofs.Run.Unfolding
import Itemwise.Proofs.Run.Within
import Mathlib.Logic.Function.Iterate

namespace Itemwise

/-!
# Termination

The machine halts on every parser, and with what the bounded steps come to.

* `Does` — the machine gets through a task, and the task does what an action does;
* `Performs` — it gets through a parser in all contexts that allow no more than some levels;
* `does_rounds`, `does_operands`, `does_scan` — the loops end, as each round but the last leaves
  fewer items;
* `Parser.parse_terminates` — every parse ends, by induction on the levels that are left and on the
  tree of the parser.
-/

/-- No step given by a caller succeeds before where it was run, or behind the end of the input,
    where no cursor can be. -/
def Parser.MovesForward {σ : Type} : Parser σ → Prop
  | .raw run _ =>
    ∀ c s v q t, c.pos ≤ c.items.size → run c s = .ok (.success v q) t → c.pos ≤ q ∧
    q ≤ c.items.size
  | _ => True

variable {σ : Type} [Memory σ] (setting : Setting σ) {α β : Type}

/-! ### Getting through tasks -/

/-- From a state the machine gets through a task, whatever waits for its result, and does what an
    action does. -/
def Does (x : Task σ α) (a : Action σ α) (s : σ) : Prop :=
  ∀ stack, ∃ n, (Machine.step setting)^[n] (.running x stack s) =
    match a s with
    | .ok v t => .running (.done v) stack t
    | .error f t => .halted (.error f t)

variable {setting} {s : σ}

/-- The machine is done with a task that is done. -/
theorem does_done (v : α) : Does setting (.done v) (pure v) s := fun _ => ⟨0, rfl⟩

/-- It gets through an action in one step. -/
theorem does_act (a : Action σ α) : Does setting (.act a) a s := fun _ => ⟨1, rfl⟩

/-- It gets through a job that is waited for if it gets through what the job is made of. -/
theorem Does.await {j : Job σ α} {a : Action σ α} (h : Does setting (j.task setting) a s) :
    Does setting (.await j) a s := by
  intro stack
  obtain ⟨n, hn⟩ := h stack
  exact ⟨n + 1, hn⟩

/-- A task whose fault has halted the machine stays halted, and otherwise its result goes on to what
    waits for it. -/
theorem Does.andThen {x : Task σ α} {a : Action σ α} {k : α → Task σ β} {l : α → Action σ β}
    (hx : Does setting x a s) (hk : ∀ v t, a s = .ok v t → Does setting (k v) (l v) t) :
    Does setting (x >>= k) (a >>= l) s := by
  intro stack
  show ∃ n, (Machine.step setting)^[n] (.running (.andThen x k) stack s) =
      match EStateM.bind a l s with
    | .ok v t => .running (.done v) stack t
    | .error f t => .halted (.error f t)
  obtain ⟨m, hm⟩ := hx (.push k stack)
  cases ha : a s with
  | error f t =>
    rw [ha] at hm
    refine ⟨m + 1, ?_⟩
    rw [EStateM.bind, ha]
    exact hm
  | ok v t =>
    rw [ha] at hm
    obtain ⟨n, hn⟩ := hk v t ha stack
    -- One step pushes the continuation, `m` steps do the first task, and one step pops the
    -- continuation.
    refine ⟨n + (m + 2), ?_⟩
    have hreached : (Machine.step setting)^[m + 2] (.running (.andThen x k) stack s) =
        .running (k v) stack t := by
      rw [Function.iterate_succ_apply', Function.iterate_succ_apply]
      exact congrArg (Machine.step setting) hm
    rw [Function.iterate_add_apply, hreached, hn, EStateM.bind, ha]

/-! ### Getting through parsers -/

variable (setting) in
/-- Wherever no more than some levels are left, the machine gets through a parser; the parser never
    goes back. -/
structure Performs (levels : Nat) (p : Parser σ) : Prop where
  does : ∀ c s, c.pos ≤ c.items.size → c.levels ≤ levels →
    Does setting (Task.run p c) (p.run setting c) s
  forward : ∀ c s v q t, c.pos ≤ c.items.size → p.run setting c s = .ok (.success v q) t →
    c.pos ≤ q ∧ q ≤ c.items.size

variable {levels : Nat} {p : Parser σ} {c : Context} (hc : c.pos ≤ c.items.size)
  (hlevels : c.levels ≤ levels)

include hc hlevels in
/-- A task that runs a parser first, and goes on from where it stopped. -/
theorem Performs.andThen (hp : Performs setting levels p) {k : Outcome Value → Task σ β}
    {l : Outcome Value → Action σ β}
    (hsuccess : ∀ v q t, c.pos ≤ q → q ≤ c.items.size →
      Does setting (k (.success v q)) (l (.success v q)) t)
    (hfailure : ∀ x t, Does setting (k (.failure x)) (l (.failure x)) t) :
    Does setting (Task.run p c >>= k) (p.run setting c >>= l) s := by
  refine (hp.does c s hc hlevels).andThen fun o t ho => ?_
  cases o with
  | success v q =>
    have hq := hp.forward c s v q t hc ho
    exact hsuccess v q t hq.1 hq.2
  | failure x => exact hfailure x t

include hc hlevels in
/-- It gets through collecting the values of parts that it gets through. -/
theorem does_collect {ps : List (Parser σ)} (hps : ∀ p ∈ ps, Performs setting levels p) :
    Does setting (Task.collect ps c) (Step.collect (ps.map (Parser.run setting)) c) s := by
  induction ps generalizing c s with
  | nil => exact does_done _
  | cons p ps ih =>
    refine (hps p List.mem_cons_self).andThen hc hlevels (fun v q t _ hq => ?_)
      fun x t => does_done _
    refine (ih (c := c.moveTo q) hq hlevels fun p hp => hps p (List.mem_cons_of_mem _ hp)).andThen
      fun o u _ => ?_
    cases o with
    | success vs r => exact does_done _
    | failure x => exact does_done _

include hc hlevels in
/-- The same for what is left of a counted repetition. -/
theorem does_again (hp : Performs setting levels p) (n : Nat) :
    Does setting (Task.again p n c) (Step.again (p.run setting) n c) s := by
  induction n generalizing c s with
  | zero => exact does_done _
  | succ n ih =>
    exact hp.andThen hc hlevels (fun v q t _ hq => ih (c := c.moveTo q) hq hlevels)
      fun x t => does_done _

include hc hlevels in
/-- The same for alternatives that are asked one after the other. -/
theorem does_choiceAfter {ps : List (Parser σ)} (hps : ∀ p ∈ ps, Performs setting levels p)
    (last : Place) :
    Does setting (Task.choiceAfter last ps c)
      (Step.choiceAfter last (ps.map (Parser.run setting)) c) s := by
  induction ps generalizing last s with
  | nil => exact does_done _
  | cons p ps ih =>
    refine (hps p List.mem_cons_self).andThen hc hlevels
      (fun v q t _ _ => does_done _) fun x t => ?_
    dsimp only
    split
    · exact ih (fun p hp => hps p (List.mem_cons_of_mem _ hp)) x
    · exact does_done _

include hc hlevels in
/-- The same for the furthest of some alternatives. -/
theorem does_best {ps : List (Parser σ)} (hps : ∀ p ∈ ps, Performs setting levels p)
    (known : Outcome Value) :
    Does setting (Task.best ps known c) (Step.best (ps.map (Parser.run setting)) known c) s := by
  induction ps generalizing known s with
  | nil => exact does_done _
  | cons p ps ih =>
    refine ((hps p List.mem_cons_self).does c s hc hlevels).andThen fun o t _ => ?_
    exact ih (fun p hp => hps p (List.mem_cons_of_mem _ hp)) _

/-- The machine selects the parser whose step is selected. -/
theorem select_map (arms : List (Test × Parser σ)) (default : Option (Parser σ)) (v : Value) :
    Step.select (arms.map fun arm => (arm.1, arm.2.run setting))
        (default.map (Parser.run setting)) v =
      (Task.select arms default v).map (Option.map (Parser.run setting)) := by
  induction arms with
  | nil => rfl
  | cons arm arms ih =>
    rw [List.map_cons, Step.select, Task.select]
    cases arm.1 v with
    | error f => rfl
    | ok b =>
      cases b with
      | true => rfl
      | false => exact ih

omit [Memory σ] in
/-- What is selected is one of the arms or the default. -/
theorem mem_of_select {arms : List (Test × Parser σ)} {default : Option (Parser σ)} {v : Value}
    {r : Parser σ} (h : Task.select arms default v = .ok (some r)) :
    (∃ test, (test, r) ∈ arms) ∨ default = some r := by
  induction arms with
  | nil => exact .inr (Except.ok.inj h)
  | cons arm arms ih =>
    rw [Task.select] at h
    split at h
    · cases h
    · cases h
      exact .inl ⟨arm.1, List.mem_cons_self⟩
    · exact (ih h).imp_left fun ⟨test, htest⟩ => ⟨test, List.mem_cons_of_mem _ htest⟩

/-! ### Loops -/

include hlevels in
/-- A repetition ends: each round but the last goes on from further, and there are no more rounds
    than items. -/
theorem does_rounds (hp : Performs setting levels p) {separator : Option (Parser σ)}
    (hseparator : ∀ q, separator = some q → Performs setting levels q) (sink : Sink σ) (fuel : Nat)
    {t : Tally sink.Acc} (ht : t.pos ≤ c.items.size) (hfuel : c.items.size - t.pos < fuel) :
    Does setting (.await (.rounds p separator sink c t))
      (Step.gather (p.run setting) (separator.map (Parser.run setting)) sink fuel c t) s := by
  -- The fuel stays above the number of items ahead, so that it never runs out.
  induction fuel generalizing t s with
  | zero => omega
  | succ fuel ih =>
    refine Does.await (hp.andThen (c := c.moveTo t.pos) ht hlevels (fun v q u hlow hq => ?_)
      fun x u => ?_)
    · have hlow : t.pos ≤ q := hlow
      have hq : q ≤ c.items.size := hq
      dsimp only
      split
      · exact does_done _
      · refine (does_act _).andThen fun r u' _ => ?_
        obtain ⟨acc, room⟩ := r
        cases room with
        | false => exact does_done _
        | true =>
          cases separator with
          | none => exact ih hq (by show c.items.size - q < fuel; omega)
          | some r =>
            refine (hseparator r rfl).andThen (c := c.moveTo q) hq hlevels
              (fun w i u'' hlow' hi => ?_) fun x u'' => ?_
            · have hlow' : q ≤ i := hlow'
              exact ih hi (by show c.items.size - i < fuel; omega)
            · dsimp only
              split <;> exact does_done _
    · dsimp only
      split <;> exact does_done _

include hlevels in
/-- A chain ends, as a round that does not go further is the last. -/
theorem does_operands {op : Parser σ} (hp : Performs setting levels p)
    (hop : Performs setting levels op) (combine : Value → Value → Value → Action σ Value)
    (fuel : Nat) {v : Value} {pos : Nat} (hpos : pos ≤ c.items.size)
    (hfuel : c.items.size - pos < fuel) :
    Does setting (.await (.operands p op combine c v pos))
      (Step.foldRounds (p.run setting) (op.run setting) combine fuel c v pos) s := by
  induction fuel generalizing v pos s with
  | zero => omega
  | succ fuel ih =>
    refine Does.await (hop.andThen (c := c.moveTo pos) hpos hlevels (fun f q t hlow hq => ?_)
      fun x t => ?_)
    · have hlow : pos ≤ q := hlow
      refine hp.andThen (c := c.moveTo q) hq hlevels (fun w r t hlow' hr => ?_) fun x t => ?_
      · have hlow' : q ≤ r := hlow'
        have hr : r ≤ c.items.size := hr
        dsimp only
        split
        · exact does_done _
        · exact (does_act _).andThen fun next u _ => ih hr (by omega)
      · dsimp only
        split <;> exact does_done _
    · dsimp only
      split <;> exact does_done _

omit [Memory σ] in
/-- Computations that do not touch the user state may be put together before they are run. -/
theorem ofExcept_bind (a : Except Fault α) (k : α → Except Fault β) :
    (Action.ofExcept (a >>= k) : Action σ β) = Action.ofExcept a >>= fun v =>
      Action.ofExcept (k v) := by
  cases a <;> rfl

omit [Memory σ] in
/-- A result may be changed before or after such a computation is run. -/
theorem ofExcept_map_bind {γ : Type} (a : Except Fault α) (g : α → β) (l : β → Action σ γ) :
    (Action.ofExcept (a.map g) >>= l) = Action.ofExcept a >>= fun v => l (g v) := by
  cases a <;> rfl

omit [Memory σ] in
/-- Such a computation has its result in any state. -/
theorem ofExcept_eq_ok {a : Except Fault α} {v : α} {t : σ} (h : Action.ofExcept a s = .ok v t) :
    a = .ok v := by
  cases a with
  | ok w =>
    cases h
    rfl
  | error f => cases h

/-- A scan for an item that a test does not accept ends with the input. -/
theorem does_scan (test : Value → Except Fault Bool) (items : Input) (left pos : Nat)
    (hleft : items.size - pos = left) :
    Does setting (.await (.scan test items pos))
      (Action.ofExcept (Leaf.scanWhile items test left pos)) s := by
  induction left generalizing pos s with
  | zero =>
    have hnone := items.item?_of_size_le pos (Nat.le_of_sub_eq_zero hleft)
    have hstop : Action.ofExcept (Leaf.scanWhile items test 0 pos) =
        (Action.ofExcept (items.item? pos) >>= fun _ => pure pos : Action σ Nat) := by
      rw [hnone]
      rfl
    rw [hstop]
    refine Does.await ((does_act _).andThen fun o t ho => ?_)
    rw [hnone] at ho
    cases ho
    exact does_done _
  | succ left ih =>
    rw [Leaf.scanWhile, ofExcept_bind]
    refine Does.await ((does_act _).andThen fun o t _ => ?_)
    cases o with
    | none => exact does_done _
    | some v =>
      dsimp only
      rw [ofExcept_bind]
      refine (does_act _).andThen fun b t _ => ?_
      cases b with
      | true => exact ih (pos + 1) (by omega)
      | false => exact does_done _

/-! ### Trees -/

/-- The machine gets through a parser if it gets through its parts and the parsers one level
    deeper. -/
theorem does_ofParser (hp : p.Each Parser.MovesForward)
    (hparts : ∀ q, q.IsPart p → Performs setting levels q)
    (hdescend : ∀ target : Action σ (Parser σ),
      (∀ s q t, target s = .ok q t → q.Each Parser.MovesForward) →
      ∀ s, Does setting (Task.descend target c) (Step.descend target (Parser.run setting) c) s)
    (hsetting : setting.Each Parser.MovesForward) (hc : c.pos ≤ c.items.size)
    (hlevels : c.levels ≤ levels) (s : σ) :
    Does setting (Task.ofParser setting c p) (p.run setting c) s := by
  -- The parts run as they do on their own, so that the machine may run them one by one.
  rw [Parser.run_eq setting p]
  cases p with
  | itemWhile p =>
    show Does setting _ (Step.seeing (Leaf.itemWhile p.holds) c) s
    refine (does_act _).andThen fun s' t _ => ?_
    rw [Leaf.itemWhile, ofExcept_bind]
    refine (does_scan _ c.items c.remaining c.pos rfl).andThen fun stop t _ => ?_
    rw [ofExcept_bind]
    exact (does_act _).andThen fun v t _ => does_act _
  | raw run name => exact does_act _
  | unbuilt f => exact does_act _
  | map p f =>
    show Does setting _ (Step.map f (p.eval setting _) c) s
    rw [Parser.eval_run]
    exact (hparts p .map).andThen hc hlevels
      (fun v q t _ _ => (does_act _).andThen fun _ _ _ => does_done _) fun x t => does_done _
  | liftToState f p =>
    show Does setting _ (Step.map f (p.eval setting _) c) s
    rw [Parser.eval_run]
    exact (hparts p .liftToState).andThen hc hlevels
      (fun v q t _ _ => (does_act _).andThen fun _ _ _ => does_done _) fun x t => does_done _
  | mapIf p f =>
    show Does setting _ (Step.mapIf f (p.eval setting _) c) s
    rw [Parser.eval_run]
    refine (hparts p .mapIf).andThen hc hlevels
      (fun v q t _ _ => (does_act _).andThen fun w u _ => ?_) fun x t => does_done _
    cases w <;> exact does_done _
  | filter p test =>
    show Does setting _ (Step.filter test (p.eval setting _) c) s
    rw [Parser.eval_run]
    refine (hparts p .filter).andThen hc hlevels
      (fun v q t _ _ => (does_act _).andThen fun w u _ => ?_) fun x t => does_done _
    refine (does_act _).andThen fun b u _ => ?_
    cases b <;> exact does_done _
  | notEmpty p =>
    show Does setting _ (Step.notEmpty (p.eval setting _) c) s
    rw [Parser.eval_run]
    refine (hparts p .notEmpty).andThen hc hlevels
      (fun v q t _ _ => (does_act _).andThen fun w u _ => ?_) fun x t => does_done _
    refine (does_act _).andThen fun n u _ => ?_
    split <;> exact does_done _
  | bind p next =>
    show Does setting _ (Step.bind (p.eval setting _)
        (fun s v => (next setting.config s v).eval setting _) c) s
    rw [Parser.eval_run]
    refine (hparts p .bound).andThen hc hlevels
      (fun v q t _ hq => (does_act _).andThen fun s' u _ => ?_) fun x t => does_done _
    have hnext : (next setting.config s' v).IsPart (.bind p next) := .next setting.config s' v
    exact (hparts _ hnext).does (c.moveTo q) u hq hlevels
  | sequence kind ps =>
    show Does setting _ (Step.sequence kind (Parser.evalAll setting _ ps) c) s
    rw [Parser.evalAll_run]
    refine (does_collect hc hlevels fun q hq => hparts q (.sequence hq)).andThen fun o t _ => ?_
    cases o with
    | success vs q => exact (does_act _).andThen fun _ _ _ => does_done _
    | failure x => exact does_done _
  | times n p =>
    show Does setting _ (Step.times n (p.eval setting _) c) s
    rw [Parser.eval_run]
    refine (does_again hc hlevels (hparts p .times) n).andThen fun o t _ => ?_
    cases o with
    | success v q => exact (does_act _).andThen fun _ _ _ => does_done _
    | failure x => exact does_done _
  | choice ps =>
    show Does setting _ (Step.choice (Parser.evalAll setting _ ps) c) s
    rw [Parser.evalAll_run]
    exact does_choiceAfter hc hlevels (fun q hq => hparts q (.choice hq)) _
  | greedyChoice ps =>
    show Does setting _ (Step.greedyChoice (Parser.evalAll setting _ ps) c) s
    rw [Parser.evalAll_run]
    exact does_best hc hlevels (fun q hq => hparts q (.greedyChoice hq)) _
  | choose p arms default =>
    show Does setting _ (Step.choose (p.eval setting _) (Parser.evalArms setting _ arms)
      (Parser.evalOption setting _ default) c) s
    rw [Parser.eval_run, Parser.evalArms_run, Parser.evalOption_run]
    refine (hparts p .chosenBy).andThen hc hlevels
      (fun v q t _ hq => (does_act _).andThen fun w u _ => ?_) fun x t => does_done _
    rw [select_map, ofExcept_map_bind]
    refine (does_act _).andThen fun r u' hr => ?_
    cases r with
    | none => exact does_done _
    | some r =>
      have hselected : Task.select arms default w = .ok (some r) := ofExcept_eq_ok hr
      have hpartr : r.IsPart (.choose p arms default) := by
        rcases mem_of_select hselected with ⟨test, htest⟩ | rfl
        · exact .arm htest
        · exact .default
      exact (hparts r hpartr).does (c.moveTo q) u' hq hlevels
  | attempt p =>
    show Does setting _ (Step.attempt (p.eval setting _) c) s
    rw [Parser.eval_run]
    refine (hparts p .attempt).andThen hc hlevels (fun v q t _ _ => does_done _) fun x t => ?_
    dsimp only
    split <;> exact does_done _
  | optional p =>
    show Does setting _ (Step.optional (p.eval setting _) c) s
    rw [Parser.eval_run]
    refine (hparts p .optional).andThen hc hlevels (fun v q t _ _ => does_done _) fun x t => ?_
    dsimp only
    split <;> exact does_done _
  | peek p =>
    show Does setting _ (Step.peek (p.eval setting _) c) s
    rw [Parser.eval_run]
    exact (hparts p .peek).andThen hc hlevels (fun v q t _ _ => does_done _) fun x t => does_done _
  | notFollowedBy p =>
    show Does setting _ (Step.notFollowedBy (p.eval setting _) c) s
    rw [Parser.eval_run]
    exact (hparts p .notFollowedBy).andThen hc hlevels (fun v q t _ _ => does_done _)
      fun x t => does_done _
  | measure m p =>
    show Does setting _ (Step.measure m (p.eval setting _) c) s
    rw [Parser.eval_run]
    exact (hparts p .measure).andThen hc hlevels
      (fun v q t _ _ => (does_act _).andThen fun _ _ _ => does_done _) fun x t => does_done _
  | eat p =>
    show Does setting _ (Step.eat (p.eval setting _) c) s
    rw [Parser.eval_run]
    refine (does_act _).andThen fun start t hstart => ?_
    have hblanks := Leaf.yields_skipBlanks (F := fun _ => True) (fun _ _ => trivial) c.items hc
    rw [ofExcept_eq_ok hstart] at hblanks
    split
    · exact (hparts p .eat).does c t hc hlevels
    · refine (hparts p .eat).andThen (c := c.moveTo start) hblanks.2 hlevels
        (fun v q u _ _ => does_done _) fun x u => ?_
      dsimp only
      split <;> exact does_done _
  | many p separator trailing sink n =>
    show Does setting _ (Step.many (p.eval setting _) (Parser.evalOption setting _ separator)
        trailing sink n c) s
    rw [Parser.eval_run, Parser.evalOption_run]
    refine (does_act _).andThen fun acc t _ => ?_
    refine (does_rounds hlevels (hparts p .element) ?separator sink _ hc
      (c.lt_mostRounds _)).andThen fun g u _ => ?_
    case separator =>
      rintro q rfl
      exact hparts q .separator
    cases g with
    | broken x => exact does_done _
    | stopped t =>
      dsimp only
      split
      · exact does_done _
      · split
        · exact does_done _
        · split
          · exact (does_act _).andThen fun _ _ _ => does_done _
          · exact (does_act _).andThen fun _ _ _ => does_done _
  | chain p op combine =>
    show Does setting _ (Step.chain (p.eval setting _) (op.eval setting _) combine c) s
    rw [Parser.eval_run]
    refine (hparts p .operand).andThen hc hlevels (fun v q t _ hq => ?_) fun x t => does_done _
    exact does_operands hlevels (hparts p .operand) (hparts op .operator) combine _ hq
      (c.lt_mostRounds q)
  | defer rule label => exact hdescend _ (hsetting.rule rule) s
  | forward name =>
    simp only [Task.ofParser, Parser.eval]
    cases hforward : setting.grammar.forward name with
    | none => exact does_act _
    | some p =>
      refine hdescend _ ?_ s
      rintro s _ t ⟨⟩
      exact hsetting.forward name p hforward
  | named p name =>
    show Does setting _ (p.eval setting _ c) s
    rw [Parser.eval_run]
    exact (hparts p .named).does c s hc hlevels
  | inState t p =>
    show Does setting _ (Step.inState t (p.eval setting _) c) s
    rw [Parser.eval_run]
    exact (does_act _).andThen fun _ u _ => (hparts p .inState).does c u hc hlevels
  | _ => exact does_act _

/-! ### Runs -/

/-- Runs never go back. -/
theorem Parser.run_forward (hsetting : setting.Each MovesForward) (hp : p.Each MovesForward)
    {c : Context} {v : Value} {q : Nat} {t : σ} (hc : c.pos ≤ c.items.size)
    (h : p.run setting c s = .ok (.success v q) t) :
    c.pos ≤ q ∧ q ≤ c.items.size := by
  have hkept (q : Parser σ) (hq : q.MovesForward) : Coupling.IsKept (fun _ => True) False q := by
    refine ⟨q.raisesOnly_true, ?_⟩
    cases q with
    | raw run name =>
      intro c s o t hc ho
      cases o with
      | success v i => exact hq c s v i t hc ho
      | failure x => exact False.elim
    | _ => trivial
  have hkeeps := run_keeps (fun _ _ => trivial) (hsetting.imp hkept)
    (fun r => Action.raisesOnly_true _) (hp.imp hkept) hc s
  rw [h] at hkeeps
  exact hkeeps

/-- The machine gets through every parser, by induction on the levels that are left and then on the
    tree. -/
theorem performs (hsetting : setting.Each Parser.MovesForward) (levels : Nat)
    (hp : p.Each Parser.MovesForward) :
    Performs setting levels p := by
  induction levels using Nat.strongRecOn generalizing p with
  | ind levels ihlevels =>
    induction hp with
    | @node p h hparts ih =>
      have hp : p.Each Parser.MovesForward := .node h hparts
      refine ⟨fun c s hc hlevels => Does.await ?_, fun c s v q t => Parser.run_forward hsetting hp⟩
      refine does_ofParser hp ih (fun target htarget s => ?_) hsetting hc hlevels s
      unfold Task.descend Step.descend
      by_cases hreached : c.isDepthExceeded = true
      · rw [if_pos hreached, if_pos hreached]
        exact does_act _
      · -- the entry takes a level, so the recursive parser has less of them
        have hlevel := Context.levels_eq_succ hreached
        rw [if_neg hreached, if_neg hreached]
        refine (does_act _).andThen fun q t hq => ?_
        exact (ihlevels c.enter.levels (by omega) (htarget s q t hq)).does c.enter t hc
          (Nat.le_refl _)

/-- **Every parse terminates.** The machine, which bounds neither the levels nor the rounds of
    loops, halts after finitely many steps on every parser, grammar, input, limit and user state,
    and with what the parse comes to. -/
theorem Parser.parse_terminates (hsetting : setting.Each MovesForward) (hp : p.Each MovesForward)
    (items : Input) (limit : Except Fault Limit) (s : σ) :
    ∃ n, (Machine.step setting)^[n] (Machine.parse p items limit s) =
      .halted (p.parse setting items limit s) := by
  have hdoes : Does setting
      (.andThen (.act (Action.ofExcept limit)) fun limit => Task.run p (start items limit))
      (p.parse setting items limit) s := by
    refine (does_act _).andThen fun l t _ => ?_
    exact (performs hsetting (start items l).levels hp).does _ t (Nat.zero_le _) (Nat.le_refl _)
  obtain ⟨n, hn⟩ := hdoes .empty
  cases hparse : p.parse setting items limit s with
  | ok o t =>
    rw [hparse] at hn
    refine ⟨n + 1, ?_⟩
    rw [Function.iterate_succ_apply', Machine.parse, hn]
    rfl
  | error f t =>
    rw [hparse] at hn
    exact ⟨n, hn⟩

/-- A grammar in which every declaration begins with itself, over and over. -/
def leftRecursive : Setting Unit where
  config := {}
  grammar := {
    rule := fun _ _ => throw .missingKey
    forward := fun name => some (.sequence .all [.optional (.forward name), .char '+']) }

/-- A declaration that begins with itself is entered until the limit is reached, and then the parse
    ends. -/
theorem parse_terminates_leftRecursive :
    ∃ n, (Machine.step leftRecursive)^[n]
        (Machine.parse (.forward "sum") (.sequence (.text #['+'])) (Depth.limit (some 3)) ()) =
      .halted (.error (.depthExceeded (.int 3)) ()) := by
  have hsetting : leftRecursive.Each Parser.MovesForward := by
    constructor
    · rintro r s p t ⟨⟩
    · rintro name _ ⟨⟩
      refine .node trivial fun q hq => ?_
      cases hq with
      | sequence hq =>
        simp only [List.mem_cons, List.not_mem_nil, or_false] at hq
        rcases hq with rfl | rfl
        · refine .node trivial ?_
          rintro _ ⟨⟩
          exact .node trivial nofun
        · exact .node trivial nofun
  have hp : (Parser.forward "sum" : Parser Unit).Each Parser.MovesForward := .node trivial nofun
  have hparse : (Parser.forward "sum").parse leftRecursive (.sequence (.text #['+']))
      (Depth.limit (some 3)) () = .error (.depthExceeded (.int 3)) () := by with_unfolding_all rfl
  have hhalts := Parser.parse_terminates hsetting hp (.sequence (.text #['+']))
    (Depth.limit (some 3)) ()
  rw [hparse] at hhalts
  exact hhalts

end Itemwise
