import Itemwise.Proofs.Run.References
import Itemwise.Proofs.Run.Termination

namespace Itemwise

/-!
# What a run threads through

Whatever parser is run within another one, it finds the same input and the same limit as that one,
and the user state of which the functions of a caller may change the content but which they cannot
replace by another.

* `Action.Preserves`, `Parser.Preserves` — the functions of a caller leave the user state among
  those that are the same;
* `Parser.EachIn` — all parsers that there can be in a run are of some kind;
* `Surroundings`, `Context.Belongs` — what stays the same wherever a parser is run, and a context at
  some depth in it;
* `Task.Threads` — a task runs parsers at one depth only, and keeps to the surroundings;
* `Job.Belongs.threads`, `Job.Belongs.threads_enters` — a job does so at its own depth, or one level
  deeper if it enters a recursive parser.
-/

variable {σ α β : Type}

/-! ### Functions of a caller -/

/-- An action that starts in one of some user states leaves one of them. -/
def Action.Preserves (same : σ → Prop) (a : Action σ α) : Prop :=
  ∀ s v t, same s → a s = .ok v t → same t

/-- The functions in a sink leave the user state among some. -/
def Sink.Preserves (same : σ → Prop) : Sink σ → Prop
  | .fold init f => init.Preserves same ∧ ∀ acc v, (f acc v).Preserves same
  | .foldState f _ => ∀ v, (f v).Preserves same
  | .own _ start push _ => start.Preserves same ∧ ∀ acc v, (push acc v).Preserves same
  | _ => True

/-- The functions and steps in a parser itself leave the user state among some, and it puts none of
    its own in the place of them. -/
def Parser.Preserves (same : σ → Prop) : Parser σ → Prop
  | .raw run _ => ∀ c, (run c).Preserves same
  | .map _ f | .mapIf _ f | .liftToState f _ => ∀ v, (f v).Preserves same
  | .sequence (.apply f) _ => ∀ vs, (f vs).Preserves same
  | .many _ _ _ sink _ => sink.Preserves same
  | .chain _ _ combine => ∀ f v w, (combine f v w).Preserves same
  | .inState s _ => same s
  | _ => True

namespace Action

variable {same : σ → Prop}

/-- A result alone leaves the user state. -/
theorem preserves_pure (v : α) : (pure v : Action σ α).Preserves same := by
  rintro s v t hs ⟨⟩
  exact hs

/-- A fault alone has no state to leave. -/
theorem preserves_throw (f : Fault) : (throw f : Action σ α).Preserves same := by
  rintro s v t hs ⟨⟩

/-- A computation that does not touch the user state leaves it. -/
theorem preserves_ofExcept (a : Except Fault α) : (ofExcept a : Action σ α).Preserves same := by
  cases a with
  | ok v => exact preserves_pure v
  | error f => exact preserves_throw f

/-- Actions one after the other leave the user state among those that each of them does. -/
theorem Preserves.bind {a : Action σ α} {k : α → Action σ β} (ha : a.Preserves same)
    (hk : ∀ v, (k v).Preserves same) :
    (a >>= k).Preserves same := by
  intro s w t hs h
  have h : EStateM.bind a k s = .ok w t := h
  cases hrun : a s with
  | ok v u =>
    simp only [EStateM.bind, hrun] at h
    exact hk v u w t (ha s v u hs hrun) h
  | error f u =>
    simp only [EStateM.bind, hrun] at h
    cases h

/-- Looking at the user state leaves it. -/
theorem preserves_get : (get : Action σ σ).Preserves same := by
  rintro s v t hs ⟨⟩
  exact hs

/-- Looking at a value leaves it. -/
theorem preserves_look [Memory σ] (v : Value) : (look v : Action σ Value).Preserves same := by
  rintro s w t hs ⟨⟩
  exact hs

/-- The same where the value is seen in the store. -/
theorem preserves_lookAt [Memory σ] (v : Value) : (lookAt v : Action σ Value).Preserves same := by
  rintro s w t hs ⟨⟩
  exact hs

/-- A leaf only looks at the user state. -/
theorem preserves_leaf? [Memory σ] (p : Parser σ) (c : Context) :
    ((p.leaf?).elim (throw .missingPart) fun l => Step.seeing l c : Action σ
      (Outcome Value)).Preserves same := by
  cases p.leaf? with
  | none => exact preserves_throw _
  | some l => exact preserves_get.bind fun s => preserves_ofExcept _

end Action

namespace Sink

variable [Memory σ] {same : σ → Prop} {sink : Sink σ}

omit [Memory σ] in
/-- A sink whose functions leave the user state among some starts so. -/
theorem preserves_start (h : sink.Preserves same) : sink.start.Preserves same := by
  cases sink with
  | array capacity => exact Action.preserves_ofExcept _
  | fold init f => exact h.1
  | own yieldsStretch start push finish => exact h.1
  | _ => exact Action.preserves_pure _

/-- So it takes a value in. -/
theorem preserves_push (h : sink.Preserves same) (acc : sink.Acc) (v : Value) :
    (sink.push acc v).Preserves same := by
  cases sink with
  | dict | sortedDict =>
    exact (Action.preserves_lookAt v).bind fun w => (Action.preserves_ofExcept _).bind fun d =>
      Action.preserves_pure _
  | array capacity => exact Action.preserves_ofExcept _
  | fold init f => exact (h.2 acc v).bind fun w => Action.preserves_pure _
  | foldState f read => exact (h v).bind fun w => Action.preserves_pure _
  | own yieldsStretch start push finish => exact h.2 acc v
  | _ => exact Action.preserves_pure _

omit [Memory σ] in
/-- Finishing a collection leaves the user state in any case. -/
theorem preserves_finish (acc : sink.Acc) : (sink.finish acc).Preserves same := by
  cases sink with
  | sortedDict => exact (Action.preserves_ofExcept _).bind fun d => Action.preserves_pure _
  | foldState f read => exact Action.preserves_get.bind fun s => Action.preserves_pure _
  | own yieldsStretch start push finish =>
    exact Action.preserves_get.bind fun s => Action.preserves_ofExcept _
  | _ => exact Action.preserves_pure _

end Sink

/-- Combining the values of a sequence leaves the user state among those that its function does. -/
theorem SequenceKind.preserves_combine {same : σ → Prop} {kind : SequenceKind σ}
    {ps : List (Parser σ)} (h : (Parser.sequence kind ps).Preserves same) (vs : List Value) :
    (kind.combine vs).Preserves same := by
  cases kind with
  | all => exact Action.preserves_pure _
  | apply f => exact h vs
  | _ => exact Action.preserves_ofExcept _

/-! ### Parsers in a run -/

/-- The parsers that a parser is made of in a run under a configuration, in which the user state is
    one of some. -/
def Parser.IsPartIn (config : Config) (same : σ → Prop) (q : Parser σ) : Parser σ → Prop
  | .bind p next => q = p ∨ ∃ s v, same s ∧ q = next config s v
  | p => q.IsPart p

/-- A parser and all parsers that there can be in it in a run are of some kind. -/
inductive Parser.EachIn (config : Config) (same : σ → Prop) (P : Parser σ → Prop) : Parser σ → Prop
  | node {p : Parser σ} (h : P p) (hparts : ∀ q, q.IsPartIn config same p →
    EachIn config same P q) : EachIn config same P p

namespace Parser.EachIn

variable {config : Config} {same : σ → Prop} {P : Parser σ → Prop} {p q : Parser σ}

/-- A tree whose parsers are all of some kind in a run is of it itself. -/
theorem self (h : p.EachIn config same P) : P p := by
  cases h with
  | node h _ => exact h

/-- So are its parts in that run. -/
theorem part (h : p.EachIn config same P) (hq : q.IsPartIn config same p) :
    q.EachIn config same P := by
  cases h with
  | node _ hparts => exact hparts q hq

/-- What is so of all parsers in a tree is so of those that there can be in a run. -/
theorem of_each (h : p.Each P) : p.EachIn config same P := by
  induction h with
  | @node p h hparts ih =>
    refine .node h fun q hq => ih q ?_
    cases p with
    | bind p next =>
      rcases hq with rfl | ⟨s, v, -, rfl⟩
      · exact .bound
      · exact .next config s v
    | _ => exact hq

end Parser.EachIn

/-! ### Surroundings -/

/-- What stays as it is wherever a parser is run: the input, the limit of nesting, and the user
    state as far as it is the same. -/
structure Surroundings (σ : Type) where
  items : Input
  limit : Limit
  same : σ → Prop

/-- A context has the input and the limit of some surroundings, and a depth that does not exceed the
    limit. -/
structure Context.Belongs (c : Context) (w : Surroundings σ) (depth : Int) : Prop where
  sameItems : c.items = w.items
  sameLimit : c.limit = w.limit
  atDepth : c.depth = depth
  withinLimit : depth ≤ w.limit.levels

namespace Context.Belongs

variable {w : Surroundings σ} {depth : Int} {c : Context}

/-- Moving on changes nothing that surroundings have in common. -/
theorem moveTo (h : c.Belongs w depth) (q : Nat) : (c.moveTo q).Belongs w depth :=
  ⟨h.sameItems, h.sameLimit, h.atDepth, h.withinLimit⟩

/-- Where the limit is not reached there is room for another level. -/
theorem enter (h : c.Belongs w depth) (hnot : ¬ c.isDepthExceeded = true) :
    c.enter.Belongs w (depth + 1) := by
  refine ⟨h.sameItems, h.sameLimit, congrArg (· + 1) h.atDepth, ?_⟩
  rw [isDepthExceeded_iff, h.sameLimit, h.atDepth] at hnot
  omega

end Context.Belongs

/-- Whatever a parser does in a run keeps the user state the same. -/
def Parser.KeepsTo (config : Config) (same : σ → Prop) (p : Parser σ) : Prop :=
  p.EachIn config same (·.Preserves same)

/-- The definitions of a grammar keep the user state the same, and so does what is built for a rule
    and the building itself. -/
structure Setting.KeepsTo (setting : Setting σ) (same : σ → Prop) : Prop where
  rule : ∀ r s p t, same s → setting.grammar.rule r setting.config s = .ok p t → same t ∧
    p.KeepsTo setting.config same
  forward : ∀ name p, setting.grammar.forward name = some p → p.KeepsTo setting.config same

/-! ### Tasks -/

section Tasks

variable (config : Config) (w : Surroundings σ)

/-- A job is about contexts at some depth, and about parsers and functions that keep the user state
    the same. -/
def Job.Belongs (depth : Int) : Job σ α → Prop
  | .run p c => p.KeepsTo config w.same ∧ c.Belongs w depth
  | .rounds p separator sink c _ =>
    p.KeepsTo config w.same ∧ (∀ q, separator = some q → q.KeepsTo config w.same) ∧
      sink.Preserves w.same ∧ c.Belongs w depth
  | .operands p op combine c _ _ =>
    p.KeepsTo config w.same ∧ op.KeepsTo config w.same ∧
      (∀ f v w', (combine f v w').Preserves w.same) ∧ c.Belongs w depth
  | .scan .. => True

/-- A task waits for jobs at some depth only and keeps the user state the same, and its result is of
    some kind. -/
inductive Task.Threads (depth : Int) : {α : Type} → Task σ α → (α → Prop) → Prop
  | done {α : Type} {v : α} {R : α → Prop} (h : R v) : Threads depth (.done v) R
  | act {α : Type} {a : Action σ α} {R : α → Prop}
      (h : ∀ s v t, w.same s → a s = .ok v t → w.same t ∧ R v) :
    Threads depth (.act a) R
  | await {α : Type} {j : Job σ α} {R : α → Prop} (h : j.Belongs config w depth) (hR : ∀ v, R v) :
    Threads depth (.await j) R
  | andThen {α β : Type} {x : Task σ α} {k : α → Task σ β} {S : α → Prop} {R : β → Prop}
      (hx : Threads depth x S) (hk : ∀ v, S v → Threads depth (k v) R) :
    Threads depth (.andThen x k) R

end Tasks

namespace Task

variable {config : Config} {w : Surroundings σ} {depth : Int} {c : Context} {p : Parser σ}
  {R : β → Prop}

/-- The kind of a task's result may be made a wider one. -/
theorem Threads.imp {x : Task σ α} {S T : α → Prop} (h : x.Threads config w depth S)
    (himp : ∀ v, S v → T v) :
    x.Threads config w depth T := by
  induction h with
  | done h => exact .done (himp _ h)
  | act h => exact .act fun s v t hs hv => (h s v t hs hv).imp_right (himp v)
  | await h hR => exact .await h fun v => himp v (hR v)
  | andThen hx _ _ ih => exact .andThen hx fun v hv => ih v hv himp

/-- An action that leaves the user state the same waits for nothing. -/
theorem threads_act {a : Action σ α} (h : a.Preserves w.same) :
    (act a).Threads config w depth fun _ => True :=
  .act fun s v t hs hv => ⟨h s v t hs hv, trivial⟩

/-- A task may wait for a job at its depth. -/
theorem threads_await {j : Job σ α} (h : j.Belongs config w depth) :
    (await j).Threads config w depth fun _ => True :=
  .await h fun _ => trivial

/-- A run of a parser is such a job. -/
theorem threads_run (hp : p.KeepsTo config w.same) (hc : c.Belongs w depth) :
    (run p c).Threads config w depth fun _ => True := threads_await (j := .run p c) ⟨hp, hc⟩

/-- A task that goes on from what another one comes to. -/
theorem Threads.onOutcome {x : Task σ (Outcome α)} {k : Outcome α → Task σ β}
    (hx : x.Threads config w depth fun _ => True)
    (hsuccess : ∀ v q, (k (.success v q)).Threads config w depth R)
    (hfailure : ∀ y, (k (.failure y)).Threads config w depth R) :
    (x >>= k).Threads config w depth R := by
  refine .andThen hx fun o _ => ?_
  cases o with
  | success v q => exact hsuccess v q
  | failure y => exact hfailure y

/-- Collecting the values of parts waits for their runs only. -/
theorem threads_collect {ps : List (Parser σ)} (hps : ∀ p ∈ ps, p.KeepsTo config w.same)
    (hc : c.Belongs w depth) :
    (collect ps c).Threads config w depth fun _ => True := by
  induction ps generalizing c with
  | nil => exact .done trivial
  | cons p ps ih =>
    refine (threads_run (hps p List.mem_cons_self) hc).onOutcome (fun v q => ?_)
      fun y => .done trivial
    have hrest := ih (fun p hp => hps p (List.mem_cons_of_mem _ hp)) (hc.moveTo q)
    exact hrest.onOutcome (fun vs r => .done trivial) fun y => .done trivial

/-- What is left of a counted repetition waits for runs of its parser only. -/
theorem threads_again (hp : p.KeepsTo config w.same) (n : Nat) (hc : c.Belongs w depth) :
    (again p n c).Threads config w depth fun _ => True := by
  induction n generalizing c with
  | zero => exact .done trivial
  | succ n ih =>
    exact (threads_run hp hc).onOutcome (fun v q => ih (hc.moveTo q)) fun y => .done trivial

/-- Alternatives that are asked one after the other wait for their runs only. -/
theorem threads_choiceAfter {ps : List (Parser σ)} (hps : ∀ p ∈ ps, p.KeepsTo config w.same)
    (hc : c.Belongs w depth) (last : Place) :
    (choiceAfter last ps c).Threads config w depth fun _ => True := by
  induction ps generalizing last with
  | nil => exact .done trivial
  | cons p ps ih =>
    refine (threads_run (hps p List.mem_cons_self) hc).onOutcome
      (fun v q => .done trivial) fun y => ?_
    dsimp only
    split
    · exact ih (fun p hp => hps p (List.mem_cons_of_mem _ hp)) y
    · exact .done trivial

/-- The furthest of some alternatives waits for their runs only. -/
theorem threads_best {ps : List (Parser σ)} (hps : ∀ p ∈ ps, p.KeepsTo config w.same)
    (hc : c.Belongs w depth) (known : Outcome Value) :
    (best ps known c).Threads config w depth fun _ => True := by
  induction ps generalizing known with
  | nil => exact .done trivial
  | cons p ps ih =>
    refine .andThen (threads_run (hps p List.mem_cons_self) hc) fun o _ => ?_
    exact ih (fun p hp => hps p (List.mem_cons_of_mem _ hp)) _

/-- What is entered belongs one level deeper. -/
theorem threads_descend {target : Action σ (Parser σ)}
    (htarget : ∀ s p t, w.same s → target s = .ok p t → w.same t ∧ p.KeepsTo config w.same)
    (hc : c.Belongs w depth) :
    (descend target c).Threads config w (depth + 1) fun _ => True := by
  unfold descend
  split
  · exact threads_act (Action.preserves_throw _)
  · next hnot => exact .andThen (.act htarget) fun p hp => threads_run hp (hc.enter hnot)

/-! ### Parsers and jobs -/

variable [Memory σ] {setting : Setting σ}

/-- A reference is entered. -/
theorem threads_reference (hsetting : setting.KeepsTo w.same) (hp : p.IsReference)
    (hc : c.Belongs w depth) :
    (ofParser setting c p).Threads setting.config w (depth + 1) fun _ => True := by
  cases p with
  | defer rule label => exact threads_descend (hsetting.rule rule) hc
  | forward name =>
    simp only [ofParser]
    cases hd : setting.grammar.forward name with
    | none => exact threads_act (Action.preserves_throw _)
    | some d =>
      refine threads_descend ?_ hc
      rintro s _ t hs ⟨⟩
      exact ⟨hs, hsetting.forward name d hd⟩
  | _ => exact hp.elim

omit [Memory σ] in
/-- What is selected is one of the arms or the default. -/
theorem threads_select {arms : List (Test × Parser σ)} {default : Option (Parser σ)} (v : Value)
    {P : Parser σ → Prop} (harms : ∀ test q, (test, q) ∈ arms → P q)
    (hdefault : ∀ q, default = some q → P q) :
    (act (Action.ofExcept (select arms default v))).Threads config w depth fun r => ∀ q,
      r = some q → P q := by
  refine .act fun s r t hs hr => ⟨Action.preserves_ofExcept _ s r t hs hr, ?_⟩
  rintro q rfl
  rcases mem_of_select (ofExcept_eq_ok hr) with ⟨test, htest⟩ | hq
  · exact harms test q htest
  · exact hdefault q hq

/-- Every other parser runs its parts at its own depth. -/
theorem threads_ofParser (hp : p.KeepsTo setting.config w.same) (hreference : ¬ p.IsReference)
    (hc : c.Belongs w depth) :
    (ofParser setting c p).Threads setting.config w depth fun _ => True := by
  have hself := hp.self
  have hpart {q : Parser σ} (hq : q.IsPartIn setting.config w.same p) :
      q.KeepsTo setting.config w.same := hp.part hq
  have hrun {q : Parser σ} (hq : q.IsPartIn setting.config w.same p) := threads_run (hpart hq) hc
  cases p with
  | itemWhile p =>
    refine .andThen (threads_act Action.preserves_get) fun s _ => ?_
    have hscan (s : σ) :
        (await (.scan (fun v => p.holds (Memory.whole s v)) c.items c.pos)).Threads
      setting.config w depth fun _ => True := threads_await trivial
    refine .andThen (hscan s) fun stop _ => ?_
    exact .andThen (threads_act (Action.preserves_ofExcept _)) fun v _ =>
      threads_act (Action.preserves_ofExcept _)
  | raw run name => exact threads_act (hself c)
  | unbuilt f => exact threads_act (Action.preserves_throw f)
  | map p f =>
    exact (hrun .map).onOutcome
      (fun v q => .andThen (threads_act (hself v)) fun _ _ => .done trivial) fun y => .done trivial
  | liftToState f p =>
    exact (hrun .liftToState).onOutcome
      (fun v q => .andThen (threads_act (hself v)) fun _ _ => .done trivial) fun y => .done trivial
  | mapIf p f =>
    refine (hrun .mapIf).onOutcome (fun v q => .andThen (threads_act (hself v)) fun u _ => ?_)
      fun y => .done trivial
    cases u <;> exact .done trivial
  | filter p test =>
    refine (hrun .filter).onOutcome
      (fun v q => .andThen (threads_act (Action.preserves_look v)) fun u _ => ?_)
        fun y => .done trivial
    refine .andThen (threads_act (Action.preserves_ofExcept _)) fun b _ => ?_
    cases b <;> exact .done trivial
  | notEmpty p =>
    refine (hrun .notEmpty).onOutcome
      (fun v q => .andThen (threads_act (Action.preserves_lookAt v)) fun u _ => ?_)
        fun y => .done trivial
    refine .andThen (threads_act (Action.preserves_ofExcept _)) fun n _ => ?_
    split <;> exact .done trivial
  | bind p next =>
    refine (hrun (.inl rfl)).onOutcome (fun v q => ?_) fun y => .done trivial
    -- the bound function sees the user state of the run, which is the same
    have hget : (act get).Threads setting.config w depth w.same := by
      refine .act ?_
      rintro s _ t hs ⟨⟩
      exact ⟨hs, hs⟩
    exact .andThen hget fun s hs => threads_run (hpart (.inr ⟨s, v, hs, rfl⟩)) (hc.moveTo q)
  | sequence kind ps =>
    refine (threads_collect (fun q hq => hpart (.sequence hq)) hc).onOutcome (fun vs q => ?_)
      fun y => .done trivial
    exact .andThen (threads_act (SequenceKind.preserves_combine hself vs)) fun _ _ => .done trivial
  | times n p =>
    refine (threads_again (hpart .times) n hc).onOutcome (fun _ q => ?_) fun y => .done trivial
    exact .andThen (threads_act (Action.preserves_ofExcept _)) fun _ _ => .done trivial
  | choice ps => exact threads_choiceAfter (fun q hq => hpart (.choice hq)) hc _
  | greedyChoice ps => exact threads_best (fun q hq => hpart (.greedyChoice hq)) hc _
  | choose p arms default =>
    refine (hrun .chosenBy).onOutcome
      (fun v q => .andThen (threads_act (Action.preserves_look v)) fun u _ => ?_)
        fun y => .done trivial
    have harms (test : Test) (q : Parser σ) (hq : (test, q) ∈ arms) :
        q.KeepsTo setting.config w.same := hpart (.arm hq)
    have hdefault (q : Parser σ) (hq : default = some q) : q.KeepsTo setting.config w.same :=
      hpart (hq ▸ .default)
    refine .andThen (threads_select u harms hdefault) fun r hr => ?_
    cases r with
    | none => exact .done trivial
    | some r => exact threads_run (hr r rfl) (hc.moveTo q)
  | attempt p =>
    refine (hrun .attempt).onOutcome (fun v q => .done trivial) fun y => ?_
    dsimp only
    split <;> exact .done trivial
  | optional p =>
    refine (hrun .optional).onOutcome (fun v q => .done trivial) fun y => ?_
    dsimp only
    split <;> exact .done trivial
  | peek p => exact (hrun .peek).onOutcome (fun v q => .done trivial) fun y => .done trivial
  | notFollowedBy p =>
    exact (hrun .notFollowedBy).onOutcome (fun v q => .done trivial) fun y => .done trivial
  | measure m p =>
    refine (hrun .measure).onOutcome (fun v q => ?_) fun y => .done trivial
    exact .andThen (threads_act (Action.preserves_ofExcept _)) fun _ _ => .done trivial
  | eat p =>
    refine .andThen (threads_act (Action.preserves_ofExcept _)) fun start _ => ?_
    split
    · exact hrun .eat
    · refine (threads_run (hpart .eat) (hc.moveTo start)).onOutcome
        (fun v q => .done trivial) fun y => ?_
      dsimp only
      split <;> exact .done trivial
  | many p separator trailing sink n =>
    refine .andThen (threads_act (Sink.preserves_start hself)) fun acc _ => ?_
    have hseparator (q : Parser σ) (hq : separator = some q) : q.KeepsTo setting.config w.same :=
      hpart (hq ▸ .separator)
    have hrounds (t : Tally sink.Acc) :
        (await (.rounds p separator sink c t)).Threads setting.config w depth fun _ => True :=
      threads_await ⟨hpart .element, hseparator, hself, hc⟩
    refine .andThen (hrounds _) fun g _ => ?_
    cases g with
    | broken y => exact .done trivial
    | stopped t =>
      dsimp only
      split
      · exact .done trivial
      · split
        · exact .done trivial
        · split
          · exact .andThen (threads_act (Action.preserves_ofExcept _)) fun _ _ => .done trivial
          · exact .andThen (threads_act (Sink.preserves_finish _)) fun _ _ => .done trivial
  | chain p op combine =>
    refine (hrun .operand).onOutcome (fun v q => ?_) fun y => .done trivial
    exact .await ⟨hpart .operand, hpart .operator, hself, hc⟩ fun _ => trivial
  | named p name => exact hrun .named
  | inState s p =>
    have hset : (act (set s)).Threads setting.config w depth fun _ => True := by
      refine .act ?_
      rintro s' _ t hs ⟨⟩
      exact ⟨hself, trivial⟩
    exact .andThen hset fun _ _ => hrun .inState
  | defer rule label => exact (hreference trivial).elim
  | forward name => exact (hreference trivial).elim
  | _ => exact threads_act (Action.preserves_leaf? _ c)

end Task

/-- What a job waits to enter is a recursive parser. -/
def Job.Enters : Job σ α → Prop
  | .run p _ => p.IsReference
  | _ => False

namespace Job.Belongs

variable [Memory σ] {setting : Setting σ} {w : Surroundings σ} {depth : Int} {j : Job σ α}

/-- A job that enters a recursive parser goes on one level deeper. -/
theorem threads_enters (hsetting : setting.KeepsTo w.same) (h : j.Belongs setting.config w depth)
    (henters : j.Enters) :
    (j.task setting).Threads setting.config w (depth + 1) fun _ => True := by
  cases j with
  | run p c => exact Task.threads_reference hsetting henters h.2
  | _ => exact henters.elim

/-- Every other job goes on at its own depth. -/
theorem threads (h : j.Belongs setting.config w depth) (henters : ¬ j.Enters) :
    (j.task setting).Threads setting.config w depth fun _ => True := by
  cases j with
  | run p c => exact Task.threads_ofParser h.1 henters h.2
  | rounds p separator sink c t =>
    obtain ⟨hp, hseparator, hsink, hc⟩ := h
    -- A round that goes on waits for the next one, which belongs where this one does.
    have hrounds (p : Parser σ) (hp : p.KeepsTo setting.config w.same) (t : Tally sink.Acc) :=
      Task.threads_await (j := .rounds p separator sink c t) ⟨hp, hseparator, hsink, hc⟩
    refine (Task.threads_run hp (hc.moveTo t.pos)).onOutcome (fun v q => ?_) fun y => ?_
    · dsimp only
      split
      · exact .done trivial
      · refine .andThen (Task.threads_act (Sink.preserves_push hsink _ v)) fun r _ => ?_
        obtain ⟨acc, room⟩ := r
        cases room with
        | false => exact .done trivial
        | true =>
          cases separator with
          | none => exact hrounds p hp _
          | some s =>
            refine (Task.threads_run (hseparator s rfl) (hc.moveTo q)).onOutcome
              (fun u r => hrounds p hp _) fun y => ?_
            dsimp only
            split <;> exact .done trivial
    · dsimp only
      split <;> exact .done trivial
  | operands p op combine c v pos =>
    obtain ⟨hp, hop, hcombine, hc⟩ := h
    have hoperands (v : Value) (pos : Nat) :=
      Task.threads_await (j := .operands p op combine c v pos) ⟨hp, hop, hcombine, hc⟩
    refine (Task.threads_run hop (hc.moveTo pos)).onOutcome (fun f q => ?_) fun y => ?_
    · refine (Task.threads_run hp (hc.moveTo q)).onOutcome (fun u r => ?_) fun y => ?_
      · dsimp only
        split
        · exact .done trivial
        · exact .andThen (Task.threads_act (hcombine f v u)) fun next _ => hoperands next r
      · dsimp only
        split <;> exact .done trivial
    · dsimp only
      split <;> exact .done trivial
  | scan test items pos =>
    have hscan (pos : Nat) :
        (Task.await (.scan test items pos : Job σ Nat)).Threads setting.config w depth
        fun _ => True :=
      Task.threads_await trivial
    refine .andThen (Task.threads_act (Action.preserves_ofExcept _)) fun o _ => ?_
    cases o with
    | none => exact .done trivial
    | some v =>
      refine .andThen (Task.threads_act (Action.preserves_ofExcept _)) fun b _ => ?_
      cases b with
      | false => exact .done trivial
      | true => exact hscan (pos + 1)

end Job.Belongs

end Itemwise
