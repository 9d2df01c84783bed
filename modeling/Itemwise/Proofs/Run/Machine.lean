import Itemwise.Parser.Parse
import Itemwise.Proofs.Run.Parts

namespace Itemwise

/-!
# A machine that runs parsers

The steps of parsers are defined with a bound on the levels that they may descend and on the rounds
of their loops.  The machine here has neither: it goes from one state to the next, for as long as it
takes, and a loop goes on until one of its own conditions ends it.

* `Job` — what a computation may wait for: the outcome of a parser, or the rest of a loop;
* `Task` — a computation that does actions and waits for jobs;
* `Task.ofParser`, `Job.task` — what there is to do for a parser, and for a job;
* `Machine`, `Machine.step` — the states of the machine, and what it does in each;
* `Machine.parse` — the machine at the start of a parse.
-/

/-- What a computation may wait for. -/
inductive Job (σ : Type) : Type → Type
  /-- The outcome of a parser. -/
  | run (p : Parser σ) (c : Context) : Job σ (Outcome Value)
  /-- The end of a repetition that has come as far as a tally. -/
  | rounds (p : Parser σ) (separator : Option (Parser σ)) (sink : Sink σ) (c : Context)
      (t : Tally sink.Acc) :
    Job σ (Gathered sink.Acc)
  /-- The end of a chain of operands that has come to a value and a position. -/
  | operands (p op : Parser σ) (combine : Value → Value → Value → Action σ Value) (c : Context)
      (v : Value) (pos : Nat) :
    Job σ (Outcome Value)
  /-- The first position from one on whose item a test does not accept. -/
  | scan (test : Value → Except Fault Bool) (items : Input) (pos : Nat) : Job σ Nat

/-- A computation that does actions and waits for jobs. -/
inductive Task (σ : Type) : Type → Type 1
  | done {α : Type} (v : α) : Task σ α
  | act {α : Type} (a : Action σ α) : Task σ α
  | await {α : Type} (j : Job σ α) : Task σ α
  | andThen {α β : Type} (x : Task σ α) (k : α → Task σ β) : Task σ β

namespace Task

variable {σ : Type}

/-- Tasks are put together one after the other. -/
instance : Monad (Task σ) where
  pure := done
  bind := andThen

/-- Waits for the outcome of a parser. -/
def run (p : Parser σ) (c : Context) : Task σ (Outcome Value) := await (.run p c)

/-! ### Parsers made of several -/

/-- Parsers one after the other, with the list of their values. -/
def collect : List (Parser σ) → Context → Task σ (Outcome (List Value))
  | [], c => return .success [] c.pos
  | p :: ps, c => do
    match ← run p c with
    | .failure q => return .failure q
    | .success v q =>
      match ← collect ps (c.moveTo q) with
      | .failure r => return .failure r
      | .success vs r => return .success (v :: vs) r

/-- The position after running a parser `n` times, or the failure of the first run that fails. -/
def again (p : Parser σ) : (n : Nat) → Context → Task σ (Outcome Unit)
  | 0, c => return .success () c.pos
  | n + 1, c => do
    match ← run p c with
    | .failure q => return .failure q
    | .success _ q => again p n (c.moveTo q)

/-- The first alternative that does not fail where it started, after some that failed. -/
def choiceAfter (last : Place) : List (Parser σ) → Context → Task σ (Outcome Value)
  | [], _ => return .failure last
  | p :: ps, c => do
    match ← run p c with
    | .failure q => if q.isAt c.pos then choiceAfter q ps c else return .failure q
    | s => return s

/-- The best outcome of the alternatives, starting from one already known. -/
def best : List (Parser σ) → (known : Outcome Value) → Context → Task σ (Outcome Value)
  | [], known, _ => return known
  | p :: ps, known, c => do best ps (Step.better known (← run p c)) c

/-- The parser of the first arm whose test accepts the value, or the one for all other values. -/
def select : List (Test × Parser σ) → Option (Parser σ) → Value → Except Fault (Option (Parser σ))
  | [], default, _ => .ok default
  | (test, p) :: arms, default, v =>
    match test v with
    | .error f => .error f
    | .ok true => .ok (some p)
    | .ok false => select arms default v

/-- Enters a parser one level deeper, unless the limit is reached. -/
def descend (target : Action σ (Parser σ)) (c : Context) : Task σ (Outcome Value) :=
  if c.isDepthExceeded then act (throw c.limit.refusal)
  else do
    let p ← act target
    run p c.enter

/-! ### All parsers -/

variable [Memory σ]

/-- What there is to do for a parser. -/
def ofParser (setting : Setting σ) (c : Context) : Parser σ → Task σ (Outcome Value)
  | .itemWhile p => do
    let s ← act get
    let stop ← await (.scan (fun v => p.holds (Memory.whole s v)) c.items c.pos)
    let v ← act (Action.ofExcept (c.sliceTo stop))
    act (Action.ofExcept (Leaf.accept c v stop))
  | .raw step _ => act (step c)
  | .unbuilt fault => act (throw fault)
  | .map p f | .liftToState f p => do
    match ← run p c with
    | .success v q => return .success (← act (f v)) q
    | .failure q => return .failure q
  | .mapIf p f => do
    match ← run p c with
    | .success v q =>
      match ← act (f v) with
      | .null => return .failure c.pos
      | w => return .success w q
    | .failure q => return .failure q
  | .filter p test => do
    match ← run p c with
    | .success v q =>
      if ← act (Action.ofExcept (test (← act (Action.look v)))) then return .success v q
      else return .failure c.pos
    | .failure q => return .failure q
  | .notEmpty p => do
    match ← run p c with
    | .success v q =>
      if (← act (Action.ofExcept (← act (Action.lookAt v)).length)) = 0 then return .failure c.pos
      else return .success v q
    | .failure q => return .failure q
  | .bind p next => do
    match ← run p c with
    | .success v q => run (next setting.config (← act get) v) (c.moveTo q)
    | .failure q => return .failure q
  | .sequence kind ps => do
    match ← collect ps c with
    | .failure q => return .failure q
    | .success vs q => return .success (← act (kind.combine vs)) q
  | .times n p => do
    match ← again p n c with
    | .failure q => return .failure q
    | .success _ q => return .success (← act (Action.ofExcept (c.sliceTo q))) q
  | .choice ps => choiceAfter c.pos ps c
  | .greedyChoice ps => best ps (.failure c.pos) c
  | .choose p arms default => do
    match ← run p c with
    | .failure q => return .failure q
    | .success v q =>
      match ← act (Action.ofExcept (select arms default (← act (Action.look v)))) with
      | some r => run r (c.moveTo q)
      | none => return .failure c.pos
  | .attempt p => do
    match ← run p c with
    | .failure q => if q.isAt c.pos then return .failure q else return .failure c.pos
    | s => return s
  | .optional p => do
    match ← run p c with
    | .failure q => if q.isAt c.pos then return .success .null c.pos else return .failure q
    | s => return s
  | .peek p => do
    match ← run p c with
    | .failure _ => return .failure c.pos
    | .success v _ => return .success v c.pos
  | .notFollowedBy p => do
    match ← run p c with
    | .failure _ => return .success .null c.pos
    | .success .. => return .failure c.pos
  | .measure m p => do
    match ← run p c with
    | .failure q => return .failure q
    | .success v q => return .success (← act (Action.ofExcept (m.report c v q))) q
  | .eat p => do
    let start ← act (Action.ofExcept (Leaf.skipBlanks c.items c.pos))
    if start = c.pos then run p c
    else
      match ← run p (c.moveTo start) with
      | .failure q => if q.isAt start then return .failure c.pos else return .failure q
      | s => return s
  | .many p separator allowTrailing sink atLeast => do
    let acc ← act sink.start
    match ← await (.rounds p separator sink c ⟨c.pos, 0, false, acc⟩) with
    | .broken q => return .failure q
    | .stopped t =>
      if t.dangling && !allowTrailing then return .failure t.pos
      else if t.count < atLeast then return .failure t.pos
      else if sink.yieldsStretch then
        return .success (← act (Action.ofExcept (c.sliceTo t.pos))) t.pos
      else return .success (← act (sink.finish t.acc)) t.pos
  | .chain p op combine => do
    match ← run p c with
    | .failure q => return .failure q
    | .success v q => await (.operands p op combine c v q)
  | .defer rule _ => descend (setting.grammar.rule rule setting.config) c
  | .forward name =>
    match setting.grammar.forward name with
    | none => act (throw (.forwardUndefined name))
    | some p => descend (pure p) c
  | .named p _ => run p c
  | .inState s p => do
    act (set s)
    run p c
  | p => act ((p.leaf?).elim (throw .missingPart) fun l => Step.seeing l c)

end Task

/-! ### The machine -/

/-- What there is to do for a job. -/
def Job.task {σ α : Type} [Memory σ] (setting : Setting σ) : Job σ α → Task σ α
  | .run p c => Task.ofParser setting c p
  | .rounds p separator sink c t => do
    match ← Task.run p (c.moveTo t.pos) with
    | .failure q => if q.isAt t.pos then return .stopped t else return .broken q
    | .success v q =>
      if q = t.pos then return .stopped t
      else
        let (acc, room) ← Task.act (sink.push t.acc v)
        let t := { pos := q, count := t.count + 1, dangling := false, acc := acc }
        if room then
          match separator with
          | none => Task.await (.rounds p separator sink c t)
          | some s =>
            match ← Task.run s (c.moveTo q) with
            | .failure r => if r.isAt q then return .stopped t else return .broken r
            | .success _ r =>
              Task.await (.rounds p separator sink c { t with pos := r, dangling := true })
        else
          return .stopped t
  | .operands p op combine c v pos => do
    match ← Task.run op (c.moveTo pos) with
    | .failure q => if q.isAt pos then return .success v pos else return .failure q
    | .success f q =>
      match ← Task.run p (c.moveTo q) with
      | .failure r => if r.isAt q then return .success v pos else return .failure r
      | .success w r =>
        if r = pos then return .success v pos
        else
          let next ← Task.act (combine f v w)
          Task.await (.operands p op combine c next r)
  | .scan test items pos => do
    match ← Task.act (Action.ofExcept (items.item? pos)) with
    | none => return pos
    | some v =>
      if ← Task.act (Action.ofExcept (test v)) then Task.await (.scan test items (pos + 1))
      else return pos

/-- What is to be done with the result of a task: the computations that wait for it, the last one
    first. -/
inductive Stack (σ : Type) : Type → Type 1
  | empty : Stack σ (Outcome Value)
  | push {α β : Type} (k : α → Task σ β) (rest : Stack σ β) : Stack σ α

/-- A state of the machine: a task under way, with what waits for it, in a user state; or what has
    come of it all. -/
inductive Machine (σ : Type)
  | running {α : Type} (x : Task σ α) (stack : Stack σ α) (s : σ)
  | halted (r : EStateM.Result Fault σ (Outcome Value))

namespace Machine

variable {σ : Type} [Memory σ]

/-- What the machine does next; once it has halted it does nothing. -/
def step (setting : Setting σ) : Machine σ → Machine σ
  | .running (.done v) .empty s => .halted (.ok v s)
  | .running (.done v) (.push k rest) s => .running (k v) rest s
  | .running (.act a) stack s =>
    match a s with
    | .ok v t => .running (.done v) stack t
    | .error f t => .halted (.error f t)
  | .running (.await j) stack s => .running (j.task setting) stack s
  | .running (.andThen x k) stack s => .running x (.push k stack) s
  | .halted r => .halted r

/-- The machine at the start of a parse. -/
def parse (p : Parser σ) (items : Input) (limit : Except Fault Limit) (s : σ) : Machine σ :=
  .running (.andThen (.act (Action.ofExcept limit)) fun limit => Task.run p
    (Parser.start items limit)) .empty s

end Machine

end Itemwise
