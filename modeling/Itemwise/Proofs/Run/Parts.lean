import Itemwise.Parser.Build
import Itemwise.Parser.Run
import Mathlib.Data.List.Forall2

namespace Itemwise

/-!
# The parts of parsers

* `Parser.IsPart` — the parsers that a parser is made of, those that a bound function gives
  included;
* `Parser.Each`, `Setting.Each` — all parsers in a tree, or in all definitions of a grammar, are of
  some kind;
* `Parser.leaf?` — what a parser does that is made of none;
* `Action.RaisesOnly`, `Parser.RaisesOnly` — the functions that a caller has put into a parser end
  in faults of some kind only;
* `brackets` — a grammar of one declaration that contains itself.
-/

section Parts

variable {σ : Type}

/-- The parsers that a parser is made of. -/
inductive Parser.IsPart : Parser σ → Parser σ → Prop
  | map {p f} : IsPart p (.map p f)
  | mapIf {p f} : IsPart p (.mapIf p f)
  | filter {p test} : IsPart p (.filter p test)
  | notEmpty {p} : IsPart p (.notEmpty p)
  | bound {p next} : IsPart p (.bind p next)
  | next {p next} (config : Config) (s : σ) (v : Value) : IsPart (next config s v) (.bind p next)
  | liftToState {f p} : IsPart p (.liftToState f p)
  | sequence {kind ps p} (h : p ∈ ps) : IsPart p (.sequence kind ps)
  | times {n p} : IsPart p (.times n p)
  | choice {ps p} (h : p ∈ ps) : IsPart p (.choice ps)
  | greedyChoice {ps p} (h : p ∈ ps) : IsPart p (.greedyChoice ps)
  | chosenBy {p arms default} : IsPart p (.choose p arms default)
  | arm {p arms default test q} (h : (test, q) ∈ arms) : IsPart q (.choose p arms default)
  | default {p arms q} : IsPart q (.choose p arms (some q))
  | attempt {p} : IsPart p (.attempt p)
  | optional {p} : IsPart p (.optional p)
  | peek {p} : IsPart p (.peek p)
  | notFollowedBy {p} : IsPart p (.notFollowedBy p)
  | measure {m p} : IsPart p (.measure m p)
  | eat {p} : IsPart p (.eat p)
  | element {p separator trailing sink n} : IsPart p (.many p separator trailing sink n)
  | separator {p q trailing sink n} : IsPart q (.many p (some q) trailing sink n)
  | operand {p op combine} : IsPart p (.chain p op combine)
  | operator {p op combine} : IsPart op (.chain p op combine)
  | named {p name} : IsPart p (.named p name)
  | inState {s p} : IsPart p (.inState s p)

/-- A parser and all parsers in it are of some kind. -/
inductive Parser.Each (P : Parser σ → Prop) : Parser σ → Prop
  | node {p : Parser σ} (h : P p) (hparts : ∀ q, q.IsPart p → Each P q) : Each P p

/-- All parsers in the definitions of a grammar are of some kind. -/
structure Setting.Each (setting : Setting σ) (P : Parser σ → Prop) : Prop where
  rule : ∀ r s p t, setting.grammar.rule r setting.config s = .ok p t → p.Each P
  forward : ∀ name p, setting.grammar.forward name = some p → p.Each P

namespace Parser

variable {P Q : Parser σ → Prop} {p : Parser σ}

/-- A tree whose parsers are all of some kind is of it itself. -/
theorem Each.self (h : p.Each P) : P p := by
  cases h with
  | node h _ => exact h

/-- So are its parts. -/
theorem Each.part {q : Parser σ} (h : p.Each P) (hq : q.IsPart p) : q.Each P := by
  cases h with
  | node _ hparts => exact hparts q hq

/-- The kind may be made a wider one. -/
theorem Each.imp (h : p.Each P) (himp : ∀ q, P q → Q q) : p.Each Q := by
  induction h with
  | node h _ ih => exact .node (himp _ h) ih

/-- Of two kinds throughout is of both throughout. -/
theorem Each.and (h : p.Each P) (h' : p.Each Q) : p.Each fun q => P q ∧ Q q := by
  induction h with
  | node h _ ih => exact .node ⟨h, h'.self⟩ fun q hq => ih q hq (h'.part hq)

/-- A parser with a single part is of some kind throughout if its part is. -/
theorem Each.of_part {p q : Parser σ} (h : P q) (hp : p.Each P)
    (hparts : ∀ r, r.IsPart q → r = p) : q.Each P :=
  .node h fun r hr => hparts r hr ▸ hp

mutual

/-- What is so of all parsers is so of all in a tree, as every tree has an end. -/
theorem each_of_forall (h : ∀ q, P q) : (p : Parser σ) → p.Each P
  | .anyItem | .item _ | .satisfy _ | .oneOf .. | .literal _ | .itemWhile _ | .upTo _ | .scan ..
  | .rest | .eof | .empty | .position | .const _ | .failure | .integer .. | .decimal _
  | .whitespace | .raw .. | .unbuilt _ | .defer .. | .forward _ =>
    .node (h _) nofun
  | .map p _ | .mapIf p _ | .filter p _ | .notEmpty p | .liftToState _ p | .times _ p
  | .attempt p | .optional p | .peek p | .notFollowedBy p | .measure _ p | .eat p | .named p _
  | .inState _ p =>
    (each_of_forall h p).of_part (h _) fun r hr => by cases hr; rfl
  | .bind p f => by
    have hp := each_of_forall h p
    have hf config s v := each_of_forall h (f config s v)
    refine .node (h _) fun q hq => ?_
    cases hq with
    | bound => exact hp
    | next config s v => exact hf config s v
  | .sequence _ ps | .choice ps | .greedyChoice ps => by
    have hps := each_of_mem h ps
    refine .node (h _) fun q hq => ?_
    cases hq
    next hq => exact hps q hq
  | .choose p arms default => by
    have hp := each_of_forall h p
    have harms := each_of_arm h arms
    have hdefault := each_of_default h default
    refine .node (h _) fun q hq => ?_
    cases hq with
    | chosenBy => exact hp
    | arm hq => exact harms _ hq
    | default => exact hdefault q rfl
  | .many p separator _ _ _ => by
    have hp := each_of_forall h p
    have hseparator := each_of_default h separator
    refine .node (h _) fun q hq => ?_
    cases hq with
    | element => exact hp
    | separator => exact hseparator q rfl
  | .chain p op _ => by
    have hp := each_of_forall h p
    have hop := each_of_forall h op
    refine .node (h _) fun q hq => ?_
    cases hq with
    | operand => exact hp
    | operator => exact hop

/-- The same for the members of a list. -/
theorem each_of_mem (h : ∀ q, P q) : (ps : List (Parser σ)) → ∀ p ∈ ps, p.Each P
  | [] => nofun
  | q :: ps => List.forall_mem_cons.mpr ⟨each_of_forall h q, each_of_mem h ps⟩

/-- The same for the arms of a choice by value. -/
theorem each_of_arm (h : ∀ q, P q) : (arms : List (Test × Parser σ)) → ∀ arm ∈ arms, arm.2.Each P
  | [] => nofun
  | (_, q) :: arms => List.forall_mem_cons.mpr ⟨each_of_forall h q, each_of_arm h arms⟩

/-- The same for its default. -/
theorem each_of_default (h : ∀ q, P q) : (p : Option (Parser σ)) → ∀ q, p = some q → q.Each P
  | none => nofun
  | some p => fun q hq => by
    have hp := each_of_forall h p
    cases hq
    exact hp

end

/-- What a parser does that is made of no others, given the look of items in the user state. -/
def leaf? : Parser σ → Option ((Value → Value) → Leaf)
  | .anyItem => some fun _ => Leaf.anyItem
  | .item expected => some (Leaf.item expected)
  | .satisfy p => some (Leaf.satisfy p.holds)
  | .oneOf _ compiled => some (Leaf.oneOf compiled)
  | .literal expected => some (Leaf.literal expected)
  | .itemWhile p => some (Leaf.itemWhile p.holds)
  | .upTo needle => some (Leaf.upTo needle)
  | .scan mode finders => some (Leaf.scan mode finders)
  | .rest => some fun _ => Leaf.rest
  | .eof => some fun _ => Leaf.eof
  | .empty => some fun _ => Leaf.empty
  | .position => some fun _ => Leaf.position
  | .const v => some fun _ => Leaf.const v
  | .failure => some fun _ => Leaf.failure
  | .integer signed kind => some (Leaf.integer signed kind)
  | .decimal kind => some (Leaf.decimal kind)
  | .whitespace => some fun _ => Leaf.whitespace
  | _ => none

end Parser

namespace Setting

variable {setting : Setting σ} {P Q : Parser σ → Prop}

/-- In the definitions of a grammar too, the kind may be made a wider one. -/
theorem Each.imp (h : setting.Each P) (himp : ∀ q, P q → Q q) : setting.Each Q where
  rule r s p t hp := (h.rule r s p t hp).imp himp
  forward name p hp := (h.forward name p hp).imp himp

/-- Definitions of two kinds throughout are of both throughout. -/
theorem Each.and (h : setting.Each P) (h' : setting.Each Q) : setting.Each fun q => P q ∧ Q q where
  rule r s p t hp := (h.rule r s p t hp).and (h'.rule r s p t hp)
  forward name p hp := (h.forward name p hp).and (h'.forward name p hp)

end Setting

end Parts

/-! ### The steps of parts -/

namespace Parser

variable {σ : Type} [Memory σ] (setting : Setting σ) (next : Parser σ → Step σ)

/-- A leaf is evaluated by looking at the input. -/
theorem eval_of_leaf? {p : Parser σ} {l : (Value → Value) → Leaf} (h : p.leaf? = some l) :
    eval setting next p = Step.seeing l := by
  cases p with
  | raw | unbuilt | map | mapIf | filter | notEmpty | bind | liftToState | sequence | times
  | choice | greedyChoice | choose | attempt | optional | peek | notFollowedBy | measure | eat
  | many | chain | defer | forward | named | inState => cases h
  | _ =>
    cases h
    rfl

/-- Each member of a list is evaluated on its own. -/
theorem evalAll_eq_map (ps : List (Parser σ)) :
    evalAll setting next ps = ps.map (eval setting next) := by
  induction ps with
  | nil => rfl
  | cons p ps ih => rw [evalAll, ih, List.map_cons]

/-- The same for the arms of a choice by value, which keep their tests. -/
theorem evalArms_eq_map (arms : List (Test × Parser σ)) :
    evalArms setting next arms = arms.map fun arm => (arm.1, eval setting next arm.2) := by
  induction arms with
  | nil => rfl
  | cons arm arms ih => rw [evalArms, ih, List.map_cons]

end Parser

/-! ### The faults of functions -/

/-- An action ends in faults of some kind only. -/
def Action.RaisesOnly {σ α : Type} (F : Fault → Prop) (a : Action σ α) : Prop :=
  ∀ s f t, a s = .error f t → F f

/-- The functions in a sink end in faults of some kind only. -/
def Sink.RaisesOnly {σ : Type} (F : Fault → Prop) : Sink σ → Prop
  | .fold init f => init.RaisesOnly F ∧ ∀ acc v, (f acc v).RaisesOnly F
  | .foldState f _ => ∀ v, (f v).RaisesOnly F
  | .own _ start push finish =>
    start.RaisesOnly F ∧ (∀ acc v, (push acc v).RaisesOnly F) ∧ ∀ acc s f,
      finish acc s = .error f → F f
  | _ => True

/-- The functions in a parser itself end in faults of some kind only. -/
def Parser.RaisesOnly {σ : Type} (F : Fault → Prop) : Parser σ → Prop
  | .satisfy p | .itemWhile p => ∀ v f, p.holds v = .error f → F f
  | .raw run _ => ∀ c, (run c).RaisesOnly F
  | .unbuilt f => F f
  | .map _ f | .mapIf _ f | .liftToState f _ => ∀ v, (f v).RaisesOnly F
  | .filter _ test => ∀ v f, test v = .error f → F f
  | .sequence (.apply g) _ => ∀ vs, (g vs).RaisesOnly F
  | .choose _ arms _ => ∀ arm ∈ arms, ∀ v f, arm.1 v = .error f → F f
  | .many _ _ _ sink _ => sink.RaisesOnly F
  | .chain _ _ combine => ∀ f v w, (combine f v w).RaisesOnly F
  | _ => True

/-! Where every fault is allowed, nothing is asked of the functions. -/

/-- Every action ends in some fault, if in any. -/
theorem Action.raisesOnly_true {σ α : Type} (a : Action σ α) : a.RaisesOnly fun _ => True :=
  fun _ _ _ _ => trivial

/-- The same for the functions in a sink. -/
theorem Sink.raisesOnly_true {σ : Type} (sink : Sink σ) : sink.RaisesOnly fun _ => True := by
  cases sink with
  | fold init f => exact ⟨init.raisesOnly_true, fun acc v => (f acc v).raisesOnly_true⟩
  | foldState f read => exact fun v => (f v).raisesOnly_true
  | own yieldsStretch start push finish =>
    exact ⟨start.raisesOnly_true, fun acc v => (push acc v).raisesOnly_true, fun _ _ _ _ => trivial⟩
  | _ => trivial

/-- The same for those in a parser. -/
theorem Parser.raisesOnly_true {σ : Type} (p : Parser σ) : p.RaisesOnly fun _ => True := by
  cases p with
  | map p f | mapIf p f | liftToState f p => exact fun v => (f v).raisesOnly_true
  | raw run name => exact fun c => (run c).raisesOnly_true
  | sequence kind ps =>
    cases kind with
    | apply f => exact fun vs => (f vs).raisesOnly_true
    | _ => trivial
  | many p separator trailing sink n => exact sink.raisesOnly_true
  | chain p op combine => exact fun f v w => (combine f v w).raisesOnly_true
  | _ => simp only [RaisesOnly, implies_true]

/-! ### A grammar -/

/-- Brackets around nothing or brackets. -/
def bracketed : Parser Unit := .optional (.between (.char '(') (.forward "brackets") (.char ')'))

/-- The grammar in which every declaration is that of brackets. -/
def brackets : Setting Unit where
  config := {}
  grammar := { rule := fun _ _ => throw .missingKey, forward := fun _ => some bracketed }

/-- What is so of every kind of parser in the grammar of brackets is so of all of that grammar. -/
theorem each_brackets {P : Parser Unit → Prop} (hchar : ∀ c, P (.char c))
    (hforward : ∀ name, P (.forward name))
    (hsequence : ∀ kind ps, kind = .middle → P (.sequence kind ps))
    (hoptional : ∀ p, P (.optional p)) :
    brackets.Each P where
  rule := by
    rintro r s p t ⟨⟩
  forward := by
    rintro name _ ⟨⟩
    refine .node (hoptional _) fun q hq => ?_
    cases hq with
    | optional =>
      refine .node (hsequence _ _ rfl) fun q hq => ?_
      cases hq with
      | sequence hq =>
        simp only [List.mem_cons, List.not_mem_nil, or_false] at hq
        rcases hq with rfl | rfl | rfl
        · exact .node (hchar _) nofun
        · exact .node (hforward _) nofun
        · exact .node (hchar _) nofun

end Itemwise
