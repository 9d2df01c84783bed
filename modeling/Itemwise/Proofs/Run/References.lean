import Itemwise.Parser.Parse
import Itemwise.Proofs.Run.Parts

namespace Itemwise

/-!
# References between parsers

A recursive parser refers to others, and to itself, in one of two ways: by a rule, whose parser is
built whenever it is entered, or by a forward declaration.

* `Setting.target?` — what a reference has built when it is entered;
* `Parser.replace` — a parser with other references in place of its own;
* `Parser.eval_replace` — its steps are the same if those of the references are.
-/

/-- Descending is the same step if what is entered is replaced by what takes the same steps. -/
theorem Step.descend_map {σ : Type} {target : Action σ (Parser σ)} {f : Parser σ → Parser σ}
    {next next' : Parser σ → Step σ} (h : ∀ s p t, target s = .ok p t → next p = next' (f p)) :
    Step.descend target next = Step.descend (f <$> target) next' := by
  funext c
  unfold Step.descend
  split
  · rfl
  · funext s
    show EStateM.bind target (fun p => next p c.enter) s =
      EStateM.bind (EStateM.map f target) (fun p => next' p c.enter) s
    cases htarget : target s with
    | ok p t => simp only [EStateM.bind, EStateM.map, htarget, h s p t htarget]
    | error f t => simp only [EStateM.bind, EStateM.map, htarget]

/-- Descending is the same step if what is entered takes the same steps. -/
theorem Step.descend_congr {σ : Type} {target : Action σ (Parser σ)}
    {next next' : Parser σ → Step σ} (h : ∀ s p t, target s = .ok p t → next p = next' p) :
    Step.descend target next = Step.descend target next' := by
  have hmap : Step.descend target next = Step.descend (id <$> target) next' := Step.descend_map h
  rwa [id_map] at hmap

namespace Parser

variable {σ : Type}

/-- A parser that refers to another one by name. -/
def IsReference : Parser σ → Prop
  | .defer .. | .forward _ => True
  | _ => False

/-- A bound function gives the same parsers under two configurations. -/
def SameUnder (config config' : Config) : Parser σ → Prop
  | .bind _ next => next config = next config'
  | _ => True

/-! ### Replacing references -/

mutual

/-- A parser with other references in place of its own. -/
def replace (ref : Parser σ → Parser σ) : Parser σ → Parser σ
  | .defer rule label => ref (.defer rule label)
  | .forward name => ref (.forward name)
  | .map p f => .map (replace ref p) f
  | .mapIf p f => .mapIf (replace ref p) f
  | .filter p test => .filter (replace ref p) test
  | .notEmpty p => .notEmpty (replace ref p)
  | .bind p next => .bind (replace ref p) fun config s v => replace ref (next config s v)
  | .liftToState f p => .liftToState f (replace ref p)
  | .sequence kind ps => .sequence kind (replaceAll ref ps)
  | .times n p => .times n (replace ref p)
  | .choice ps => .choice (replaceAll ref ps)
  | .greedyChoice ps => .greedyChoice (replaceAll ref ps)
  | .choose p arms default =>
    .choose (replace ref p) (replaceArms ref arms) (replaceOption ref default)
  | .attempt p => .attempt (replace ref p)
  | .optional p => .optional (replace ref p)
  | .peek p => .peek (replace ref p)
  | .notFollowedBy p => .notFollowedBy (replace ref p)
  | .measure m p => .measure m (replace ref p)
  | .eat p => .eat (replace ref p)
  | .many p separator trailing sink n =>
    .many (replace ref p) (replaceOption ref separator) trailing sink n
  | .chain p op combine => .chain (replace ref p) (replace ref op) combine
  | .named p name => .named (replace ref p) name
  | .inState s p => .inState s (replace ref p)
  | p => p

/-- Several parsers with other references. -/
def replaceAll (ref : Parser σ → Parser σ) : List (Parser σ) → List (Parser σ)
  | [] => []
  | p :: ps => replace ref p :: replaceAll ref ps

/-- The arms of a choice by value with other references. -/
def replaceArms (ref : Parser σ → Parser σ) : List (Test × Parser σ) → List (Test × Parser σ)
  | [] => []
  | (test, p) :: arms => (test, replace ref p) :: replaceArms ref arms

/-- A parser that may be missing with other references. -/
def replaceOption (ref : Parser σ → Parser σ) : Option (Parser σ) → Option (Parser σ)
  | none => none
  | some p => some (replace ref p)

end

variable {ref : Parser σ → Parser σ}

/-- In a list, references are replaced in each parser on its own. -/
theorem replaceAll_eq_map (ps : List (Parser σ)) : replaceAll ref ps = ps.map (replace ref) := by
  induction ps with
  | nil => rfl
  | cons p ps ih => rw [replaceAll, ih, List.map_cons]

/-- The same for the arms of a choice by value, which keep their tests. -/
theorem replaceArms_eq_map (arms : List (Test × Parser σ)) :
    replaceArms ref arms = arms.map fun arm => (arm.1, replace ref arm.2) := by
  induction arms with
  | nil => rfl
  | cons arm arms ih => rw [replaceArms, ih, List.map_cons]

mutual

/-- With each reference in its own place, a parser stays as it is. -/
theorem replace_id : (p : Parser σ) → p.replace id = p
  | .anyItem | .item _ | .satisfy _ | .oneOf .. | .literal _ | .itemWhile _ | .upTo _ | .scan ..
  | .rest | .eof | .empty | .position | .const _ | .failure | .integer .. | .decimal _
  | .whitespace | .raw .. | .unbuilt _ | .defer .. | .forward _ =>
    rfl
  | .map p _ | .mapIf p _ | .filter p _ | .notEmpty p | .liftToState _ p | .times _ p
  | .attempt p | .optional p | .peek p | .notFollowedBy p | .measure _ p | .eat p | .named p _
  | .inState _ p => by
      rw [replace, replace_id p]
  | .bind p f => by
    have hnext : (fun config s v => (f config s v).replace id) = f :=
      funext fun config => funext₂ fun s v => replace_id (f config s v)
    rw [replace, replace_id p, hnext]
  | .sequence _ ps | .choice ps | .greedyChoice ps => by rw [replace, replaceAll_id ps]
  | .choose p arms default =>
    by rw [replace, replace_id p, replaceArms_id arms, replaceOption_id default]
  | .many p separator _ _ _ => by rw [replace, replace_id p, replaceOption_id separator]
  | .chain p op _ => by rw [replace, replace_id p, replace_id op]

/-- Replacing every reference by itself changes no list. -/
theorem replaceAll_id : (ps : List (Parser σ)) → replaceAll id ps = ps
  | [] => rfl
  | p :: ps => by rw [replaceAll, replace_id p, replaceAll_id ps]

/-- Nor the arms of a choice by value. -/
theorem replaceArms_id : (arms : List (Test × Parser σ)) → replaceArms id arms = arms
  | [] => rfl
  | (_, p) :: arms => by rw [replaceArms, replace_id p, replaceArms_id arms]

/-- Nor its default. -/
theorem replaceOption_id : (p : Option (Parser σ)) → replaceOption id p = p
  | none => rfl
  | some p => by rw [replaceOption, replace_id p]

end

/-! ### Steps -/

variable [Memory σ]

/-- The steps of a tree are those with its references replaced, if that is so of the references; a
    bound function has to give the same parsers under both configurations. -/
theorem eval_replace {setting setting' : Setting σ} {next next' : Parser σ → Step σ} {p : Parser σ}
    (hp : p.Each fun q => q.SameUnder setting.config setting'.config ∧
      (q.IsReference → eval setting next q = eval setting' next' (ref q))) :
    eval setting next p = eval setting' next' (p.replace ref) := by
  induction hp with
  | @node p h _ ih =>
    -- Parts come one by one, in lists and as options: the hypothesis for one part gives those for
    -- the other two.
    have hall {ps : List (Parser σ)} (hps : ∀ q ∈ ps, q.IsPart p) :
        evalAll setting next ps = evalAll setting' next' (replaceAll ref ps) := by
      rw [evalAll_eq_map, evalAll_eq_map, replaceAll_eq_map, List.map_map]
      exact List.map_congr_left fun q hq => ih q (hps q hq)
    have hoption {q : Option (Parser σ)} (hq : ∀ r, q = some r → r.IsPart p) :
        evalOption setting next q = evalOption setting' next' (replaceOption ref q) := by
      cases q with
      | none => rfl
      | some r => exact congrArg some (ih r (hq r rfl))
    cases p with
    | map p f => exact congrArg (Step.map f) (ih p .map)
    | mapIf p f => exact congrArg (Step.mapIf f) (ih p .mapIf)
    | filter p test => exact congrArg (Step.filter test) (ih p .filter)
    | notEmpty p => exact congrArg Step.notEmpty (ih p .notEmpty)
    | bind p f =>
      refine congrArg₂ Step.bind (ih p .bound) (funext₂ fun s v => ?_)
      -- What the function gives is a part under either configuration, so both have to give the
      -- same.
      have hsame : f setting.config = f setting'.config := h.1
      rw [hsame]
      exact ih _ (.next setting'.config s v)
    | liftToState f p => exact congrArg (Step.map f) (ih p .liftToState)
    | sequence kind ps => exact congrArg (Step.sequence kind) (hall fun q hq => .sequence hq)
    | times n p => exact congrArg (Step.times n) (ih p .times)
    | choice ps => exact congrArg Step.choice (hall fun q hq => .choice hq)
    | greedyChoice ps => exact congrArg Step.greedyChoice (hall fun q hq => .greedyChoice hq)
    | choose p arms default =>
      have harms : evalArms setting next arms = evalArms setting' next' (replaceArms ref arms) := by
        rw [evalArms_eq_map, evalArms_eq_map, replaceArms_eq_map, List.map_map]
        exact List.map_congr_left fun arm harm => congrArg (Prod.mk arm.1) (ih arm.2 (.arm harm))
      have hdefault := hoption (q := default) fun r hr => hr ▸ .default
      simp only [replace, eval, ih p .chosenBy, harms, hdefault]
    | attempt p => exact congrArg Step.attempt (ih p .attempt)
    | optional p => exact congrArg Step.optional (ih p .optional)
    | peek p => exact congrArg Step.peek (ih p .peek)
    | notFollowedBy p => exact congrArg Step.notFollowedBy (ih p .notFollowedBy)
    | measure m p => exact congrArg (Step.measure m) (ih p .measure)
    | eat p => exact congrArg Step.eat (ih p .eat)
    | many p separator trailing sink n =>
      have hseparator := hoption (q := separator) fun r hr => hr ▸ .separator
      simp only [replace, eval, ih p .element, hseparator]
    | chain p op combine => simp only [replace, eval, ih p .operand, ih op .operator]
    | defer rule label => exact h.2 trivial
    | forward name => exact h.2 trivial
    | named p name => exact ih p .named
    | inState s p => exact congrArg (Step.inState s) (ih p .inState)
    | _ => rfl

end Parser

/-! ### Systems of definitions -/

namespace Setting

variable {σ : Type} {setting setting' : Setting σ} {ref : Parser σ → Parser σ}

/-- What a reference has built when it is entered, unless it is to a forward declaration that is not
    defined. -/
def target? (setting : Setting σ) : Parser σ → Option (Action σ (Parser σ))
  | .defer rule _ => some (setting.grammar.rule rule setting.config)
  | .forward name => (setting.grammar.forward name).map pure
  | _ => none

/-- If a parser is a reference it is defined, and the one in its place enters the same parser, with
    other references in it too. -/
def Interchanges (setting setting' : Setting σ) (ref : Parser σ → Parser σ) (p : Parser σ) : Prop :=
  p.IsReference → ∃ target, setting.target? p = some target ∧
    setting'.target? (ref p) = some (Parser.replace ref <$> target)

/-- A rule whose parser is the definition of a forward declaration can be in its place. -/
theorem interchanges_forward {name : String} {rule : Rule} {label : String} {d : Parser σ}
    (hd : setting.grammar.forward name = some d) (href : ref (.forward name) = .defer rule label)
    (hrule : setting'.grammar.rule rule setting'.config = pure (d.replace ref)) :
    setting.Interchanges setting' ref (.forward name) := by
  intro _
  refine ⟨pure d, congrArg (Option.map pure) hd, ?_⟩
  rw [href]
  exact congrArg some hrule

/-- A forward declaration whose definition is the parser of a rule can be in its place. -/
theorem interchanges_defer {name : String} {rule : Rule} {label : String} {d : Parser σ}
    (hd : setting.grammar.rule rule setting.config = pure d)
    (href : ref (.defer rule label) = .forward name)
    (hforward : setting'.grammar.forward name = some (d.replace ref)) :
    setting.Interchanges setting' ref (.defer rule label) := by
  intro _
  refine ⟨pure d, congrArg some hd, ?_⟩
  rw [href]
  exact congrArg (Option.map pure) hforward

/-- What a reference has built is of the kind that all parsers in the definitions are. -/
theorem Each.target {P : Parser σ → Prop} (h : setting.Each P) {p q : Parser σ}
    {target : Action σ (Parser σ)} {s t : σ} (htarget : setting.target? p = some target)
    (hq : target s = .ok q t) : q.Each P := by
  cases p with
  | defer rule label =>
    cases htarget
    exact h.rule rule s q t hq
  | forward name =>
    obtain ⟨d, hd, rfl⟩ := Option.map_eq_some_iff.mp htarget
    cases hq
    exact h.forward name _ hd
  | _ => cases htarget

/-- A reference descends into what it has built. -/
theorem eval_of_target? [Memory σ] {next : Parser σ → Step σ} {p : Parser σ}
    {target : Action σ (Parser σ)} (h : setting.target? p = some target) :
    p.eval setting next = Step.descend target next := by
  cases p with
  | defer rule label =>
    cases h
    rfl
  | forward name =>
    obtain ⟨d, hd, rfl⟩ := Option.map_eq_some_iff.mp h
    show Step.forward name (setting.grammar.forward name) next = _
    rw [hd]
    rfl
  | _ => cases h

end Setting

namespace Parser

variable {σ : Type} [Memory σ] {setting setting' : Setting σ} {ref : Parser σ → Parser σ}

/-- Two systems take the same steps if they do so one level deeper. -/
theorem eval_interchange (hconfig : setting'.config = setting.config)
    (hsetting : setting.Each (setting.Interchanges setting' ref)) {next next' : Parser σ → Step σ}
    (hnext : ∀ p, p.Each (setting.Interchanges setting' ref) → next p = next' (p.replace ref))
    {p : Parser σ} (hp : p.Each (setting.Interchanges setting' ref)) :
    eval setting next p = eval setting' next' (p.replace ref) := by
  refine eval_replace (hp.imp fun q hq => ⟨?_, fun hreference => ?_⟩)
  · rw [hconfig]
    cases q <;> trivial
  · obtain ⟨target, htarget, htarget'⟩ := hq hreference
    rw [Setting.eval_of_target? htarget, Setting.eval_of_target? htarget']
    exact Step.descend_map fun s d t hd => hnext d (hsetting.target htarget hd)

/-- Two systems take the same steps in runs that may descend equally often. -/
theorem runWithin_interchange (hconfig : setting'.config = setting.config)
    (hsetting : setting.Each (setting.Interchanges setting' ref)) (levels : Nat) {p : Parser σ}
    (hp : p.Each (setting.Interchanges setting' ref)) :
    runWithin setting levels p = runWithin setting' levels (p.replace ref) := by
  induction levels generalizing p with
  | zero =>
    -- On the last level every descent is refused, whatever would be entered.
    refine eval_interchange hconfig hsetting ?_ hp
    exact fun _ _ => rfl
  | succ levels ih => exact eval_interchange hconfig hsetting (fun q hq => ih hq) hp

/-- **Rules and forward declarations are interchangeable.** In a system of definitions put other
    references in the place of its own: for a forward declaration a rule whose parser is its
    definition, or the other way round.  If every reference is defined, the run of a parser stays
    the same under one configuration: in every context and user state it comes to the same outcome
    or fault in the same state, and so does every parse under every limit. -/
theorem run_interchange (hconfig : setting'.config = setting.config)
    (hsetting : setting.Each (setting.Interchanges setting' ref)) {p : Parser σ}
    (hp : p.Each (setting.Interchanges setting' ref)) :
    (p.replace ref).run setting' = p.run setting ∧
      ∀ items limit s, (p.replace ref).parse setting' items limit s =
        p.parse setting items limit s := by
  have hrun : (p.replace ref).run setting' = p.run setting := by
    funext c
    exact congrFun (runWithin_interchange hconfig hsetting _ hp).symm c
  refine ⟨hrun, fun items limit s => ?_⟩
  rw [parse, parse, hrun]

/-- A list of items in parentheses; the parser of an item is that of a rule. -/
def itemList : Parser Unit :=
  .between (.char '(') (repeated (.defer (.definition "item") "item") .list none 0) (.char ')')

/-- A letter, or a list, which is declared. -/
def listItem : Parser Unit := anyOf [.char 'a', .forward "list"]

/-- Lists and their items, which refer to each other. -/
def declaredLists : Setting Unit where
  config := {}
  grammar := { rule := fun _ _ => pure listItem, forward := fun _ => some itemList }

/-- The reference of the other kind that has the same name. -/
def exchanged : Parser Unit → Parser Unit
  | .defer _ label => .forward label
  | .forward name => .defer (.definition name) name
  | p => p

/-- The same lists, which are a rule here, and their items, which are declared. -/
def declaredItems : Setting Unit where
  config := {}
  grammar.rule := fun _ _ => pure (itemList.replace exchanged)
  grammar.forward := fun _ => some (listItem.replace exchanged)

/-- Lists that are declared and lists that are a rule come to the same, and need the same levels. -/
theorem run_interchange_lists :
    ((Parser.forward "list").replace exchanged).parse declaredItems
        (.sequence (.text #['(', '(', 'a', ')', 'a', ')'])) (Depth.limit (some 5)) () =
          .ok (.success (.list [.list [.ofChar 'a'], .ofChar 'a']) 6) () ∧
      ((Parser.forward "list").replace exchanged).parse declaredItems
        (.sequence (.text #['(', '(', 'a', ')', 'a', ')'])) (Depth.limit (some 4)) () =
          .error (.depthExceeded (.int 4)) () := by
  have hforward (name : String) :
      declaredLists.Interchanges declaredItems exchanged (.forward name) :=
    Setting.interchanges_forward rfl rfl rfl
  have hdefer (rule : Rule) (label : String) :
      declaredLists.Interchanges declaredItems exchanged (.defer rule label) :=
    Setting.interchanges_defer rfl rfl rfl
  have hkind (p : Parser Unit) : declaredLists.Interchanges declaredItems exchanged p := by
    cases p with
    | defer rule label => exact hdefer rule label
    | forward name => exact hforward name
    | _ => exact False.elim
  have hconfig : declaredItems.config = declaredLists.config := rfl
  obtain ⟨-, hparse⟩ :=
    run_interchange hconfig ⟨fun _ _ p _ _ => each_of_forall hkind p,
      fun _ p _ => each_of_forall hkind p⟩
    (each_of_forall hkind (.forward "list"))
  rw [hparse, hparse]
  constructor
  · with_unfolding_all rfl
  · with_unfolding_all rfl

end Parser

end Itemwise
