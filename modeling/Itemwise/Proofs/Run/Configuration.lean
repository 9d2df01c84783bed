import Itemwise.Proofs.Run.References
import Itemwise.Proofs.Run.Within

namespace Itemwise

/-!
# Runs under two configurations

A parser is data, and what was switched on when it was built is no part of it.  A run asks for the
active configuration in two places: where it has the parser of a rule built, and where a bound
function gives it a parser.

* `Parser.eval_config`, `Parser.runWithin_config` — if the rules and the bound functions give the
  same parsers under two configurations, the steps are the same, part by part and level by level;
* `Parser.run_config_eq` — and no run ends in a capability that is off;
* `Parser.run_config_ne_builtLists` — where a rule is built when it is entered, a run ends in a
  capability that is off.
-/

/-- The fault is that a capability is off. -/
def Fault.IsCapability : Fault → Prop
  | .capabilityDisabled _ => True
  | _ => False

namespace Parser

variable {σ : Type}

variable [Memory σ] {grammar : Grammar σ} {config config' : Config}

/-! ### Steps -/

/-- The steps of a tree are the same under both configurations if those one level deeper are. -/
theorem eval_config (hrules : ∀ r, grammar.rule r config' = grammar.rule r config)
    (hgrammar : (Setting.mk config grammar).Each (SameUnder config config'))
    {next next' : Parser σ → Step σ}
    (hnext : ∀ p, p.Each (SameUnder config config') → next p = next' p) {p : Parser σ}
    (hp : p.Each (SameUnder config config')) :
    eval ⟨config, grammar⟩ next p = eval ⟨config', grammar⟩ next' p := by
  -- The configuration is looked at in a bound function and in a rule, and nowhere else; each
  -- reference stays in its place.
  have hsteps : eval ⟨config, grammar⟩ next p = eval ⟨config', grammar⟩ next' (p.replace id) := by
    refine eval_replace (hp.imp fun q hq => ⟨hq, fun hreference => ?_⟩)
    cases q with
    | defer rule label =>
      show Step.descend (grammar.rule rule config) next =
          Step.descend (grammar.rule rule config') next'
      rw [hrules]
      exact Step.descend_congr fun s p t hp => hnext p (hgrammar.rule rule s p t hp)
    | forward name =>
      show Step.forward name (grammar.forward name) next =
          Step.forward name (grammar.forward name) next'
      cases hname : grammar.forward name with
      | none => rfl
      | some p =>
        refine Step.descend_congr ?_
        rintro s _ t ⟨⟩
        exact hnext p (hgrammar.forward name p hname)
    | _ => exact hreference.elim
  rwa [replace_id] at hsteps

/-- Runs that may descend equally often are the same step under both configurations. -/
theorem runWithin_config (hrules : ∀ r, grammar.rule r config' = grammar.rule r config)
    (hgrammar : (Setting.mk config grammar).Each (SameUnder config config')) (levels : Nat)
    {p : Parser σ} (hp : p.Each (SameUnder config config')) :
    runWithin ⟨config, grammar⟩ levels p = runWithin ⟨config', grammar⟩ levels p := by
  induction levels generalizing p with
  | zero => exact eval_config hrules hgrammar (fun _ _ => rfl) hp
  | succ levels ih => exact eval_config hrules hgrammar (fun q hq => ih hq) hp

/-! ### Runs -/

/-- **What a run has of the configuration.** If the rules and the bound functions give the same
    parsers under two configurations, a run is the same under both: it comes to the same outcome or
    fault in the same user state.  And if none of the functions and steps of a caller end in a
    capability that is off, neither does the run. -/
theorem run_config_eq (hrules : ∀ r, grammar.rule r config' = grammar.rule r config)
    (hgrammar : (Setting.mk config grammar).Each (SameUnder config config')) {p : Parser σ}
    (hp : p.Each (SameUnder config config')) :
    p.run ⟨config', grammar⟩ = p.run ⟨config, grammar⟩ ∧
      ((∀ r, (grammar.rule r config).RaisesOnly fun f => ¬ f.IsCapability) →
        (Setting.mk config grammar).Each (Coupling.IsKept (fun f => ¬ f.IsCapability) False) →
        p.Each (Coupling.IsKept (fun f => ¬ f.IsCapability) False) →
        ∀ c s f t, c.pos ≤ c.items.size → p.run ⟨config', grammar⟩ c s = .error f t →
          ¬ f.IsCapability) := by
  have hsame : p.run ⟨config', grammar⟩ = p.run ⟨config, grammar⟩ := by
    funext c
    exact congrFun (runWithin_config hrules hgrammar _ hp).symm c
  refine ⟨hsame, fun hraises hkept hkeptp c s f t hc hf => ?_⟩
  have hown (f : Fault) (h : ¬ f.IsForeign) : ¬ f.IsCapability := by
    cases f with
    | capabilityDisabled capability => exact absurd trivial h
    | _ => exact not_false
  have hruns := run_keeps_of_own hown hkept hraises hkeptp hc s
  rw [hsame] at hf
  rw [hf] at hruns
  exact hruns

/-- A list of lists, between brackets; the parser of its only rule is one and the same whatever is
    switched on. -/
def lists : Grammar Unit where
  rule _ _ := pure (.between (.char '(')
    (repeated (.defer (.definition "list") "list") .list none 0) (.char ')'))
  forward _ := none

/-- Lists that were built in advance are read where lists are off. -/
theorem run_config_eq_lists :
    (Parser.defer (.definition "list") "list").run ⟨.minimal, lists⟩
      ⟨.sequence (.text #['(', '(', ')', '(', ')', ')']), 0, 0, { levels := 3 }⟩ () =
        .ok (.success (.list [.list [], .list []]) 6) () ∧
    ∀ c s f t, c.pos ≤ c.items.size →
      (Parser.defer (.definition "list") "list").run ⟨.minimal, lists⟩ c s = .error f t →
      ¬ f.IsCapability := by
  have heach {P : Parser Unit → Prop} (hchar : ∀ c, P (.char c))
      (hsequence : ∀ ps, P (.sequence .middle ps)) (hmany : ∀ p, P (repeated p .list none 0))
      (hdefer : ∀ rule label, P (.defer rule label)) :
      (Setting.mk {} lists).Each P := by
    refine ⟨?_, nofun⟩
    rintro r s _ t ⟨⟩
    refine .node (hsequence _) fun q hq => ?_
    cases hq with
    | sequence hq =>
      simp only [List.mem_cons, List.not_mem_nil, or_false] at hq
      rcases hq with rfl | rfl | rfl
      · exact .node (hchar _) nofun
      · refine .node (hmany _) fun q hq => ?_
        cases hq with
        | element => exact .node (hdefer _ _) nofun
      · exact .node (hchar _) nofun
  have hsame : (Setting.mk {} lists).Each (SameUnder {} .minimal) :=
    heach (fun _ => trivial) (fun _ => trivial) (fun _ => trivial) fun _ _ => trivial
  have hkept : (Setting.mk {} lists).Each (Coupling.IsKept (fun f => ¬ f.IsCapability) False) :=
    heach (fun _ => ⟨trivial, trivial⟩) (fun _ => ⟨trivial, trivial⟩) (fun _ => ⟨trivial, trivial⟩)
      fun _ _ => ⟨trivial, trivial⟩
  have hrules (r : Rule) : lists.rule r .minimal = lists.rule r {} := rfl
  have hp : (Parser.defer (.definition "list") "list" : Parser Unit).Each (SameUnder {} .minimal) :=
    .node trivial nofun
  obtain ⟨hrun, hnever⟩ := run_config_eq hrules hsame hp
  refine ⟨?_, hnever (fun r => Action.raisesOnly_pure _) hkept (.node ⟨trivial, trivial⟩ nofun)⟩
  rw [hrun]
  with_unfolding_all rfl

/-- The same lists, with a rule whose parser is built whenever it is entered. -/
def builtLists : Grammar Unit where
  rule _ config := Action.ofExcept <|
    (repeat? config (.defer (.definition "list") "list") .list none 0).map fun p =>
      .between (.char '(') p (.char ')')
  forward _ := none

/-- **A rule is built by the run.** A deferred parser is there whatever is switched on, and comes to
    a list in one run and to a fault in another, by what is switched on while it runs. -/
theorem run_config_ne_builtLists :
    (Parser.defer (.definition "list") "list").run ⟨{}, builtLists⟩
        ⟨.sequence (.text #['(', '(', ')', '(', ')', ')']), 0, 0, { levels := 3 }⟩ () =
          .ok (.success (.list [.list [], .list []]) 6) () ∧
      (Parser.defer (.definition "list") "list").run ⟨.minimal, builtLists⟩
        ⟨.sequence (.text #['(', '(', ')', '(', ')', ')']), 0, 0, { levels := 3 }⟩ () =
          .error (.capabilityDisabled "growable-sequence") () := by
  constructor
  · with_unfolding_all rfl
  · with_unfolding_all rfl

end Parser

end Itemwise
