import Itemwise.Fault
import Itemwise.Text.Blank
import Itemwise.Text.Lowercase

namespace Itemwise

/-!
# Capabilities

The core of the library is always there; what allocates without bound, and the components around the
core, are **capabilities** that a configuration switches on.

* `Capability` — the capabilities and their names;
* `Config` — which of them are on;
* `Config.ofNames` — the configuration of a list of names;
* `Config.ofSetting` — the configuration that the text of an environment variable describes;
* `Config.within` — another configuration made active for a while;
* `Config.require` — the check made when something is built.
-/

/-- An optional part of the library. -/
inductive Capability
  | growableSequence
  | growableMapping
  | exampleGrammars
  | benchmarkHarness
deriving DecidableEq, Repr

namespace Capability

/-- All capabilities. -/
def all : List Capability :=
  [.growableSequence, .growableMapping, .exampleGrammars, .benchmarkHarness]

/-- The name of a capability. -/
def label : Capability → String
  | .growableSequence => "growable-sequence"
  | .growableMapping => "growable-mapping"
  | .exampleGrammars => "example-grammars"
  | .benchmarkHarness => "benchmark-harness"

/-- The capability of a name. -/
def ofLabel? (s : String) : Option Capability := all.find? fun c => c.label == s

/-- A capability is found again by its label. -/
theorem ofLabel?_label (c : Capability) : ofLabel? c.label = some c := by cases c <;> decide

end Capability

/-- The set of capabilities that are on. -/
structure Config where
  growableSequence : Bool := true
  growableMapping : Bool := true
  exampleGrammars : Bool := true
  benchmarkHarness : Bool := true
deriving DecidableEq, Repr

namespace Config

/-- The core alone. -/
def minimal : Config := ⟨false, false, false, false⟩

/-- Whether a capability is on. -/
def enabled (config : Config) : Capability → Bool
  | .growableSequence => config.growableSequence
  | .growableMapping => config.growableMapping
  | .exampleGrammars => config.exampleGrammars
  | .benchmarkHarness => config.benchmarkHarness

/-- The configuration with one capability switched on or off. -/
def set (config : Config) (on : Bool) : Capability → Config
  | .growableSequence => { config with growableSequence := on }
  | .growableMapping => { config with growableMapping := on }
  | .exampleGrammars => { config with exampleGrammars := on }
  | .benchmarkHarness => { config with benchmarkHarness := on }

/-- Switching one capability leaves the others as they are. -/
theorem enabled_set (config : Config) (on : Bool) (c d : Capability) :
    (config.set on c).enabled d = if d = c then on else config.enabled d := by
  cases c <;> cases d <;> rfl

/-- The names of the capabilities that are on, in alphabetical order. -/
def names (config : Config) : List String :=
  ([.benchmarkHarness, .exampleGrammars, .growableMapping, .growableSequence].filter
    config.enabled).map Capability.label

/-- The capability of a name, or the fault that it is unknown. -/
def capability (name : String) : Except Fault Capability :=
  Fault.attempt (.unknownCapability name) (Capability.ofLabel? name)

/-- The configuration with the named capabilities switched on or off. -/
def setNames (config : Config) (on : Bool) (names : List String) : Except Fault Config := do
  let cs ← names.mapM capability
  pure (cs.foldl (fun config c => config.set on c) config)

/-- The configuration of the named capabilities. -/
def ofNames (names : List String) : Except Fault Config := minimal.setNames true names

/-- The configuration of a set of names that were not turned into capabilities: a name is no
    capability, so only the empty set is accepted. -/
def ofRaw : List String → Except Fault Config
  | [] => pure minimal
  | name :: _ => throw (.unknownCapability name)

/-- The parts of a text between commas. -/
def splitCommas : List Char → List (List Char)
  | [] => [[]]
  | c :: cs =>
    match splitCommas cs with
    | [] => [[c]]
    | part :: parts => if c = ',' then [] :: part :: parts else (c :: part) :: parts

/-- The environment variable that holds the setting. -/
def variableName : String := "COMBPARSE_CAPABILITIES"

/-- The configuration that a setting describes: names between commas, `all` or `none`, whatever the
    case and the blanks around them.  A setting that is unset or blank means all. -/
def ofSetting (setting : Option String) : Except Fault Config :=
  let raw := Lowercase.ofText (Blank.trim (setting.getD "").toList)
  if raw = [] ∨ raw = "all".toList then pure {}
  else if raw = "none".toList then pure minimal
  else ofNames ((((splitCommas raw).map Blank.trim).filter fun part => !part.isEmpty).map
    String.ofList)

/-- The configuration of a setting that is a value: nothing is a setting that is unset, and what is
    neither that nor a text cannot be read as one. -/
def ofSettingValue : Value → Except Fault Config
  | .null => ofSetting none
  | .text cs => ofSetting (some (String.ofList cs))
  | .octets kind _ => .error (if kind.isView then .missingPart else .wrongKind)
  | _ => .error .missingPart

/-- A computation on the active configuration, run with `inner` active, and the configuration from
    before it restored. -/
def within {α : Type} (active inner : Config) (body : Config → α × Config) : α × Config :=
  ((body inner).1, active)

/-- Checks that a capability is on. -/
def require (config : Config) (c : Capability) : Except Fault Unit :=
  if config.enabled c then .ok () else .error (.capabilityDisabled c.label)

end Config

end Itemwise
