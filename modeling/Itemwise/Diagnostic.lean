import Itemwise.Fault
import Itemwise.Value.Display
import Itemwise.Value.Plain

namespace Itemwise

/-!
# Diagnostics

The faults that are about the use of this library carry a **diagnostic**: a numbered code, a message
and, mostly, a hint.

* `DiagnosticCode` — the codes, with their names and numbers;
* `Diagnostic` — a code with its texts, and how they are laid out;
* `Fault.diagnostic?` — the diagnostic of a fault;
* `Fault.ofTemplate` — the fault of a diagnostic that is named, made of any values;
* `Fault.message?` — the text of every fault whose wording is this library's own;
* `FaultClass` — the classes of faults and which class includes which.
-/

/-- The codes, grouped by their thousands: construction, definition, limits, configuration. -/
inductive DiagnosticCode
  | emptyPatternSet
  | invalidPattern
  | invalidByteTarget
  | emptyFinderSet
  | invalidRepetition
  | forwardUndefined
  | forwardRedefined
  | maxDepthExceeded
  | capabilityDisabled
  | unknownCapability
  | invalidConfigValue
deriving DecidableEq, Repr

namespace DiagnosticCode

/-- All codes, in the order of their numbers. -/
def all : List DiagnosticCode :=
  [.emptyPatternSet, .invalidPattern, .invalidByteTarget, .emptyFinderSet, .invalidRepetition,
    .forwardUndefined, .forwardRedefined, .maxDepthExceeded, .capabilityDisabled,
    .unknownCapability, .invalidConfigValue]

/-- The number of a code. -/
def number : DiagnosticCode → Nat
  | .emptyPatternSet => 1001
  | .invalidPattern => 1002
  | .invalidByteTarget => 1003
  | .emptyFinderSet => 1004
  | .invalidRepetition => 1005
  | .forwardUndefined => 2001
  | .forwardRedefined => 2002
  | .maxDepthExceeded => 3001
  | .capabilityDisabled => 4001
  | .unknownCapability => 4002
  | .invalidConfigValue => 4003

/-- The name of a code. -/
def label : DiagnosticCode → String
  | .emptyPatternSet => "EMPTY_PATTERN_SET"
  | .invalidPattern => "INVALID_PATTERN"
  | .invalidByteTarget => "INVALID_BYTE_TARGET"
  | .emptyFinderSet => "EMPTY_FINDER_SET"
  | .invalidRepetition => "INVALID_REPETITION"
  | .forwardUndefined => "FORWARD_UNDEFINED"
  | .forwardRedefined => "FORWARD_REDEFINED"
  | .maxDepthExceeded => "MAX_DEPTH_EXCEEDED"
  | .capabilityDisabled => "CAPABILITY_DISABLED"
  | .unknownCapability => "UNKNOWN_CAPABILITY"
  | .invalidConfigValue => "INVALID_CONFIG_VALUE"

/-- The code of a name. -/
def ofLabel? (s : String) : Option DiagnosticCode := all.find? fun c => c.label == s

/-- No code is missing among all of them. -/
theorem mem_all (c : DiagnosticCode) : c ∈ all := by cases c <;> decide

end DiagnosticCode

/-- A code, a message and an optional hint. -/
structure Diagnostic where
  code : DiagnosticCode
  message : String
  hint : Option String := none
deriving DecidableEq, Repr

namespace Diagnostic

/-- The message under its code, and the hint, if there is one, on a line of its own. -/
def format (d : Diagnostic) : String :=
  let head := "error[" ++ d.code.label ++ "]: " ++ d.message
  match d.hint with
  | some h => if h.isEmpty then head else head ++ "\n  = help: " ++ h
  | none => head

end Diagnostic

/-- The classes of faults that this library raises under names of its own. -/
inductive FaultClass
  | any
  | pattern
  | definition
  | depthLimit
  | configuration
  | capability
deriving DecidableEq, Repr

namespace FaultClass

/-- All classes, a class before those it includes. -/
def all : List FaultClass := [.any, .pattern, .definition, .depthLimit, .configuration, .capability]

/-- Whether every fault of the first class is one of the second. -/
def within : FaultClass → FaultClass → Bool
  | _, .any => true
  | .capability, .configuration => true
  | a, b => a == b

/-- Whether the faults of a class are about the value of an argument. -/
def aboutValue : FaultClass → Bool
  | .pattern | .configuration | .capability => true
  | .any | .definition | .depthLimit => false

end FaultClass

namespace Fault

/-- The written form of a value inside a message. -/
def shown (v : Value) : String := String.ofList v.display

/-- A value as a word of a message: a text as it is. -/
def written : Value → String
  | .text cs => String.ofList cs
  | v => shown v

/-- The diagnostic of a fault, if it carries one. -/
def diagnostic? : Fault → Option Diagnostic
  | .emptyPatternSet builder => some
      ⟨.emptyPatternSet, builder ++ "() requires at least one pattern",
        some "Pass literal items or ItemRange bounds"⟩
  | .invalidRange low high => some
      ⟨.invalidPattern, "Invalid item range: " ++ shown low ++ " > " ++ shown high,
        some "ItemRange bounds are inclusive and must satisfy low <= high"⟩
  | .invalidByteTarget target => some
      ⟨.invalidByteTarget, "Invalid byte target: " ++ shown target,
        some "Use an int in 0..255, a 1-length bytes, or a 1-length str below U+0100"⟩
  | .emptyFinderSet => some ⟨.emptyFinderSet, "Byte scanning requires at least one target", none⟩
  | .invalidRepetition parameter value => some
      ⟨.invalidRepetition, "Invalid " ++ parameter ++ ": " ++ written value,
        some (parameter ++ " must not be negative")⟩
  | .forwardUndefined name => some
      ⟨.forwardUndefined, "Forward parser '" ++ name ++ "' was run before being defined",
        some "Call define() on the forward declaration before parsing"⟩
  | .forwardRedefined name => some
      ⟨.forwardRedefined, "Forward parser '" ++ name ++ "' is already defined",
        some "A forward declaration can be defined exactly once"⟩
  | .depthExceeded limit => some
      ⟨.maxDepthExceeded,
        "Maximum recursion depth (" ++ written limit ++ ") exceeded",
        some "Pass a larger max_depth to parse() or flatten the grammar"⟩
  | .capabilityDisabled capability => some
      ⟨.capabilityDisabled, "Capability '" ++ capability ++ "' is disabled",
        some "Enable it via EngineConfig or the COMBPARSE_CAPABILITIES variable"⟩
  | .unknownCapability name => some
      ⟨.unknownCapability, "Unknown capability '" ++ name ++ "'", none⟩
  | .invalidSetting name value => some
      ⟨.invalidConfigValue, "Invalid value for " ++ name ++ ": " ++ shown value, none⟩
  | _ => none

/-- The names of the faults that carry a diagnostic, in which a grammar that is given as data refers
    to them. -/
def templates : List String :=
  ["empty_pattern_set", "invalid_range", "invalid_byte_target", "empty_finder_set",
    "invalid_repetition", "forward_undefined", "forward_redefined", "depth_exceeded",
    "capability_disabled", "unknown_capability", "invalid_config_value"]

/-- The fault of a name, made of values that have a written form. -/
def ofTemplate (name : String) (values : List Value) : Except Fault Fault := do
  values.forM Value.checkWritten
  match name, values with
  | "empty_pattern_set", [builder] => return .emptyPatternSet (written builder)
  | "invalid_range", [low, high] => return .invalidRange low high
  | "invalid_byte_target", [target] => return .invalidByteTarget target
  | "empty_finder_set", [] => return .emptyFinderSet
  | "invalid_repetition", [parameter, value] => return .invalidRepetition (written parameter) value
  | "forward_undefined", [declared] => return .forwardUndefined (written declared)
  | "forward_redefined", [declared] => return .forwardRedefined (written declared)
  | "depth_exceeded", [limit] => return .depthExceeded limit
  | "capability_disabled", [capability] => return .capabilityDisabled (written capability)
  | "unknown_capability", [capability] => return .unknownCapability (written capability)
  | "invalid_config_value", [setting, value] => return .invalidSetting (written setting) value
  | _, _ => throw (if templates.contains name then .wrongKind else .missingPart)

/-- The class of a fault, if it has one of this library's. -/
def class? : Fault → Option FaultClass
  | .emptyPatternSet _ | .invalidRange .. | .invalidByteTarget _ | .emptyFinderSet
  | .invalidRepetition .. => some .pattern
  | .forwardUndefined _ | .forwardRedefined _ => some .definition
  | .depthExceeded _ => some .depthLimit
  | .capabilityDisabled _ => some .capability
  | .unknownCapability _ | .invalidSetting .. => some .configuration
  | _ => none

/-- The text of a fault, where the wording is this library's own. -/
def message? : Fault → Option String
  | .cursorOutside position size =>
    some ("Cursor position " ++ written position ++ " outside 0.."
      ++ String.ofList (Decimal.ofNat size))
  | .unexpectedEnd position =>
    some ("Unexpected EOF at position " ++ written position)
  | .invalidSpan start stop =>
    some ("Invalid span [" ++ written start ++ ", " ++ written stop ++ ")")
  | .arrayIndex => some "FixedArray index out of range"
  | .tooFewParsers builder => some (builder ++ "() requires at least two parsers")
  | .benchmarkMismatch message => some message
  | f => f.diagnostic?.map Diagnostic.format

/-- A fault has a class exactly when it has a diagnostic. -/
theorem class?_isSome_iff (f : Fault) : f.class?.isSome = f.diagnostic?.isSome := by
  cases f <;> rfl

end Fault

end Itemwise
