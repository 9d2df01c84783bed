import Itemwise.Bench.Run
import Itemwise.Decimal.Integer
import Itemwise.Diagnostic

namespace Itemwise.Bench

/-!
# The benchmark command

* `Options` — what can be asked for on the command line;
* `Options.ofArguments` — the options that arguments ask for;
* `usage` — what the command says about itself when asked for help;
* `Ending`, `command` — what the command prints and the code it ends with.
-/

/-- What the command was asked to do. -/
structure Options where
  help : Bool := false
  rounds : Int := 10
  only : List String := Name.all.map Name.label
  seed : Int := 0x5eed

namespace Options

/-- What an option sets. -/
inductive Setting
  | help
  | rounds
  | only
  | seed
deriving DecidableEq, Repr

namespace Setting

/-- All settings. -/
def all : List Setting := [.help, .rounds, .only, .seed]

/-- The long spelling of an option. -/
def label : Setting → String
  | .help => "--help"
  | .rounds => "--rounds"
  | .only => "--only"
  | .seed => "--seed"

/-- The setting of a letter that is the short spelling of an option. -/
def ofLetter? : Char → Option Setting
  | 'h' => some .help
  | 'n' => some .rounds
  | _ => none

/-- The settings of a long spelling, which may be cut short as long as it fits one option only. -/
def ofLong (s : List Char) : List Setting := all.filter fun k => s.isPrefixOf k.label.toList

end Setting

/-- How an argument is understood. -/
inductive Role
  /-- A value of the option before it, if that takes one. -/
  | value
  /-- An option, with the value attached to it. -/
  | option (setting : Setting) (attached : Option String)
  /-- A request for help in one word with an option whose value has to follow. -/
  | helpBefore (setting : Setting)
  /-- What looks like an option and is none, or fits several. -/
  | unknown (fits : List Setting)

/-- Whether a text is a hyphen and a number: digits, with a point before some of them or none.  A
    newline may follow. -/
def isNegative (s : List Char) : Bool :=
  let isDigit (c : Char) : Bool := (DecimalDigit.value? c).isSome
  let ending (ds : List Char) : Bool :=
    !ds.isEmpty && (ds.dropWhile isDigit == [] || ds.dropWhile isDigit == ['\n'])
      && ds.head?.any isDigit
  match s with
  | '-' :: ds => ending ds || match ds.dropWhile isDigit with
    | '.' :: ds => ending ds
    | _ => false
  | _ => false

/-- What is attached to an option with an equals sign, if anything is. -/
def afterEquals (s : List Char) : Option String :=
  match s.dropWhile (· != '=') with
  | [] => none
  | _ :: value => some (String.ofList value)

/-- How a request for help by its letter is understood, given what follows the letter: other
    letters, of which the first may ask for something else, but no value. -/
def helpRole : List Char → Role
  | [] => .option .help none
  | c :: rest =>
    if c = '=' ∨ c = '-' then .option .help (some (String.ofList (c :: rest)))
    else
      match Setting.ofLetter? c, rest with
      | some .help, rest => helpRole rest
      | some k, [] => .helpBefore k
      | _, _ => .option .help none

/-- How an argument is understood.  A long spelling is followed by `=` and the value, a short one by
    the value with or without a `=`; other letters may follow a short one that takes no value.  What
    is no option is a value if it does not start with a hyphen, is a negative number or has a blank
    in it. -/
def role (s : String) : Role :=
  match s.toList with
  | '-' :: '-' :: rest =>
    match Setting.ofLong ('-' :: '-' :: rest.takeWhile (· != '=')) with
    | [k] => .option k (afterEquals rest)
    | [] => if rest.contains ' ' then .value else .unknown []
    | ks => .unknown ks
  | '-' :: c :: rest =>
    match Setting.ofLetter? c, rest with
    | some .help, rest => helpRole rest
    | some k, [] => .option k none
    | some k, '=' :: value => .option k (some (String.ofList value))
    | some k, value => .option k (some (String.ofList value))
    | none, _ => if isNegative s.toList || (c :: rest).contains ' ' then .value else .unknown []
  | _ => .value

/-- Whether an argument can be a value of the option before it. -/
def isValue (s : String) : Bool :=
  match role s with
  | .value => true
  | _ => false

/-- The number that a value denotes. -/
def number (label v : String) : Except String Int :=
  match Decimal.ofText? v.toList with
  | some n => .ok n
  | none => .error ("argument " ++ label ++ ": invalid int value: '" ++ v ++ "'")

/-- The one value of an option, which is attached to it or follows it, and the arguments after
    that. -/
def oneValue (label : String) (attached : Option String) (rest : List String) :
    Except String (String × List String) :=
  match attached, rest with
  | some v, _ => .ok (v, rest)
  | none, v :: rest =>
    if isValue v then .ok (v, rest) else .error ("argument " ++ label ++ ": expected one argument")
  | none, [] => .error ("argument " ++ label ++ ": expected one argument")

/-- The benchmarks named by some values. -/
def chosen (label : String) (values : List String) : Except String (List String) :=
  if values.isEmpty then .error ("argument " ++ label ++ ": expected at least one argument")
  else
    match values.find? fun v => (Name.ofLabel? v).isNone with
    | some v => .error ("argument " ++ label ++ ": invalid choice: '" ++ v ++ "'")
    | none => .ok values

/-- Sets one option from the arguments after it, the attached value being its only one if there is
one, and gives the arguments that are left. -/
def set (o : Options) (setting : Setting) (attached : Option String) (rest : List String) :
    Except String (Options × List String) := do
  match setting with
  | .help =>
    if attached.isSome then throw ("argument " ++ setting.label ++ ": expected no argument")
    return ({ o with help := true }, rest)
  | .rounds =>
    let (v, left) ← oneValue setting.label attached rest
    return ({ o with rounds := ← number setting.label v }, left)
  | .seed =>
    let (v, left) ← oneValue setting.label attached rest
    return ({ o with seed := ← number setting.label v }, left)
  | .only =>
    let following := if attached.isSome then [] else rest.takeWhile isValue
    let names ← chosen setting.label (attached.toList ++ following)
    return ({ o with only := names }, rest.drop following.length)

/-- Reads arguments, of which there are at most `fuel`; those after a request for help are not
    looked at, and the first of those that nothing takes is reported at the end. -/
def read : (fuel : Nat) → (extra : Option String) → List String → Options → Except String Options
  | _, none, [], o => .ok o
  | _, some a, [], _ => .error ("unrecognized arguments: " ++ a)
  | 0, _, _ :: _, _ => .error "too many arguments"
  | fuel + 1, extra, a :: rest, o =>
    match role a with
    | .option setting attached => do
      let (o, left) ← o.set setting attached rest
      if o.help then return o else read fuel extra left o
    | .helpBefore setting => (oneValue setting.label none rest).map fun _ => { o with help := true }
    | _ => read fuel (extra.or (some a)) (if a == "--" then [] else rest) o

/-- The options that some arguments ask for; an argument that fits several is reported before all
    else. -/
def ofArguments (arguments : List String) : Except String Options :=
  match (arguments.takeWhile (· != "--")).find? isAmbiguous with
  | some a => .error ("ambiguous option: " ++ a)
  | none => read arguments.length none arguments {}
where
  /-- Whether an argument fits several options. -/
  isAmbiguous (s : String) : Bool :=
    match role s with
    | .unknown ks => !ks.isEmpty
    | _ => false

end Options

/-- What the command says about itself. -/
def usage : List String :=
  ["usage: itemwise-bench [-h] [--rounds ROUNDS]",
    "                      [--only \x7bjson,lines,scanning,semver\x7d [\x7bjson,lines,scanning,semver\x7d ...]]",
    "                      [--seed SEED]",
    "",
    "Measure throughput (best-of-N wall-clock time).",
    "",
    "options:",
    "  -h, --help            show this help message and exit",
    "  --rounds ROUNDS, -n ROUNDS",
    "                        Rounds per benchmark; the best round is reported",
    "                        (default: 10)",
    "  --only \x7bjson,lines,scanning,semver\x7d [\x7bjson,lines,scanning,semver\x7d ...]",
    "                        Benchmarks to run (default: all)",
    "  --seed SEED           Seed for generated inputs"]

/-- What the command leaves behind: its exit code and what it printed. -/
structure Ending where
  code : UInt8
  output : List String := []
  errors : String := ""

/-- The benchmarks that some arguments ask for. -/
def command {m : Type → Type} [Monad m] (clock : m Float) (config : Config)
    (arguments : List String) : m Ending := do
  match Options.ofArguments arguments with
  | .error message => return { code := 2, errors := "error: " ++ message ++ "\n" }
  | .ok o =>
    if o.help then return { code := 0, output := usage }
    match ← (run (ExceptT.lift clock) config o.only o.rounds (.scrambled o.seed.toNat)).run with
    | .ok reports => return { code := 0, output := reports.map fun r => String.ofList r.line }
    | .error fault =>
      return { code := 1, errors := "[FAIL] " ++ (fault.message?).getD "" ++ "\n" }

end Itemwise.Bench
