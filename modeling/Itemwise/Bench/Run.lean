import Itemwise.Bench.Generate
import Itemwise.Bench.Report
import Itemwise.Function.StateFn
import Itemwise.Json.Parser
import Itemwise.LineItem.Parser
import Itemwise.SemVer.Parser

namespace Itemwise.Bench

/-!
# Benchmarks

* `scanning`, `configuration`, `versions`, `documents` — the benchmarks;
* `run` — the named benchmarks, one after the other.

The time is read from a clock that is a parameter.
-/

variable {m : Type → Type} [Monad m]

/-- The name of a benchmark. -/
inductive Name
  | scanning
  | lines
  | semver
  | json
deriving DecidableEq, Repr

namespace Name

/-- All benchmarks, in the order in which they run. -/
def all : List Name := [.scanning, .lines, .semver, .json]

/-- The name as text. -/
def label : Name → String
  | .scanning => "scanning"
  | .lines => "lines"
  | .semver => "semver"
  | .json => "json"

/-- The benchmark of a name. -/
def ofLabel? (s : String) : Option Name := all.find? fun n => n.label == s

end Name

/-- A run of a parser without user state. -/
def outcomeOf (config : Config) (p : Parser Unit) (items : Items) : Except Fault (Outcome Value) :=
  match p.parse ⟨config, Json.grammar⟩ items Depth.limit () with
  | .ok outcome _ => .ok outcome
  | .error fault _ => .error fault

/-- A result that is reported only if it is the expected one. -/
def expecting (what : String) (expected found : Int) : Except Fault Unit :=
  if found = expected then .ok ()
  else .error (.benchmarkMismatch (what ++ " found " ++ String.ofList (Decimal.ofInt found)
    ++ ", expected " ++ String.ofList (Decimal.ofInt expected)))

/-- The searches for a byte in a long sequence, compared with looking at every byte. -/
def scanning (clock : ExceptT Fault m Float) (config : Config) (rounds : Int) (source : Source) :
    ExceptT Fault m (List Report) := do
  let data ← liftExcept (drawnFrom source (buffer 65536 10))
  let items := Items.octets .fixed data.toArray
  let finder : Finder := ⟨.eq, 10⟩
  let searches : List (String × (Unit → Except Fault Int)) :=
    [("find_byte_index", fun _ => .ok (position (Search.index? items 0 [finder]))),
      ("find_byte", fun _ => (outcomeOf config (.scan .through [finder]) items).map yielded),
      ("until_byte", fun _ => (outcomeOf config (.scan .stretch [finder]) items).map stretched),
      ("naive scan", fun _ => .ok (position (Search.naive? items 0 [finder])))]
  searches.mapM fun (name, search) => do
    let (best, found) ← bestOf clock rounds (do liftExcept (search ()))
    liftExcept (expecting name (items.size - 1) found)
    return ⟨("scanning/" ++ name).toList, best, rounds,
      Decimal.ofNat items.size ++ " bytes".toList⟩
where
  /-- A result as an action. -/
  liftExcept {α : Type} (r : Except Fault α) : ExceptT Fault m α := ExceptT.mk (pure r)
  /-- A position, or `-1` for none. -/
  position (i : Option Nat) : Int := match i with
    | some n => n
    | none => -1
  /-- The number that a search yielded. -/
  yielded (o : Outcome Value) : Int := match o with
    | .success (.int n) _ => n
    | _ => -1
  /-- The length of the stretch that a search yielded. -/
  stretched (o : Outcome Value) : Int := match o with
    | .success v _ => (v.length?).getD 0
    | .failure _ => -1

/-- The items of some configuration lines. -/
def itemsOfLines (config : Config) (ls : List (List Char)) : Except Fault Nat :=
  let p : Parser Session := LineItem.parser storeLine
  let all : Action Session Unit := ls.forM fun l => do
    match ← p.parse ⟨config, Json.grammar⟩
        (.sequence (.text l.toArray)) with
    | .success .. => return ()
    | .failure _ =>
      throw (.benchmarkMismatch ("line not parsed: " ++ String.ofList (Quoted.text l)))
  match all (.ofState (.list [])) with
  | .ok _ session => .ok ((session.content.length?).getD 0)
  | .error fault _ => .error fault

/-- The lines of a configuration file. -/
def configuration (clock : ExceptT Fault m Float) (config : Config) (rounds : Int)
    (source : Source) : ExceptT Fault m (List Report) := do
  let ls := drawnFrom source (lines 2000)
  let (best, count) ← bestOf clock rounds (ExceptT.mk (pure (itemsOfLines config ls)))
  return [⟨"lines".toList, best, rounds, Decimal.ofNat count ++ " items from ".toList
    ++ Decimal.ofNat ls.length ++ " lines".toList⟩]

/-- The version that is read over and over. -/
def longVersion : List Char := "123432134.43213421.5432344-SNAPSHOT+some.build.id".toList

/-- The outcome of reading a version `n + 1` times. -/
def versionTimes (config : Config) (p : Parser Unit) (text : Items) :
    Nat → Except Fault (Outcome Value)
  | 0 => outcomeOf config p text
  | n + 1 => do
    let _ ← outcomeOf config p text
    versionTimes config p text n

/-- A long semantic version. -/
def versions (clock : ExceptT Fault m Float) (config : Config) (rounds : Int) :
    ExceptT Fault m (List Report) := do
  let p : Parser Unit ← ExceptT.mk (pure (SemVer.parser? config))
  let text := Items.text longVersion.toArray
  let (best, outcome) ← bestOf clock rounds (do ExceptT.mk (pure (versionTimes config p text 299)))
  if outcome.isSuccess then
    return [⟨"semver".toList, best, rounds, "300 parses".toList⟩]
  else
    throw (.benchmarkMismatch ("version not parsed: " ++ String.ofList longVersion))

/-- A generated JSON document. -/
def documents (clock : ExceptT Fault m Float) (config : Config) (rounds : Int) (source : Source) :
    ExceptT Fault m (List Report) := do
  let text := drawnFrom source (document 500)
  let p : Parser Unit ← ExceptT.mk (pure (Json.document? config))
  let items := Items.text text.toArray
  let (best, outcome) ← bestOf clock rounds (do ExceptT.mk (pure (outcomeOf config p items)))
  match outcome with
  | .success .. =>
    return [⟨"json".toList, best, rounds, Decimal.ofNat text.length ++ " chars".toList⟩]
  | o =>
    let q ← ExceptT.mk (pure o.pos)
    throw (.benchmarkMismatch
      ("generated JSON not parsed at offset " ++ String.ofList (Decimal.ofNat q)))

/-- One benchmark. -/
def runOne (clock : ExceptT Fault m Float) (config : Config) (rounds : Int) (source : Source) :
    Name → ExceptT Fault m (List Report)
  | .scanning => scanning clock config rounds source
  | .lines => configuration clock config rounds source
  | .semver => versions clock config rounds
  | .json => documents clock config rounds source

/-- The named benchmarks, each on a source of its own; the harness has to be on. -/
def run (clock : ExceptT Fault m Float) (config : Config) (names : List String) (rounds : Int)
    (source : Source) : ExceptT Fault m (List Report) := do
  ExceptT.mk (pure (config.require .benchmarkHarness))
  let reports ← names.mapM fun s => do
    let name ← ExceptT.mk (pure (Fault.attempt .missingKey (Name.ofLabel? s)))
    runOne clock config rounds source name
  return reports.flatten

end Itemwise.Bench
