import Itemwise.Decimal.Fixed
import Itemwise.Diagnostic
import Itemwise.Value.Arithmetic
import Itemwise.Value.Truth

namespace Itemwise.Bench

/-!
# Reports

* `Report` — the best time of a benchmark;
* `Report.line` — the line it is printed as, and `lineOfValues` the same for values;
* `bestOf` — a piece of work done several times, with the shortest time it took.
-/

/-- The best time of one benchmark. -/
structure Report where
  name : List Char
  bestSeconds : Float
  rounds : Int
  detail : List Char := []

/-- A text with blanks after it, up to a width. -/
def padRight (width : Nat) (cs : List Char) : List Char :=
  cs ++ List.replicate (width - cs.length) ' '

/-- A text with blanks before it, up to a width. -/
def padLeft (width : Nat) (cs : List Char) : List Char :=
  List.replicate (width - cs.length) ' ' ++ cs

/-- A number of microseconds, to one place. -/
def microseconds (x : Float) : List Char := padLeft 12 (Fixed.ofFloat 1 x)

/-- A printed form of its parts, which are as wide as they have to be. -/
def lineOf (name rounds time : List Char) (detail : List Char) : List Char :=
  name ++ " best of ".toList ++ rounds ++ [':', ' '] ++ time ++ " us".toList ++ detail

/-- A detail in parentheses. -/
def parenthesized (detail : List Char) : List Char := ' ' :: '(' :: detail ++ [')']

/-- The printed form: the name, the rounds, the best time in microseconds to one place, and the
    detail if there is one. -/
def Report.line (r : Report) : List Char :=
  lineOf (padRight 24 r.name) (padLeft 3 (Decimal.ofInt r.rounds))
    (microseconds (r.bestSeconds * 1000000)) (if r.detail.isEmpty then []
      else parenthesized r.detail)

/-! ### Reports of given values -/

/-- A text or a number in a field that is filled up; a truth value counts as a number. -/
def field (pad : List Char → List Char) : Value → Except Fault (List Char)
  | .text cs => .ok (pad cs)
  | .float x => .ok (pad (Value.floatStyle.float x.number))
  | v => do
    let n ← Fault.attempt .wrongKind v.toInt?
    Value.checkDigits n
    return pad (Decimal.ofInt n)

/-- A time in seconds as microseconds; a text is no time. -/
def time : Value → Except Fault (List Char)
  | .float x => .ok (microseconds (x.number * 1000000))
  | .text _ => .error .badValue
  | v => do
    let n ← Fault.attempt .wrongKind v.toInt?
    return microseconds (← Value.floatOfInt (n * 1000000))

/-- The printed form of a name, a time, a number of rounds and a detail, which may be missing; a
    detail is printed if it counts as true. -/
def lineOfValues (parts : List Value) : Except Fault (List Char) := do
  let (name, seconds, rounds, detail) ← match parts with
    | [name, seconds, rounds] => pure (name, seconds, rounds, Value.text [])
    | [name, seconds, rounds, detail] => pure (name, seconds, rounds, detail)
    | _ => throw Fault.wrongKind
  detail.checkWritten
  return lineOf (← field (padRight 24) name) (← field (padLeft 3) rounds) (← time seconds)
    (if detail.isTrue then parenthesized (Fault.written detail).toList else [])

/-- The rounds that a value asks for, of which there is always one; a fraction above one asks for no
    number of them. -/
def roundsOf (v : Value) : Except Fault Int := do
  if ← Value.test .gt v (.int 1) then Fault.attempt .wrongKind v.toInt? else return 1

/-- Does a piece of work once and then `more` times; gives the shortest time it took and its last
    result. -/
def bestOfSucc {m : Type → Type} [Monad m] {α : Type} (clock : m Float) (work : m α) :
    (more : Nat) → (best : Option Float) → m (Float × α)
  | more, best => do
    let start ← clock
    let result ← work
    let elapsed := (← clock) - start
    let best := match best with
      | some b => if elapsed < b then elapsed else b
      | none => elapsed
    match more with
    | 0 => return (best, result)
    | n + 1 => bestOfSucc clock work n (some best)

/-- Does a piece of work `rounds` times, but at least once. -/
def bestOf {m : Type → Type} [Monad m] {α : Type} (clock : m Float) (rounds : Int) (work : m α) :
    m (Float × α) :=
  bestOfSucc clock work (rounds.toNat - 1) none

end Itemwise.Bench
