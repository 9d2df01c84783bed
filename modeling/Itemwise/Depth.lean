import Itemwise.Value.Arithmetic

namespace Itemwise

/-!
# Nesting limits

Every level of a recursive parser takes its share of a stack of bounded height.

* `Limit` — a limit of nesting;
* `Limit.refusal` — the fault of a parser that is entered at the limit;
* `Limit.nesting` — the nesting at a count of levels;
* `Depth.standard` — the limit of a parse that asks for none;
* `Depth.clamp` — a limit cut down to what the stack has room for;
* `Depth.limit` — the limit under which a parse runs;
* `Depth.clampValue`, `Depth.limitOf` — the same for a request that is any value: a truth value
  counts as a number, and a fraction limits the levels to those below it;
* `Depth.nestingOf` — the nesting and the limit of a caller's own context.
-/

/-- A limit of nesting: the number of levels, and the value that it was given as.  A caller may also
    give the nesting that levels are counted from as something else than a whole number; then
    `origin` is the count at which it was given. -/
structure Limit where
  levels : Int
  written : Value := .int levels
  origin : Option (Int × Value) := none

namespace Limit

/-- Whether nesting can be compared with the limit. -/
def isNumber (l : Limit) : Bool := l.written.number?.isSome

/-- What is wrong with entering a parser at the limit: it nests too deeply, or cannot be compared
    with it. -/
def refusal (l : Limit) : Fault := if l.isNumber then .depthExceeded l.written else .wrongKind

/-- A limit that is an integer is refused with that integer. -/
theorem refusal_int (levels d : Int) (origin : Option (Int × Value)) :
    refusal ⟨levels, .int d, origin⟩ = .depthExceeded (.int d) := rfl

/-- The nesting at a count of levels. -/
def nesting (l : Limit) (depth : Int) : Value :=
  match l.origin with
  | none => .int depth
  | some (n, v) => if depth = n then v else (v.add (.int (depth - n))).toOption.getD (.int depth)

end Limit

/-- A number is a limit. -/
instance : Coe Int Limit := ⟨fun n => { levels := n }⟩

namespace Depth

/-- The height of the stack, in frames. -/
def stackFrames : Int := 1000

/-- The frames kept free below a parse. -/
def reservedFrames : Int := 50

/-- The frames that one level of nesting takes. -/
def framesPerLevel : Int := 16

/-- The frames around a run that a caller starts on its own, and in what it calls last. -/
def outerFrames : Int := 15

/-- The frames that a run has for itself that a caller starts on its own. -/
def runFrames : Nat := (stackFrames - outerFrames).toNat

/-- How deeply the containers in a request or an answer may be nested: each level takes two frames,
    and the frames around take five more levels. -/
def answerLevels : Nat := (stackFrames / 2 - 5).toNat

/-- The limit of a parse that asks for none. -/
def standard : Int := 50

/-- The requested limit, or the most levels that fit on the stack if that is less; one level always
    fits. -/
def clamp (requested reserve perLevel : Int) : Except Fault Int :=
  if perLevel = 0 then .error .divisionByZero
  else .ok (min requested (max 1 ((stackFrames - reserve).fdiv perLevel)))

/-- The limit under which a parse runs, which has to be positive. -/
def limit (requested : Option Int := none) : Except Fault Limit :=
  let d := requested.getD standard
  if d ≤ 0 then .error (.invalidSetting "max_depth" (.int d))
  else (clamp d reservedFrames framesPerLevel).map fun d => { levels := d }

/-- The requested limit, or the most levels that fit on the stack if that is less. -/
def clampValue (requested : Value) (reserve : Value := .int reservedFrames)
    (perLevel : Value := .int framesPerLevel) : Except Fault Value := do
  let fitting ← (← (Value.int stackFrames).sub reserve).quotient perLevel
  let most := if ← Value.test .gt fitting (.int 1) then fitting else .int 1
  return if ← Value.test .gt requested most then most else requested

/-- The levels that a fraction allows: those below it.  An infinite one allows more than there can
    be. -/
def levelsBelow (x : Float) : Int :=
  ((Binary64.ofFloat (-x)).floor?).elim (if x < 0 then 0 else Nat.pow 2 62) Int.neg

/-- The limit that a value stands for as it is; what is no number leaves no level. -/
def limitAsGiven : Value → Limit
  | .float x => { levels := levelsBelow x.number, written := .float x }
  | v => { levels := v.toInt?.getD 0, written := v }

/-- The nesting and its limit that two values stand for.  A fractional nesting is counted from
    nothing, below what it leaves of the limit. -/
def nestingOf (depth limit : Value) : Int × Limit :=
  match depth, depth.toInt?, limit.sub depth with
  | .int d, _, _ => (d, limitAsGiven limit)
  | v, some d, _ => (d, { limitAsGiven limit with origin := some (d, v) })
  | v, none, .ok rest => (0, { limitAsGiven rest with written := limit, origin := some (0, v) })
  | _, none, .error _ => (0, { levels := 0, written := .null })

/-- The limit under which a parse runs that asks for one by a value; nothing asks for none. -/
def limitOf : Value → Except Fault Limit
  | .null => limit
  | .int d => limit (some d)
  | v => do
    if ← Value.test .le v (.int 0) then throw (.invalidSetting "max_depth" v)
    return limitAsGiven (← clampValue v)

/-- A positive limit is cut off at 59 levels. -/
theorem limit_eq {d : Int} (h : 0 < d) : limit (some d) = .ok { levels := min d 59 } := by
  have hd : ¬ d ≤ 0 := by omega
  have hm : max 1 ((stackFrames - reservedFrames).fdiv framesPerLevel) = 59 := by decide
  have hf : framesPerLevel ≠ 0 := by decide
  simp [limit, hd, clamp, hm, hf, Except.map]

/-- The limit of a parse is the requested one, or 59 if that is less. -/
theorem limit_eq_ok {d : Int} {l : Limit} (h : limit (some d) = .ok l) :
    0 < d ∧ l = { levels := min d 59 } := by
  by_cases hd : 0 < d
  · rw [limit_eq hd] at h
    exact ⟨hd, (Except.ok.inj h).symm⟩
  · have hrefused : d ≤ 0 := by omega
    simp only [limit, Option.getD_some, if_pos hrefused] at h
    cases h

end Depth

end Itemwise
