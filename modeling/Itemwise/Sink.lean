import Itemwise.Config
import Itemwise.FixedArray
import Itemwise.Step.Basic
import Itemwise.Value.Draft

namespace Itemwise

/-!
# Sinks

What a repetition does with the values of its elements is decided by a **sink**.

* `Sink` — the sinks: those of the library, and any that a caller makes;
* `Sink.Acc` — what a sink has collected so far;
* `Sink.start`, `Sink.push`, `Sink.finish` — the collection at the start, with a further value, and
  as the value of the repetition;
* `Sink.build`, `Sink.ofCapacity` — the checks made before a sink is used.
-/

/-- Where the values of a repetition go.  `σ` is the type of the user state. -/
inductive Sink (σ : Type)
  /-- Nowhere; the repetition yields the stretch it consumed. -/
  | discard
  /-- Into a list. -/
  | list
  /-- Pairs into a dictionary. -/
  | dict
  /-- Pairs into a dictionary, ordered by key at the end. -/
  | sortedDict
  /-- Into a fixed array, which ends the repetition when it is full. -/
  | array (capacity : Int)
  /-- Into a value, from an initial one on that is made anew for each run. -/
  | fold (init : Action σ Value) (f : Value → Value → Action σ Value)
  /-- Into the user state, which is also the value of the repetition. -/
  | foldState (f : Value → Action σ Value) (read : σ → Value)
  /-- Into what a caller's own object does with them.  Each run starts a collection, which may be
      any value; a value is stored by `push`, which says whether there is room for more; and
      `finish` makes the value of the repetition of it, for which it may look at the user state, but
      does not change it. -/
  | own (yieldsStretch : Bool) (start : Action σ Value)
      (push : Value → Value → Action σ (Value × Bool)) (finish : Value → σ → Except Fault Value)

namespace Sink

variable {σ : Type}

/-- What a sink has collected. -/
def Acc : Sink σ → Type
  | .discard => Unit
  | .list => Array Value
  | .dict => Dict.Draft
  | .sortedDict => Dict.Draft
  | .array _ => FixedArray
  | .fold .. => Value
  | .foldState .. => Unit
  | .own .. => Value

/-- Whether a repetition yields the stretch it consumed. -/
def yieldsStretch : Sink σ → Bool
  | .discard => true
  | .own yieldsStretch .. => yieldsStretch
  | _ => false

/-- The collection before the first value. -/
def start : (s : Sink σ) → Action σ s.Acc
  | .discard => return ()
  | .list => return (#[] : Array Value)
  | .dict => return Dict.Draft.empty
  | .sortedDict => return Dict.Draft.empty
  | .array capacity => Action.ofExcept (FixedArray.ofCapacity capacity)
  | .fold init _ => init
  | .foldState .. => return ()
  | .own _ start _ _ => start

/-- The collection with a further value, and whether there is room for more. -/
def push [Memory σ] : (s : Sink σ) → s.Acc → Value → Action σ (s.Acc × Bool)
  | .discard, _, _ => return ((), true)
  | .list, (xs : Array Value), v => return (xs.push v, true)
  | .dict, (d : Dict.Draft), v => return (← Action.ofExcept (d.push (← Action.lookAt v)), true)
  | .sortedDict, (d : Dict.Draft), v =>
    return (← Action.ofExcept (d.push (← Action.lookAt v)), true)
  | .array _, (a : FixedArray), v => Action.ofExcept (a.append v)
  | .fold _ f, (acc : Value), v => return (← f acc v, true)
  | .foldState f _, _, v => do
    let _ ← f v
    return ((), true)
  | .own _ _ push _, (acc : Value), v => push acc v

/-- The value of the collection. -/
def finish : (s : Sink σ) → s.Acc → Action σ Value
  | .discard, _ => return .null
  | .list, (xs : Array Value) => return .list xs.toList
  | .dict, (d : Dict.Draft) => return .dict d.toDict
  | .sortedDict, (d : Dict.Draft) => return .dict (← Action.ofExcept d.toDict.sorted)
  | .array _, (a : FixedArray) => return a.toValue
  | .fold .., (acc : Value) => return acc
  | .foldState _ read, _ => return read (← get)
  | .own _ _ _ finish, (acc : Value) => do Action.ofExcept (finish acc (← get))

/-- The sink into a fixed array whose capacity is a value.  A truth value counts as a number, and a
    fraction is refused when the sink is used. -/
def ofCapacity (capacity : Value) : Except Fault (Sink σ) := do
  if ← Value.test .le capacity (.int 0) then throw (.invalidRepetition "capacity" capacity)
  return (capacity.toInt?).elim (.fold (throw .wrongKind) fun acc _ => return acc) .array

/-- A sink, if its capability is on and its capacity is positive. -/
def build (config : Config) (s : Sink σ) : Except Fault (Sink σ) :=
  match s with
  | .list => (config.require .growableSequence).map fun _ => s
  | .dict | .sortedDict => (config.require .growableMapping).map fun _ => s
  | .array capacity =>
    if capacity ≤ 0 then .error (.invalidRepetition "capacity" (.int capacity)) else .ok s
  | s => .ok s

end Sink

end Itemwise
