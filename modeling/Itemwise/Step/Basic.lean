import Itemwise.Depth
import Itemwise.Input
import Itemwise.Memory

namespace Itemwise

/-!
# Steps

Running a parser is a **step**: from a context it reaches an outcome, possibly changing the user
state on the way.

* `Context` — the input, the position in it, and how deeply recursive parsers are nested;
* `Outcome` — a value and the position after it, or the place at which the parser gave up;
* `Place` — a position, or, for a failure that a caller makes up, a fraction of one;
* `Action` — a computation that may change the user state and may end in a fault, in which case the
  changes made so far stay;
* `Step` — from a context to an outcome;
* `Leaf` — a step that does not change the user state.

All that the engine knows of the user state is how values are looked at in it, so its type `σ` is a
parameter throughout.
-/

/-- What a parser is run on. -/
structure Context where
  items : Input
  pos : Nat
  depth : Int
  limit : Limit

namespace Context

/-- The same context at another position. -/
def moveTo (c : Context) (pos : Nat) : Context := { c with pos := pos }

/-- How many levels deep recursive parsers may be nested. -/
def maxDepth (c : Context) : Int := c.limit.levels

/-- Whether no further recursive parser may be entered. -/
def isDepthExceeded (c : Context) : Bool := c.depth ≥ c.maxDepth

/-- The context inside a recursive parser. -/
def enter (c : Context) : Context := { c with depth := c.depth + 1 }

/-- The item at the position, if any is left. -/
def item? (c : Context) : Except Fault (Option Value) := c.items.item? c.pos

/-- How many items are left. -/
def remaining (c : Context) : Nat := c.items.size - c.pos

/-- How many rounds a repetition may take.  Rounds that only get further never outnumber the items
    by more than one; a step that goes back takes as many as the user state allows. -/
def mostRounds (c : Context) : Nat := c.items.size + Nat.pow 10 18

/-- The items from the position to before `stop`. -/
def sliceTo (c : Context) (stop : Nat) : Except Fault Value := c.items.slice c.pos stop

/-- Rounds that each get further are fewer than that. -/
theorem lt_mostRounds (c : Context) (pos : Nat) : c.items.size - pos < c.mostRounds := by
  have hmost : 0 < Nat.pow 10 18 := Nat.pow_pos (by decide)
  show c.items.size - pos < c.items.size + Nat.pow 10 18
  omega

@[simp] theorem items_moveTo (c : Context) (p : Nat) : (c.moveTo p).items = c.items := rfl
@[simp] theorem pos_moveTo (c : Context) (p : Nat) : (c.moveTo p).pos = p := rfl
@[simp] theorem depth_moveTo (c : Context) (p : Nat) : (c.moveTo p).depth = c.depth := rfl
@[simp] theorem maxDepth_moveTo (c : Context) (p : Nat) : (c.moveTo p).maxDepth = c.maxDepth := rfl
@[simp] theorem moveTo_pos (c : Context) : c.moveTo c.pos = c := rfl
@[simp] theorem moveTo_moveTo (c : Context) (p q : Nat) : (c.moveTo p).moveTo q = c.moveTo q := rfl

end Context

/-- Where a parser gives up: at a position, or, if a caller makes the failure up, at a fraction. -/
inductive Place
  | position (n : Nat)
  | fraction (x : Float)

/-- A position is a place. -/
instance : Coe Nat Place := ⟨.position⟩

namespace Place

/-- The exact number that a place is. -/
def number : Place → Binary64
  | .position n => .ofInt n
  | .fraction x => .ofFloat x

/-- Whether a place is a position. -/
def isAt : Place → Nat → Bool
  | .position m, n => m == n
  | p, n => Binary64.compare p.number (.ofInt n) == some .eq

/-- Whether a place comes before another. -/
def precedes : Place → Place → Bool
  | .position m, .position n => m < n
  | p, q => Binary64.compare p.number q.number == some .lt

@[simp] theorem isAt_position (m n : Nat) : isAt (.position m) n = (m == n) := rfl

@[simp] theorem precedes_position (m n : Nat) :
    precedes (.position m) (.position n) = decide (m < n) :=
  rfl

/-- Positions are compared as the numbers that they are. -/
theorem precedes_position_iff (m n : Nat) :
    precedes (.position m) (.position n) =
      (Binary64.compare (number (.position m)) (number (.position n)) == some .lt) := by
  simp only [precedes_position, number, Binary64.compare_ofInt]
  rcases Nat.lt_trichotomy m n with h | h | h
  · simp [Int.compare_eq_lt.2 (Int.ofNat_lt.2 h), h]
  · simp [h]
  · simp [Int.compare_eq_gt.2 (Int.ofNat_lt.2 h), Nat.not_lt.2 (Nat.le_of_lt h)]

end Place

/-- What a parser comes to: a value and the position after what it consumed, or the place at which
    it failed. -/
inductive Outcome (α : Type)
  | success (value : α) (pos : Nat)
  | failure (place : Place)

namespace Outcome

/-- The position an outcome reports; one that failed at a fraction has none. -/
def pos {α : Type} : Outcome α → Except Fault Nat
  | .success _ p => .ok p
  | .failure (.position p) => .ok p
  | .failure (.fraction _) => .error .wrongKind

/-- Whether an outcome is a success. -/
def isSuccess {α : Type} : Outcome α → Bool
  | .success .. => true
  | .failure _ => false

end Outcome

/-- A computation on the user state that may end in a fault; the state it reached stays either
    way. -/
abbrev Action (σ : Type) := EStateM Fault σ

/-- A pure computation as an action. -/
def Action.ofExcept {σ α : Type} : Except Fault α → Action σ α
  | .ok a => pure a
  | .error f => throw f

/-- What a parser does when it is run. -/
abbrev Step (σ : Type) := Context → Action σ (Outcome Value)

/-- A pure computation is an action wherever one is expected. -/
instance {σ : Type} : MonadLift (Except Fault) (EStateM Fault σ) := ⟨Action.ofExcept⟩

/-- A value as it is in the user state, with everything that it shares put in. -/
def Action.look {σ : Type} [Memory σ] (v : Value) : Action σ Value := fun s =>
  .ok (Memory.whole s v) s

/-- A value as it is in the user state, as a container whose items are as they are. -/
def Action.lookAt {σ : Type} [Memory σ] (v : Value) : Action σ Value := fun s =>
  .ok (Memory.surface s v) s

/-- What a parser does that does not change the user state. -/
abbrev Leaf := Context → Except Fault (Outcome Value)

@[simp] theorem Step.ok_bind {α β : Type} (a : α) (k : α → Except Fault β) :
    (Except.ok a >>= k) = k a :=
  rfl

/-- A leaf as a step. -/
def Step.leaf {σ : Type} (l : Leaf) : Step σ := fun c => Action.ofExcept (l c)

/-- A leaf that looks at items as they are in the user state, as a step. -/
def Step.seeing {σ : Type} [Memory σ] (l : (look : Value → Value) → Leaf) : Step σ := fun c => do
  Action.ofExcept (l (Memory.whole (← get)) c)

namespace Leaf

/-- The failure that consumes nothing. -/
def reject (c : Context) : Except Fault (Outcome Value) := .ok (.failure c.pos)

/-- The success at a position, which has to be within the input. -/
def accept (c : Context) (v : Value) (pos : Nat) : Except Fault (Outcome Value) :=
  if pos ≤ c.items.size then .ok (.success v pos)
  else .error (.cursorOutside (.int pos) c.items.size)

/-- A success within the input is accepted as it is. -/
theorem accept_of_le {c : Context} {pos : Nat} (v : Value) (h : pos ≤ c.items.size) :
    accept c v pos = .ok (.success v pos) := by
  simp [accept, h]

end Leaf

end Itemwise
