import Itemwise.Config
import Itemwise.Depth
import Itemwise.Pattern
import Itemwise.Scan.Lanes
import Itemwise.Text.CharClass

namespace Itemwise

/-!
# Named constants

* `Constant` — a number, a text or a set of characters;
* `Constant.ofLabel?` — the constant of a name;
* `Constant.pattern` — the pattern of the items that it names.
-/

/-- What a name can stand for. -/
inductive Constant
  | number (n : Nat)
  | text (s : String)
  | characters (c : CharClass)

namespace Constant

/-- The constants that are no sets of characters, with their names. -/
def all : List (String × Constant) :=
  [("MAX_DEPTH", .number Depth.standard.toNat),
    ("DEPTH_RESERVE_FRAMES", .number Depth.reservedFrames.toNat),
    ("WORD_BYTES", .number Lanes.count), ("WORD_BITS", .number Lanes.bits),
    ("WORD_MASK", .number (Nat.pow 2 Lanes.bits - 1)), ("LOW_BITS", .number Lanes.ones.toNat),
    ("LOW7_BITS", .number Lanes.lowBits.toNat), ("HIGH_BITS", .number Lanes.highBits.toNat),
    ("CAPABILITIES_ENV_VAR", .text Config.variableName)]

/-- The constant of a name. -/
def ofLabel? (s : String) : Option Constant :=
  ((CharClass.ofLabel? s).map .characters).or ((all.find? fun e => e.1 == s).map Prod.snd)

/-- The pattern that a constant stands for: its characters, or the value itself. -/
def pattern : Constant → Pattern
  | .number n => .item (.int n)
  | .text s => .item (.ofString s)
  | .characters c => .oneOf (c.members.map Value.ofChar)

end Constant

end Itemwise
