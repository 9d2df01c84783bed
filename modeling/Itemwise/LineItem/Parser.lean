import Itemwise.LineItem
import Itemwise.Parser.Build

namespace Itemwise.LineItem

/-!
# The grammar of configuration lines

* `parser` — one line, whose item is handed to an action on the user state.

The first rule that fits decides: an entry `Com:name=command` or `Info:name=command`, a separator, a
space, a comment or an empty line, and otherwise a malformed line.
-/

variable {σ : Type}

/-- The item of an entry from its name and its command. -/
def entryItem (kind : LineKind) : List Value → Except Fault Value
  | [.text name, .text command] => .ok (.line ⟨kind, name, command⟩)
  | _ => .error .wrongKind

/-- An entry: a mark, a name up to the first `=`, and a command that is not empty. -/
def entry (kind : LineKind) (mark : String) : Parser σ :=
  .attempt (.andThen (.skip (.ofString mark))
    (.lift (entryItem kind) [.upTo (.ofChar '='), .notEmpty .rest]))

/-- A mark that stands for an item by itself. -/
def marker (p : Parser σ) (kind : LineKind) : Parser σ :=
  .convert p fun _ => .ok (.line ⟨kind, [], []⟩)

/-- The item of a line that no other rule fits. -/
def malformedItem : Value → Except Fault Value
  | .text cs => .ok (.line ⟨.malformed, [], cs⟩)
  | _ => .error .wrongKind

/-- The item of one line. -/
def item : Parser σ :=
  .choice
    [entry .action "Com:", entry .info "Info:",
      marker (.skip (.ofString "Separator")) .separator, marker (.skip (.ofString "Space")) .space,
      marker (.anyOfDropped [.skip (.ofChar '#'), .empty] ["skip('#')", "empty"]) .ignore,
      .convert .rest malformedItem]

/-- Hands an item over, unless it is one to ignore. -/
def collect (store : LineItem → Action σ Unit) : Value → Action σ Value
  | .line l => do
    if l.kind ≠ .ignore then store l
    return .null
  | _ => throw .wrongKind

/-- One line. -/
def parser (store : LineItem → Action σ Unit) : Parser σ := .liftToState (collect store) item

end Itemwise.LineItem
