namespace Itemwise

/-!
# Lines of the configuration format

A configuration file holds one entry a line.  A **line item** is what one line says.

* `LineKind` — the kinds of line;
* `LineItem` — a kind with the two texts that an entry carries.
-/

/-- The kind of a configuration line. -/
inductive LineKind
  | action
  | info
  | separator
  | space
  | ignore
  | malformed
deriving DecidableEq, Repr

/-- The name a kind of line is written with. -/
def LineKind.label : LineKind → String
  | .action => "action"
  | .info => "info"
  | .separator => "separator"
  | .space => "space"
  | .ignore => "ignore"
  | .malformed => "syntax-error"

/-- One parsed line: its kind, and the name and the command of an entry (empty otherwise). -/
structure LineItem where
  kind : LineKind
  name : List Char := []
  command : List Char := []
deriving DecidableEq, Repr

end Itemwise
