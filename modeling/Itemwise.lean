import Itemwise.Value.Basic
import Itemwise.Decimal.Shortest
import Itemwise.Decimal.Fixed
import Itemwise.Decimal.Reading
import Itemwise.Decimal.Integer
import Itemwise.Text.Quoted
import Itemwise.Text.Utf16
import Itemwise.Text.Latin1
import Itemwise.Text.Blank
import Itemwise.Text.Cased
import Itemwise.Text.Lowercase
import Itemwise.Text.CharClass
import Itemwise.Value.Equality
import Itemwise.Value.Order
import Itemwise.Value.Hashing
import Itemwise.Value.Truth
import Itemwise.Value.Display
import Itemwise.Diagnostic
import Itemwise.Config
import Itemwise.Value.Forms
import Itemwise.Value.Dict
import Itemwise.Span.Given
import Itemwise.Input
import Itemwise.Cursor
import Itemwise.LineTable
import Itemwise.Cursor.Given
import Itemwise.Scan.FromEnd
import Itemwise.Pattern
import Itemwise.FixedArray
import Itemwise.Leaf.Item
import Itemwise.Leaf.Blank
import Itemwise.Leaf.Find
import Itemwise.Leaf.Number
import Itemwise.Step.Transform
import Itemwise.Step.Sequence
import Itemwise.Step.Choice
import Itemwise.Step.Measure
import Itemwise.Step.Repeat
import Itemwise.Step.Chain
import Itemwise.Step.Eat
import Itemwise.Step.Probe
import Itemwise.Parser.Name
import Itemwise.Parser.Forward
import Itemwise.Parser.Run
import Itemwise.Parser.Build
import Itemwise.Constant
import Itemwise.Parser.Parse
import Itemwise.Json.Parser
import Itemwise.SemVer.Given
import Itemwise.SemVer.Parser
import Itemwise.LineItem.Parser
import Itemwise.Function.StateFn
import Itemwise.Function.Continuation
import Itemwise.Main
import Itemwise.Proofs.FixedArray.Bounded
import Itemwise.Proofs.Json.Failures
import Itemwise.Proofs.Json.Strings
import Itemwise.Proofs.Json.Faults
import Itemwise.Proofs.Latin1.Runs
import Itemwise.Proofs.LineItem.Rules
import Itemwise.Proofs.LineTable.Newlines
import Itemwise.Proofs.Offset.Runs
import Itemwise.Proofs.Pattern.Union
import Itemwise.Proofs.Run.Arrays
import Itemwise.Proofs.Run.Budget
import Itemwise.Proofs.Run.Chains
import Itemwise.Proofs.Run.Collections
import Itemwise.Proofs.Run.Configuration
import Itemwise.Proofs.Run.Discipline
import Itemwise.Proofs.Run.Emptiness
import Itemwise.Proofs.Run.Enclosing
import Itemwise.Proofs.Run.Factoring
import Itemwise.Proofs.Run.Greedy
import Itemwise.Proofs.Run.ItemByItem
import Itemwise.Proofs.Run.Limit
import Itemwise.Proofs.Run.Longest
import Itemwise.Proofs.Run.Skipping
import Itemwise.Proofs.Run.Stack
import Itemwise.Proofs.Run.Stretches
import Itemwise.Proofs.Run.Termination
import Itemwise.Proofs.Scan.Blanks
import Itemwise.Proofs.Scan.Masks
import Itemwise.Proofs.Scan.Pieces
import Itemwise.Proofs.Scan.Scans
import Itemwise.Proofs.Scan.Search
import Itemwise.Proofs.SemVer.Roundtrip
import Itemwise.Proofs.Sorting.Sets
import Itemwise.Proofs.Number.Digits
import Itemwise.Proofs.Number.Integers
import Itemwise.Proofs.Bench.Documents
import Itemwise.Proofs.Number.Decimals
import Itemwise.Proofs.Number.Ranges
