import Itemwise.Json.Number
import Itemwise.Json.Text
import Itemwise.Parser.Build
import Itemwise.Parser.Parse

namespace Itemwise.Json

/-!
# The JSON grammar

* `string`, `number`, `value`, `document` — the parsers of the grammar;
* `grammar` — the grammar in which the values of arrays and objects are values again;
* `string?`, `number?`, `value?`, `document?` — the same with the capabilities they need;
* `parse` — a text read as a document.

Objects become dictionaries in the order of their keys, arrays lists, numbers integers or floats,
and `true`, `false` and `null` truth values and nothing.  White space may precede every token.  The
grammar reads text.
-/

variable {σ : Type}

/-! ### Strings and numbers -/

/-- An escape: a backslash, and a letter or `u` and four hexadecimal digits. -/
def escape : Parser σ :=
  .andThen (.char '\\')
    (.choice
      [.andThen (.char 'u') (.times 4 (.satisfy (.ofChar "is_hex" isHex))), .charIn escapeLetters])

/-- The body of a string. -/
def body : Parser σ :=
  .repeated (.choice [.itemWhile1 (.ofChar "is_plain" isPlain), escape]) .discard none 0

/-- The value of the body of a string. -/
def stringValue : Value → Except Fault Value
  | .text cs => .ok (.text (unescape cs))
  | _ => .error .wrongKind

/-- A string. -/
def string : Parser σ :=
  .named (.convert (.between (.char '"') body (.char '"')) stringValue) "json string"

/-- A run of digits. -/
def digits : Parser σ := .itemWhile1 (.ofChar "is_digit" Decimal.isDigit)

/-- The digits before the point: a zero, or digits that do not start with one. -/
def whole : Parser σ :=
  .choice
    [.char '0',
      .measure .stretch
        (.seq [.charBetween '1' '9', .itemWhile (.ofChar "is_digit" Decimal.isDigit)])]

/-- A point and digits. -/
def fraction : Parser σ := .andThen (.char '.') digits

/-- An exponent mark, an optional sign, and digits. -/
def exponent : Parser σ :=
  .seq [.charIn ['e', 'E'], .optional (.charIn ['+', '-']), digits]

/-- The value of a number from its text and its parts. -/
def numberOfParts : Value → Except Fault Value
  | .tuple [.text cs, .tuple [_, _, .null, .null]] => numberValue cs false
  | .tuple [.text cs, .tuple [_, _, _, _]] => numberValue cs true
  | _ => .error .wrongKind

/-- A number. -/
def number : Parser σ :=
  .named
    (.convert
      (.measure .stretchAndValue
        (.seq [.optional (.char '-'), whole, .optional fraction, .optional exponent]))
      numberOfParts)
    "json number"

/-! ### Values -/

/-- A value inside an array or an object. -/
def nested : Parser σ := .defer .jsonValue "json value"

/-- A token after white space. -/
def token (c : Char) : Parser σ := .eat (.char c)

/-- The comma between two elements. -/
def comma : Parser.Separator σ := ⟨token ',', false⟩

/-- An array. -/
def array : Parser σ := .between (.char '[') (.repeated nested .list (some comma) 0) (token ']')

/-- A key and a value. -/
def member : Parser σ := .seq [.andDrop (.eat string) (token ':'), nested]

/-- An object. -/
def object : Parser σ :=
  .between (.char '\x7b') (.repeated member .dict (some comma) 0) (token '\x7d')

/-- A word that stands for a value. -/
def word (w : String) (v : Value) : Parser σ := .convert (.literal (.ofString w)) fun _ => .ok v

/-- The words `true`, `false` and `null`. -/
def keyword : Parser σ :=
  .choice [word "true" (.bool true), word "false" (.bool false), word "null" .null]

/-- A value, after white space. -/
def value : Parser σ := .named (.eat (.choice [string, number, object, array, keyword])) "json"

/-- A value and nothing after it but white space. -/
def document : Parser σ := .named (.andDrop value (.eat .eof)) "json document"

/-- The grammar with the rule for JSON values added to another. -/
def extend (g : Grammar σ) : Grammar σ where
  rule
    | .jsonValue, _ => return value
    | r, config => g.rule r config
  forward := g.forward

/-- The grammar of JSON alone. -/
def grammar : Grammar σ :=
  extend ⟨fun _ _ => throw .missingKey, fun _ => none⟩

/-! ### Building and running -/

/-- The string parser, if the example grammars are on. -/
def string? (config : Config) : Except Fault (Parser σ) :=
  (config.require .exampleGrammars).map fun _ => string

/-- The number parser, if the example grammars are on. -/
def number? (config : Config) : Except Fault (Parser σ) :=
  (config.require .exampleGrammars).map fun _ => number

/-- The value parser, if the example grammars and both growable sinks are on. -/
def value? (config : Config) : Except Fault (Parser σ) := do
  config.require .exampleGrammars
  config.require .growableSequence
  config.require .growableMapping
  return value

/-- The document parser, if the value parser can be built. -/
def document? (config : Config) : Except Fault (Parser σ) := do
  let _ : Parser σ ← value? config
  return document

/-- Reads a text as a document. -/
def parse (config : Config) (text : List Char) (limit : Except Fault Limit := Depth.limit) :
    Except Fault (Outcome Value) := do
  let p : Parser Unit ← document? config
  match p.parse ⟨config, grammar⟩ (.sequence (.text text.toArray)) limit () with
  | .ok outcome _ => return outcome
  | .error fault _ => throw fault

end Itemwise.Json
