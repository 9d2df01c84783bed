namespace Itemwise

/-!
# Character classes

Sets of characters that grammars choose from, each as a list without repetition in the order of the
code points.

* `CharClass` — the classes and their names;
* `CharClass.members` — the characters of a class.
-/

/-- A class of ASCII characters. -/
inductive CharClass
  | blank
  | binary
  | octal
  | decimal
  | hexadecimal
  | alphabetic
  | alphanumeric
deriving DecidableEq, Repr

namespace CharClass

/-- All classes. -/
def all : List CharClass :=
  [.blank, .binary, .octal, .decimal, .hexadecimal, .alphabetic, .alphanumeric]

/-- The name of a class. -/
def label : CharClass → String
  | .blank => "ASCII_WHITESPACE"
  | .binary => "BINARY"
  | .octal => "OCTAL"
  | .decimal => "DECIMAL"
  | .hexadecimal => "HEXADECIMAL"
  | .alphabetic => "ALPHABETIC"
  | .alphanumeric => "ALNUM"

/-- The class of a name. -/
def ofLabel? (s : String) : Option CharClass := all.find? fun c => c.label == s

/-- The capital letters. -/
def capitals : List Char := "ABCDEFGHIJKLMNOPQRSTUVWXYZ".toList

/-- The small letters. -/
def smalls : List Char := "abcdefghijklmnopqrstuvwxyz".toList

/-- The decimal digits. -/
def digits : List Char := "0123456789".toList

/-- The characters of a class. -/
def members : CharClass → List Char
  | .blank => ['\t', '\n', '\x0c', '\r', ' ']
  | .binary => digits.take 2
  | .octal => digits.take 8
  | .decimal => digits
  | .hexadecimal => digits ++ capitals.take 6 ++ smalls.take 6
  | .alphabetic => capitals ++ smalls
  | .alphanumeric => digits ++ capitals ++ smalls

end CharClass

end Itemwise
