import Itemwise.Value.Sequence
import Itemwise.Text.Latin1

namespace Itemwise

/-!
# The forms of an expected item

The same grammar reads text, bytes and lists of tokens, so an expected item is matched in every form
in which it can occur.

* `Value.equivalents` — the items that count as an expected item: a character and its code, or a
  one-byte sequence, its byte and the character of that code;
* `Value.variants` — the sequences that count as an expected run of items.
-/

namespace Value

/-- The items that count as the expected one. -/
def equivalents : Value → List Value
  | .text [c] => [.text [c], .int c.toNat]
  | .octets .fixed [b] => [.octets .fixed [b], ofByte b, ofChar (Latin1.ofByte b)]
  | .octets .growable [b] => [.octets .fixed [b], ofByte b, ofChar (Latin1.ofByte b)]
  | v => [v]

/-- The sequences that count as the expected one: itself, its form as text or bytes, and the list
    and the tuple of its items. -/
def variants (v : Value) : Except Fault (List Value) :=
  match v with
  | .text cs =>
    .ok ([.text cs] ++ ((Latin1.encode? cs).map (.octets .fixed)).toList
      ++ [.list (cs.map ofChar), .tuple (cs.map ofChar)])
  | .octets k bs =>
    .ok ([.octets k bs] ++ (if k.isView then [] else [.text (Latin1.decode bs)])
      ++ [.list (bs.map ofByte), .tuple (bs.map ofByte)])
  | v => v.elements.map fun xs => [v, .list xs, .tuple xs]

end Value

end Itemwise
