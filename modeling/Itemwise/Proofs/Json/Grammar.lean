import Itemwise.Json.Number
import Itemwise.Json.Text
import Itemwise.Value.Dict

namespace Itemwise.Json

/-!
# JSON documents

The documents of RFC 8259 as a grammar over characters, apart from any parser, and what they denote.

* `IsBlank`, `IsWhole`, `IsInteger`, `IsFraction`, `IsExponent`, `IsDecimal`, `IsBody` — the tokens;
* `Tree` — what a document is made of: numbers and the bodies of strings as they are written, arrays
  and objects in the order of their parts;
* `IsValue`, `IsPadded`, `IsElements`, `IsMember`, `IsMembers` — the texts of a tree.  A document is
  a padded value: a value between white space;
* `Listed`, `Leading` — parts with commas in between, or each with a comma after it;
* `Tree.denote` — the value of a tree, where `entriesOf` gives the entries of an object.

White space is what the parser skips: beside the four characters of the standard, form feeds.
-/

/-! ### Tokens -/

/-- White space. -/
def IsBlank (ws : List Char) : Prop :=
  ∀ c ∈ ws, c = ' ' ∨ c = '\t' ∨ c = '\n' ∨ c = '\r' ∨ c = '\x0c'

/-- A digit. -/
def IsDigit (c : Char) : Prop := '0' ≤ c ∧ c ≤ '9'

instance (c : Char) : Decidable (IsDigit c) := inferInstanceAs (Decidable ('0' ≤ c ∧ c ≤ '9'))

/-- A hexadecimal digit. -/
def IsHex (c : Char) : Prop := IsDigit c ∨ ('a' ≤ c ∧ c ≤ 'f') ∨ ('A' ≤ c ∧ c ≤ 'F')

/-- Some digits. -/
def AreDigits (ds : List Char) : Prop := ds ≠ [] ∧ ∀ c ∈ ds, IsDigit c

/-- The digits before a point: a zero, or digits that do not start with one. -/
inductive IsWhole : List Char → Prop
  | zero : IsWhole ['0']
  | digits {d : Char} {ds : List Char} : '1' ≤ d → d ≤ '9' → (∀ c ∈ ds, IsDigit c) →
      IsWhole (d :: ds)

/-- A number without a fraction or an exponent. -/
inductive IsInteger : List Char → Prop
  | unsigned {w : List Char} : IsWhole w → IsInteger w
  | negative {w : List Char} : IsWhole w → IsInteger ('-' :: w)

/-- A point and digits. -/
inductive IsFraction : List Char → Prop
  | point {ds : List Char} : AreDigits ds → IsFraction ('.' :: ds)

/-- An exponent mark, perhaps a sign, and digits. -/
inductive IsExponent : List Char → Prop
  | mark {m : Char} {sign ds : List Char} : m = 'e' ∨ m = 'E' → sign = [] ∨ sign = ['+'] ∨
    sign = ['-'] →
    AreDigits ds → IsExponent (m :: (sign ++ ds))

/-- A number with a fraction, an exponent, or both. -/
inductive IsDecimal : List Char → Prop
  | parts {i f e : List Char} : IsInteger i → f = [] ∨ IsFraction f → e = [] ∨ IsExponent e →
    f ≠ [] ∨ e ≠ [] →
    IsDecimal (i ++ f ++ e)

/-- What may stand between the quotes of a string. -/
inductive IsBody : List Char → Prop
  | nil : IsBody []
  | plain {c : Char} {b : List Char} : ' ' ≤ c → c ≠ '"' → c ≠ '\\' → IsBody b → IsBody (c :: b)
  | escape {c : Char} {b : List Char} : c ∈ ['"', '\\', '/', 'b', 'f', 'n', 'r', 't'] → IsBody b →
    IsBody ('\\' :: c :: b)
  | unicode {h₁ h₂ h₃ h₄ : Char} {b : List Char} :
    IsHex h₁ → IsHex h₂ → IsHex h₃ → IsHex h₄ → IsBody b →
    IsBody ('\\' :: 'u' :: h₁ :: h₂ :: h₃ :: h₄ :: b)

/-! ### Values -/

/-- What a document is made of. -/
inductive Tree
  | null
  | bool (b : Bool)
  | integer (w : List Char)
  | decimal (w : List Char)
  | string (body : List Char)
  | array (ts : List Tree)
  | object (ms : List (List Char × Tree))

mutual

/-- The texts of a value, with no white space around it. -/
inductive IsValue : Tree → List Char → Prop
  | null : IsValue .null ['n', 'u', 'l', 'l']
  | true : IsValue (.bool true) ['t', 'r', 'u', 'e']
  | false : IsValue (.bool false) ['f', 'a', 'l', 's', 'e']
  | integer {w : List Char} : IsInteger w → IsValue (.integer w) w
  | decimal {w : List Char} : IsDecimal w → IsValue (.decimal w) w
  | string {b : List Char} : IsBody b → IsValue (.string b) ('"' :: (b ++ ['"']))
  | emptyArray {ws : List Char} : IsBlank ws → IsValue (.array []) ('[' :: (ws ++ [']']))
  | array {ts : List Tree} {w : List Char} : IsElements ts w →
      IsValue (.array ts) ('[' :: (w ++ [']']))
  | emptyObject {ws : List Char} : IsBlank ws → IsValue (.object []) ('\x7b' :: (ws ++ ['\x7d']))
  | object {ms : List (List Char × Tree)} {w : List Char} : IsMembers ms w →
    IsValue (.object ms) ('\x7b' :: (w ++ ['\x7d']))

/-- The texts of a value between white space. -/
inductive IsPadded : Tree → List Char → Prop
  | pad {t : Tree} {ws w ws' : List Char} : IsBlank ws → IsValue t w → IsBlank ws' →
    IsPadded t (ws ++ (w ++ ws'))

/-- The texts of one or more elements. -/
inductive IsElements : List Tree → List Char → Prop
  | last {t : Tree} {w : List Char} : IsPadded t w → IsElements [t] w
  | more {t : Tree} {ts : List Tree} {w w' : List Char} : IsPadded t w → IsElements ts w' →
    IsElements (t :: ts) (w ++ ',' :: w')

/-- The texts of a key and a value. -/
inductive IsMember : List Char × Tree → List Char → Prop
  | colon {ws b ws' w : List Char} {t : Tree} : IsBlank ws → IsBody b → IsBlank ws' → IsPadded t w →
    IsMember (b, t) (ws ++ '"' :: (b ++ '"' :: (ws' ++ ':' :: w)))

/-- The texts of one or more members. -/
inductive IsMembers : List (List Char × Tree) → List Char → Prop
  | last {m : List Char × Tree} {w : List Char} : IsMember m w → IsMembers [m] w
  | more {m : List Char × Tree} {ms : List (List Char × Tree)} {w w' : List Char} :
    IsMember m w → IsMembers ms w' →
    IsMembers (m :: ms) (w ++ ',' :: w')

end

/-- No characters are white space. -/
theorem isBlank_nil : IsBlank [] := List.forall_mem_nil _

/-- White space after white space is white space. -/
theorem IsBlank.append {ws ws' : List Char} (h : IsBlank ws) (h' : IsBlank ws') :
    IsBlank (ws ++ ws') := by
  intro c hc
  exact (List.mem_append.mp hc).elim (h c) (h' c)

/-- There need not be white space around a value. -/
theorem IsValue.isPadded {t : Tree} {w : List Char} (h : IsValue t w) : IsPadded t w := by
  have hpad := IsPadded.pad isBlank_nil h isBlank_nil
  rwa [List.nil_append, List.append_nil] at hpad

/-! ### Parts with commas in between -/

section Parts

variable {α : Type} {P Q : α → List Char → Prop}

/-- The texts of one or more parts with commas in between. -/
inductive Listed (P : α → List Char → Prop) : List α → List Char → Prop
  | last {a : α} {w : List Char} : P a w → Listed P [a] w
  | more {a : α} {as : List α} {w w' : List Char} : P a w → Listed P as w' →
      Listed P (a :: as) (w ++ ',' :: w')

/-- The texts of parts that all have a comma after them. -/
inductive Leading (P : α → List Char → Prop) : List α → List Char → Prop
  | nil : Leading P [] []
  | cons {a : α} {as : List α} {w w' : List Char} : P a w → Leading P as w' →
      Leading P (a :: as) (w ++ ',' :: w')

/-- What is listed may be described by less. -/
theorem Listed.imp (hPQ : ∀ a w, P a w → Q a w) {as : List α} {w : List Char}
    (h : Listed P as w) : Listed Q as w := by
  induction h with
  | last h => exact .last (hPQ _ _ h)
  | more h _ ih => exact .more (hPQ _ _ h) ih

/-- What comes before a fault may be described by less. -/
theorem Leading.imp (hPQ : ∀ a w, P a w → Q a w) {as : List α} {w : List Char}
    (h : Leading P as w) :
    Leading Q as w := by
  induction h with
  | nil => exact .nil
  | cons h _ ih => exact .cons (hPQ _ _ h) ih

/-- What is so of each text that is listed is so of each thing. -/
theorem Listed.forall_mem {Q : α → Prop} (hPQ : ∀ a w, P a w → Q a) {as : List α} {w : List Char}
    (h : Listed P as w) :
    ∀ a ∈ as, Q a := by
  induction h with
  | last h => simpa using hPQ _ _ h
  | more h _ ih => simpa using ⟨hPQ _ _ h, ih⟩

/-- A part after others that all have a comma after them is the last of all. -/
theorem Leading.listed {as : List α} {a : α} {w w' : List Char} (h : Leading P as w) (ha : P a w') :
    Listed P (as ++ [a]) (w ++ w') := by
  induction h with
  | nil => exact .last ha
  | @cons a as w w'' hw _ ih =>
    rw [List.append_assoc, List.cons_append, List.cons_append]
    exact .more hw ih

end Parts

/-- Values with commas in between are the items of an array. -/
theorem isElements_of_listed {ts : List Tree} {w : List Char} (h : Listed IsPadded ts w) :
    IsElements ts w := by
  induction h with
  | last h => exact .last h
  | more h _ ih => exact .more h ih

/-- Members with commas in between are the members of an object. -/
theorem isMembers_of_listed {ms : List (List Char × Tree)} {w : List Char}
    (h : Listed IsMember ms w) :
    IsMembers ms w := by
  induction h with
  | last h => exact .last h
  | more h _ ih => exact .more h ih

/-! ### What documents denote -/

/-- The digits of an integer. -/
def unsigned : List Char → List Char
  | '-' :: ds => ds
  | ds => ds

/-- The integer of its text. -/
def integerOf : List Char → Int
  | '-' :: ds => -(Decimal.toNat ds : Int)
  | ds => Decimal.toNat ds

/-- The entries that pairs of a key and a value come to: every key where it first occurs, with the
    value that it has where it occurs last. -/
def entriesOf (ms : List (List Char × Value)) : List (Value × Value) :=
  (ms.map Prod.fst).eraseDups.map fun k => (.text k, (ms.reverse.lookup k).getD .null)

/-- A list without its duplicates has none. -/
theorem nodup_eraseDups {α : Type} [BEq α] [LawfulBEq α] (as : List α) : as.eraseDups.Nodup := by
  match as with
  | [] => simp
  | a :: as =>
    have hlt : (as.filter fun b => !b == a).length < as.length + 1 :=
      Nat.lt_add_one_of_le (List.length_filter_le _ as)
    rw [List.eraseDups_cons, List.nodup_cons]
    exact ⟨by simp, nodup_eraseDups _⟩
termination_by as.length

/-- A key that is there already takes the new value where it stands; another one goes to the end. -/
theorem insert_map_text {ks : List (List Char)} (hks : ks.Nodup) (f : List Char → Value)
    (k : List Char) (v : Value) :
    Dict.insert (.text k) v (ks.map fun k' => (.text k', f k')) =
      (ks.map fun k' => (.text k', if k' = k then v else f k')) ++ if k ∈ ks then []
      else [(.text k, v)] := by
  induction ks with
  | nil => rfl
  | cons k' ks ih =>
    obtain ⟨hfresh, hks⟩ := List.nodup_cons.mp hks
    have hsame : (Value.text k').same (.text k) = (k' == k) := by simp [Value.eqv]
    rw [List.map_cons, Dict.insert, hsame]
    by_cases hk : k' = k
    · subst hk
      have hothers : (ks.map fun k => (Value.text k, if k = k' then v else f k)) =
          ks.map fun k => (.text k, f k) := by
        refine List.map_congr_left fun k hmem => ?_
        have hne : k ≠ k' := fun heq => hfresh (heq ▸ hmem)
        rw [if_neg hne]
      simp [hothers]
    · have hmem : (k ∈ k' :: ks) ↔ k ∈ ks := by simp [Ne.symm hk]
      simp [hk, ih hks, hmem]

/-- A pair goes into a dictionary as it goes to the end of a list of pairs. -/
theorem insert_entriesOf (k : List Char) (v : Value) (ms : List (List Char × Value)) :
    Dict.insert (.text k) v (entriesOf ms) = entriesOf (ms ++ [(k, v)]) := by
  -- the last pair decides for its own key, and for no other
  have hlast : ∀ k', ((ms ++ [(k, v)]).reverse.lookup k').getD .null =
      if k' = k then v else (ms.reverse.lookup k').getD .null := by
    intro k'
    rw [List.reverse_append, List.reverse_singleton, List.singleton_append, List.lookup_cons]
    by_cases hk : k' = k
    · simp [hk]
    · simp [hk, beq_false_of_ne hk]
  -- a key that is there already keeps its place
  have hkeys : ((ms ++ [(k, v)]).map Prod.fst).eraseDups =
      (ms.map Prod.fst).eraseDups ++ if k ∈ (ms.map Prod.fst).eraseDups then [] else [k] := by
    rw [List.map_append, List.eraseDups_append]
    by_cases hk : k ∈ ms.map Prod.fst
    · simp [List.removeAll, hk]
    · simp [List.removeAll, hk, List.eraseDups_cons]
  unfold entriesOf
  rw [insert_map_text (nodup_eraseDups _), hkeys, List.map_append]
  simp only [hlast]
  congr 1
  by_cases hk : k ∈ (ms.map Prod.fst).eraseDups
  · simp [hk]
  · simp [hk]

namespace Tree

mutual

/-- The value of a tree. -/
def denote : Tree → Value
  | null => .null
  | bool b => .bool b
  | integer w => .int (integerOf w)
  | decimal w => .float (Reading.float w)
  | string b => .text (unescape b)
  | array ts => .list (denoteAll ts)
  | object ms => .dict (entriesOf (denoteMembers ms))

/-- The values of elements. -/
def denoteAll : List Tree → List Value
  | [] => []
  | t :: ts => denote t :: denoteAll ts

/-- The keys and the values of members. -/
def denoteMembers : List (List Char × Tree) → List (List Char × Value)
  | [] => []
  | (b, t) :: ms => (unescape b, denote t) :: denoteMembers ms

end

/-- The values of two lists of trees are those of the first and of the second. -/
theorem denoteAll_append (ts ts' : List Tree) :
    denoteAll (ts ++ ts') = denoteAll ts ++ denoteAll ts' := by
  induction ts with
  | nil => rfl
  | cons t ts ih => simp [denoteAll, ih]

/-- So are the members of two lists. -/
theorem denoteMembers_append (ms ms' : List (List Char × Tree)) :
    denoteMembers (ms ++ ms') = denoteMembers ms ++ denoteMembers ms' := by
  induction ms with
  | nil => rfl
  | cons m ms ih => simp [denoteMembers, ih]

end Tree

end Itemwise.Json
