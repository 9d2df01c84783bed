import Itemwise.Bench.Generate
import Itemwise.Proofs.Json.Acceptance
import Itemwise.Proofs.Json.Written
import Mathlib.Data.List.Nodup

namespace Itemwise.Bench

/-!
# Generated documents

A document is made member by member from what is drawn for it, and parsing it gives back what was
drawn.

* `Draw.value`, `entries` — what a member denotes, and all of them with their keys;
* `Draw.IsWritable` — that what is drawn can be written;
* `Draw.tree`, `isValue_memberValue`, `denote_tree` — each member as a part of a document;
* `isPadded_object`, `denote_objectTree` — all of them as a document, without a key that occurs
  twice;
* `Gives` — what holds of all that a computation draws, with `gives_document` for the members of a
  document;
* `parse_object_drawn` — every document that can be drawn is parsed back.
-/

open Json

/-! ### Members -/

/-- The key of the member with the number `i`. -/
def key (i : Nat) : List Char := "key".toList ++ Decimal.ofNat i

/-- The value of the member with the number `i`, in the shape that was drawn: the integer, the float
    of the text of the number, a string with quotes and an accent, true, null, a list of the small
    numbers, or nested objects. -/
def Draw.value (i : Nat) (d : Draw) : Value :=
  match d.shape with
  | 0 => .int d.integer
  | 1 => .float (Reading.float (Fixed.ofFloat 6 d.number))
  | 2 => .text ("text ".toList ++ Decimal.ofNat i ++ " with \"escapes\" é".toList)
  | 3 => .bool true
  | 4 => .null
  | 5 => .list (d.numbers.map .int)
  | _ => .dict [(.text "nested".toList,
      .dict [(.text "id".toList, .int i), (.text "tags".toList, .list [.text ['a'], .text ['b']])])]

/-- The entries of an object: the keys in their order, with their values. -/
def entries (ds : List Draw) : List (Value × Value) :=
  ds.zipIdx.map fun d => (.text (key d.2), d.1.value d.2)

/-- A float that is neither infinite nor what is not a number. -/
def IsFinite (x : Float) : Prop := ∃ negative m q, Binary64.ofFloat x = .finite negative m q

/-- What is drawn can be written: the number is finite, and the integers have no more digits than a
    conversion handles. -/
structure Draw.IsWritable (d : Draw) : Prop where
  integer : Decimal.isWithinLimit d.integer = true
  number : IsFinite d.number
  numbers : ∀ n ∈ d.numbers, Decimal.isWithinLimit n = true

/-- What stands between the quotes of a string. -/
def body (i : Nat) : List Char :=
  "text ".toList ++ Decimal.ofNat i ++ " with \\\"escapes\\\" \\u00e9".toList

/-- Nested objects with the number of a member. -/
def nested (i : Nat) : Tree :=
  .object [("nested".toList,
    .object [("id".toList, .integer (Decimal.ofNat i)),
      ("tags".toList, .array [.string ['a'], .string ['b']])])]

/-- What is drawn for a member, as a part of a document. -/
def Draw.tree (i : Nat) (d : Draw) : Tree :=
  match d.shape with
  | 0 => .integer (Decimal.ofInt d.integer)
  | 1 => .decimal (Fixed.ofFloat 6 d.number)
  | 2 => .string (body i)
  | 3 => .bool true
  | 4 => .null
  | 5 => .array (d.numbers.map fun n => .integer (Decimal.ofInt n))
  | _ => nested i

/-- The text of a member can stand between quotes. -/
theorem isBody_body (i : Nat) : IsBody (body i) := by
  have haccent : IsBody " \\u00e9".toList :=
    .plain (by decide) (by decide) (by decide)
      (.unicode (isHex_iff.mp rfl) (isHex_iff.mp rfl) (isHex_iff.mp rfl) (isHex_iff.mp rfl) .nil)
  have hquote : IsBody ("escapes".toList ++ '\\' :: '"' :: " \\u00e9".toList) :=
    isBody_append (isBody_of_plain rfl) (.escape (by decide) haccent)
  have hend : IsBody " with \\\"escapes\\\" \\u00e9".toList :=
    isBody_append (isBody_of_plain (b := " with ".toList) rfl)
      (.escape (c := '"') (by decide) hquote)
  exact isBody_append (isBody_append (isBody_of_plain rfl) (isBody_of_plain (all_isPlain_ofNat i)))
    hend

/-- The text of a member without its escapes. -/
theorem unescape_body (i : Nat) :
    unescape (body i) = "text ".toList ++ Decimal.ofNat i ++ " with \"escapes\" é".toList := by
  have htext : "text ".toList.all isPlain = true := rfl
  have hend : codes " with \\\"escapes\\\" \\u00e9".toList =
      " with \"escapes\" é".toList.map Char.toNat := rfl
  apply unescape_of_codes
  calc codes (body i)
      = codes ("text ".toList ++ (Decimal.ofNat i ++ " with \\\"escapes\\\" \\u00e9".toList)) :=
        congrArg codes (List.append_assoc ..)
    _ = "text ".toList.map Char.toNat ++
        ((Decimal.ofNat i).map Char.toNat ++ " with \"escapes\" é".toList.map Char.toNat) := by
        rw [codes_append_of_plain htext, codes_append_of_plain (all_isPlain_ofNat i), hend]
    _ = ("text ".toList ++ Decimal.ofNat i ++ " with \"escapes\" é".toList).map Char.toNat := by
        simp only [List.map_append, List.append_assoc]

/-- The characters of a key stand for themselves in a string. -/
theorem all_isPlain_key (i : Nat) : (key i).all isPlain = true := by
  have hword : "key".toList.all isPlain = true := rfl
  rw [key, List.all_append, hword, all_isPlain_ofNat]
  rfl

/-- The nested objects are written as they are. -/
theorem isValue_nested (i : Nat) :
    IsValue (nested i)
      ("\x7b\"nested\": \x7b\"id\": ".toList ++ Decimal.ofNat i ++
        ", \"tags\": [\"a\", \"b\"]\x7d\x7d".toList) := by
  have hstring (c : Char) (hc : isPlain c = true) : IsValue (.string [c]) ['"', c, '"'] :=
    .string (isBody_of_plain (by rw [List.all_cons, hc]; rfl))
  have htags : IsValue (.array [.string ['a'], .string ['b']]) "[\"a\", \"b\"]".toList :=
    .array (.more (hstring 'a' rfl).isPadded (.last ((hstring 'b' rfl).isPadded_space)))
  have hnumber : IsValue (.integer (Decimal.ofNat i)) (Decimal.ofNat i) :=
    .integer (.unsigned (isWhole_ofNat i))
  have hid : IsMember ("id".toList, .integer (Decimal.ofNat i))
      ("\"id\": ".toList ++ Decimal.ofNat i) :=
    isMember_of_plain isBlank_nil rfl hnumber.isPadded_space
  have hlist : IsMember ("tags".toList, .array [.string ['a'], .string ['b']])
      " \"tags\": [\"a\", \"b\"]".toList :=
    isMember_of_plain isBlank_space rfl htags.isPadded_space
  have hinner := IsValue.object (.more hid (.last hlist))
  have houter := IsValue.object (.last (isMember_of_plain (b := "nested".toList) isBlank_nil rfl
    hinner.isPadded_space))
  -- the texts differ in where they are put together, around the digits of the number
  rw [List.append_assoc]
  simp only [List.append_assoc, List.cons_append, List.nil_append] at houter
  exact houter

/-- **A member is written as what is drawn for it.** -/
theorem isValue_memberValue (i : Nat) {d : Draw} (hd : d.IsWritable) :
    IsValue (d.tree i) (memberValue i d) := by
  obtain ⟨integer, number, numbers, shape⟩ := d
  match shape with
  | 0 => exact .integer (isInteger_ofInt integer)
  | 1 =>
    obtain ⟨negative, m, q, hnumber⟩ := hd.number
    exact .decimal (isDecimal_ofFloat (by decide) hnumber)
  | 2 =>
    have hquoted (before ds after : List Char) :
        '"' :: before ++ ds ++ (after ++ ['"']) = '"' :: (before ++ ds ++ after ++ ['"']) := by simp
    have htext : memberValue i ⟨integer, number, numbers, 2⟩ = '"' :: (body i ++ ['"']) :=
      hquoted "text ".toList (Decimal.ofNat i) " with \\\"escapes\\\" \\u00e9".toList
    rw [htext]
    exact .string (isBody_body i)
  | 3 => exact .true
  | 4 => exact .null
  | 5 =>
    cases numbers with
    | nil => exact .emptyArray isBlank_nil
    | cons n ns =>
      have hlisted : Listed IsPadded ((n :: ns).map fun n => Tree.integer (Decimal.ofInt n))
          (joinText [',', ' '] ((n :: ns).map Decimal.ofInt)) := by
        have hjoined := listed_joinText (P := IsPadded)
          (g := fun n => Tree.integer (Decimal.ofInt n)) (f := Decimal.ofInt)
          (List.cons_ne_nil n ns) isBlank_nil isBlank_space isBlank_nil
          fun m _ pre post hpre hpost => .pad hpre (.integer (isInteger_ofInt m)) hpost
        rwa [List.append_nil, List.nil_append] at hjoined
      exact .array (isElements_of_listed hlisted)
  | n + 6 => exact isValue_nested i

/-- The nested objects denote a dictionary that holds the number and the tags. -/
theorem denote_nested (i : Nat) :
    (nested i).denote =
      .dict [(.text "nested".toList,
        .dict [(.text "id".toList, .int i),
          (.text "tags".toList, .list [.text ['a'], .text ['b']])])] := by
  have hid : integerOf (Decimal.ofNat i) = i := integerOf_ofInt i
  simp only [nested, Tree.denote, Tree.denoteMembers, Tree.denoteAll, hid]
  rfl

/-- **A member denotes what is drawn for it.** -/
theorem denote_tree (i : Nat) (d : Draw) : (d.tree i).denote = d.value i := by
  obtain ⟨integer, number, numbers, shape⟩ := d
  match shape with
  | 0 => exact congrArg Value.int (integerOf_ofInt integer)
  | 1 => rfl
  | 2 => exact congrArg Value.text (unescape_body i)
  | 3 => rfl
  | 4 => rfl
  | 5 =>
    show Value.list (Tree.denoteAll (numbers.map fun n => Tree.integer (Decimal.ofInt n))) =
        .list (numbers.map .int)
    rw [Tree.denoteAll_eq_map, List.map_map]
    exact congrArg Value.list
      (List.map_congr_left fun n _ => congrArg Value.int (integerOf_ofInt n))
  | n + 6 => exact denote_nested i

/-- A member is read within three levels of nesting, if the numbers in it are not too long. -/
theorem fault?_tree {i : Nat} (hi : Decimal.isWithinLimit i = true) {d : Draw} (hd : d.IsWritable)
    (deep : Fault) (levels : Nat) :
    (d.tree i).fault? deep (levels + 3) = none := by
  have hinteger {n : Int} (hn : Decimal.isWithinLimit n = true) (levels : Nat) :
      (Tree.integer (Decimal.ofInt n)).fault? deep levels = none := by
    rw [Tree.fault?_integer, if_neg (Nat.not_lt.mpr (length_unsigned_ofInt hn))]
  obtain ⟨integer, number, numbers, shape⟩ := d
  match shape with
  | 0 => exact hinteger hd.integer _
  | 1 => rfl
  | 2 => rfl
  | 3 => rfl
  | 4 => rfl
  | 5 =>
    show Tree.faultOfAll? deep (levels + 2)
        (numbers.map fun n => Tree.integer (Decimal.ofInt n)) = none
    rw [Tree.faultOfAll?_eq, firstFault_eq_none]
    intro t ht
    obtain ⟨n, hn, rfl⟩ := List.mem_map.mp ht
    exact hinteger (hd.numbers n hn) _
  | n + 6 =>
    have hid : (unsigned (Decimal.ofNat i)).length ≤ Decimal.digitLimit := length_unsigned_ofInt hi
    simp [Draw.tree, nested, Tree.fault?, Tree.faultOfMembers?, Tree.faultOfAll?, hid]

/-! ### Documents -/

/-- A member is its key between quotes, and its value behind a colon. -/
theorem member_eq (i : Nat) (d : Draw) :
    member i d = ' ' :: ' ' :: '"' :: (key i ++ '"' :: ':' :: ' ' :: memberValue i d) := by
  -- the value stays closed, so that only the texts around it are put together
  unfold member key
  generalize memberValue i d = w
  change [' ', ' ', '"'] ++ "key".toList ++ Decimal.ofNat i ++ ['"', ':', ' '] ++ w = _
  simp only [List.append_assoc, List.cons_append, List.nil_append]

/-- A member with white space before and after it. -/
theorem isMember_member {i : Nat} {d : Draw} (hd : d.IsWritable) {pre post : List Char}
    (hpre : IsBlank pre) (hpost : IsBlank post) :
    IsMember (key i, d.tree i) (pre ++ (member i d ++ post)) := by
  have hvalue : IsPadded (d.tree i) (' ' :: (memberValue i d ++ post)) :=
    .pad isBlank_space (isValue_memberValue i hd) hpost
  have htext : pre ++ (member i d ++ post) =
      (pre ++ [' ', ' ']) ++ '"' :: (key i ++ '"' :: ':' :: ' ' :: (memberValue i d ++ post)) := by
    simp only [member_eq, List.append_assoc, List.cons_append, List.nil_append]
  rw [htext]
  exact isMember_of_plain (hpre.append (isBlank_space.append isBlank_space))
    (all_isPlain_key _) hvalue

/-- What is drawn for the members of a document, as a document. -/
def objectTree (ds : List Draw) : Tree := .object (ds.zipIdx.map fun d => (key d.2, d.1.tree d.2))

/-- **The text is that of a document.** -/
theorem isPadded_object {ds : List Draw} (hds : ∀ d ∈ ds, d.IsWritable) :
    IsPadded (objectTree ds) (object ds) := by
  refine IsValue.isPadded ?_
  cases ds with
  | nil => exact .emptyObject (isBlank_line.append isBlank_line)
  | cons d ds =>
    have hlisted : Listed IsMember ((d :: ds).zipIdx.map fun d => (key d.2, d.1.tree d.2))
        (['\n'] ++ (joinText [',', '\n'] ((d :: ds).zipIdx.map fun d => member d.2 d.1) ++
          ['\n'])) :=
      listed_joinText (List.cons_ne_nil _ _) isBlank_line isBlank_line isBlank_line
        fun p hp _ _ hpre hpost =>
        isMember_member (hds p.1 (List.fst_mem_of_mem_zipIdx hp)) hpre hpost
    have hobject := IsValue.object (isMembers_of_listed hlisted)
    have htext : object (d :: ds) = '\x7b' ::
        (['\n'] ++ (joinText [',', '\n'] ((d :: ds).zipIdx.map fun d => member d.2 d.1) ++
          ['\n']) ++ ['\x7d']) := by
      simp [object]
    rw [htext]
    exact hobject

/-- Different members have different keys. -/
theorem key_injective : Function.Injective key := by
  intro i j h
  have hdigits : Decimal.ofNat i = Decimal.ofNat j := List.append_cancel_left h
  rw [← Decimal.toNat_ofNat i, hdigits, Decimal.toNat_ofNat]

/-- A document denotes the dictionary of its members, as no key comes twice. -/
theorem denote_objectTree (ds : List Draw) : (objectTree ds).denote = .dict (entries ds) := by
  have hmembers : Tree.denoteMembers (ds.zipIdx.map fun d => (key d.2, d.1.tree d.2)) =
      ds.zipIdx.map fun d => (key d.2, d.1.value d.2) := by
    rw [Tree.denoteMembers_eq_map, List.map_map]
    refine List.map_congr_left fun d _ => ?_
    show (unescape (key d.2), (d.1.tree d.2).denote) = _
    rw [unescape_of_plain (all_isPlain_key _), denote_tree]
  -- no two members have one key
  have hkeys : ((ds.zipIdx.map fun d => (key d.2, d.1.value d.2)).map Prod.fst).Nodup := by
    have hindices : (ds.zipIdx.map fun d => (key d.2, d.1.value d.2)).map Prod.fst =
        (List.range' 0 ds.length).map key := by
      rw [List.map_map, ← List.zipIdx_map_snd, List.map_map]
      rfl
    rw [hindices]
    exact List.Nodup.map key_injective List.nodup_range'
  show Value.dict (entriesOf (Tree.denoteMembers _)) = _
  rw [hmembers, entriesOf_of_nodup hkeys, List.map_map]
  rfl

/-- **A document is parsed back**: the parse succeeds at the end of the text with what was drawn for
    the members. -/
theorem parse_object {config : Config} (hconfig : ReadsDocuments config) {ds : List Draw}
    (hcount : ∀ i < ds.length, Decimal.isWithinLimit i = true) (hds : ∀ d ∈ ds, d.IsWritable) :
    parse config (object ds) = .ok (.success (.dict (entries ds)) (object ds).length) := by
  -- the members are read one level below the document, within the 50 levels there are
  have hfault : (objectTree ds).fault? (tooDeep 50) (levelsFor 50) = none := by
    rw [objectTree, Tree.fault?_object, firstFault_eq_none]
    intro m hm
    obtain ⟨p, hp, rfl⟩ := List.mem_map.mp hm
    exact fault?_tree (hcount p.2 (List.snd_lt_of_mem_zipIdx hp))
      (hds p.1 (List.fst_mem_of_mem_zipIdx hp)) _ 46
  have hparse := parse_document hconfig (isPadded_object hds) (show 0 < (50 : Int) by decide)
  rw [hfault, denote_objectTree] at hparse
  exact hparse

/-! ### Draws -/

/-- Whatever the source is, what is drawn has a property. -/
def Gives {α : Type} (action : StateM Source α) (P : α → Prop) : Prop :=
  ∀ source, P (drawnFrom source action)

section Gives

variable {α β : Type} {P : α → Prop} {Q : β → Prop}

/-- A value that is not drawn has the properties that it has. -/
theorem Gives.pure {a : α} (h : P a) : Gives (Pure.pure a) P := fun _ => h

/-- What is drawn after something else has a property if it has it whatever came before. -/
theorem Gives.bind {x : StateM Source α} {k : α → StateM Source β} (hx : Gives x P)
    (hk : ∀ a, P a → Gives (k a) Q) :
    Gives (x >>= k) Q :=
  fun source => hk _ (hx source) (StateT.run x source).2

/-- A property may be weakened. -/
theorem Gives.imp {x : StateM Source α} {P' : α → Prop} (hx : Gives x P)
    (h : ∀ a, P a → P' a) : Gives x P' :=
  fun source => h _ (hx source)

/-- Nothing is known of a number that is drawn. -/
theorem gives_draw : Gives draw fun _ => True := fun _ => trivial

/-- An integer that is drawn lies between its bounds. -/
theorem gives_between {low high : Int} (h : low ≤ high) :
    Gives (between low high) fun n => low ≤ n ∧ n ≤ high := by
  refine gives_draw.bind fun n _ => .pure ?_
  have hlow := Int.emod_nonneg n (show high - low + 1 ≠ 0 by omega)
  have hhigh := Int.emod_lt_of_pos n (show 0 < high - low + 1 by omega)
  omega

/-- A position that is drawn is one of a list of that size. -/
theorem gives_pick {size : Nat} (h : 0 < size) : Gives (pick size) (· < size) := by
  refine gives_draw.bind fun n _ => .pure ?_
  have hlow := Int.emod_nonneg n (show (size : Int) ≠ 0 by omega)
  have hhigh := Int.emod_lt_of_pos n (show 0 < (size : Int) by omega)
  omega

/-- Draws one after the other give as many things as are asked for, all of them with their
    property. -/
theorem gives_forEachFrom {f : Nat → StateM Source α} (hf : ∀ i, Gives (f i) P) :
    ∀ (count i : Nat) {drawn : List α}, (∀ a ∈ drawn, P a) →
      Gives (forEachFrom f count i drawn) fun as => as.length = drawn.length + count ∧ ∀ a ∈ as, P a
  | 0, _, drawn, hdrawn =>
    .pure ⟨List.length_reverse, fun a ha => hdrawn a (List.mem_reverse.mp ha)⟩
  | count + 1, i, drawn, hdrawn => by
    refine (hf i).bind fun a ha =>
      (gives_forEachFrom hf count (i + 1) (List.forall_mem_cons.mpr ⟨ha, hdrawn⟩)).imp ?_
    rintro as ⟨hlength, has⟩
    refine ⟨?_, has⟩
    rw [hlength, List.length_cons]
    omega

/-- The same from the first draw on. -/
theorem gives_forEach {f : Nat → StateM Source α} (hf : ∀ i, Gives (f i) P) (count : Nat) :
    Gives (forEach f count) fun as => as.length = count ∧ ∀ a ∈ as, P a := by
  have h := gives_forEachFrom hf count 0 (List.forall_mem_nil _)
  rwa [List.length_nil, Nat.zero_add] at h

end Gives

/-- What can be drawn for a member: an integer, eight small ones, and one of seven shapes. -/
structure Draw.IsDrawn (d : Draw) : Prop where
  integer : -10000 ≤ d.integer ∧ d.integer ≤ 10000
  length : d.numbers.length = 8
  numbers : ∀ n ∈ d.numbers, 0 ≤ n ∧ n ≤ 99
  shape : d.shape < 7

/-- What is drawn for a member can be drawn for one. -/
theorem gives_drawMember : Gives drawMember Draw.IsDrawn :=
  (gives_between (by decide)).bind fun _ hinteger =>
    -- nothing is asked of the number
    Gives.bind (P := fun _ => True) (fun _ => trivial) fun _ _ =>
      (gives_forEach (fun _ => gives_between (by decide)) 8).bind fun _ hnumbers =>
        (gives_pick (by decide)).bind fun _ hshape =>
          .pure ⟨hinteger, hnumbers.1, hnumbers.2, hshape⟩

/-- A document is that of as many members as are asked for, each of which can be drawn. -/
theorem gives_document (count : Nat) :
    Gives (document count) fun text => ∃ ds, text = object ds ∧ ds.length = count ∧
      ∀ d ∈ ds, d.IsDrawn :=
  (gives_forEach (fun _ => gives_drawMember) count).bind fun ds hds => .pure ⟨ds, rfl, hds⟩

/-- What can be drawn for a member can be written, if the number is finite. -/
theorem Draw.IsDrawn.isWritable {d : Draw} (h : d.IsDrawn) (hnumber : IsFinite d.number) :
    d.IsWritable where
  integer := Decimal.isWithinLimit_of_le (by have := h.integer; omega)
  number := hnumber
  numbers n hn := Decimal.isWithinLimit_of_le (by have := h.numbers n hn; omega)

/-- **Generated documents are parsed back.** A document made of any draws that can be written is
    parsed to its end, and its value has their keys in their order with what was drawn for each.
    Every source gives a document of as many members as are asked for, each with what can be drawn
    for one.  That can be written if the numbers are finite, and the indices are not too long. -/
theorem parse_object_drawn {config : Config} (hconfig : ReadsDocuments config) :
    (∀ ds : List Draw, (∀ i < ds.length, Decimal.isWithinLimit i = true) →
      (∀ d ∈ ds, d.IsWritable) →
      parse config (object ds) = .ok (.success (.dict (entries ds)) (object ds).length)) ∧
    ∀ source count, ∃ ds :
      List Draw, ds.length = count ∧ drawnFrom source (document count) = object ds ∧
      (∀ d ∈ ds, d.IsDrawn) ∧
      ((∀ i < count, Decimal.isWithinLimit i = true) → (∀ d ∈ ds, IsFinite d.number) →
        parse config (drawnFrom source (document count)) =
          .ok (.success (.dict (entries ds)) (drawnFrom source (document count)).length)) := by
  refine ⟨fun ds hcount hds => parse_object hconfig hcount hds, fun source count => ?_⟩
  obtain ⟨ds, htext, rfl, hds⟩ := gives_document count source
  refine ⟨ds, rfl, htext, hds, fun hcount hfinite => ?_⟩
  rw [htext]
  exact parse_object hconfig hcount fun d hd => (hds d hd).isWritable (hfinite d hd)

/-- A document with a number with a half, and a list. -/
theorem parse_object_drawn_two :
    parse {} "\x7b\n  \"key0\": 0.500000,\n  \"key1\": [-4, 2]\n\x7d".toList =
      .ok (.success (.dict [(.text "key0".toList, .float (Reading.float "0.500000".toList)),
        (.text "key1".toList, .list [.int (-4), .int 2])]) 41) := by
  have hwithin : ∀ n ∈ [-4, 2], Decimal.isWithinLimit n = true :=
    fun n hn => Decimal.isWithinLimit_of_le (by simp at hn; omega)
  have hfinite : IsFinite 0.5 := ⟨false, 4503599627370496, -53, by decide⟩
  have hdraw (shape : Nat) : Draw.IsWritable ⟨0, 0.5, [-4, 2], shape⟩ :=
    ⟨Decimal.isWithinLimit_of_le (show (0 : Int).natAbs ≤ 10000 by decide), hfinite, hwithin⟩
  have hparse := (@parse_object_drawn {} ⟨rfl, rfl, rfl⟩).1
    [⟨0, 0.5, [-4, 2], 1⟩, ⟨0, 0.5, [-4, 2], 5⟩]
      (fun i hi => Decimal.isWithinLimit_of_le (by simp at hi; omega)) (by simp [hdraw])
  have htext : object [⟨0, 0.5, [-4, 2], 1⟩, ⟨0, 0.5, [-4, 2], 5⟩] =
      "\x7b\n  \"key0\": 0.500000,\n  \"key1\": [-4, 2]\n\x7d".toList := by decide +kernel
  have hhalf : Fixed.ofFloat 6 0.5 = "0.500000".toList := by decide +kernel
  have hentries : entries [⟨0, 0.5, [-4, 2], 1⟩, ⟨0, 0.5, [-4, 2], 5⟩] =
      [(.text "key0".toList, .float (Reading.float "0.500000".toList)),
        (.text "key1".toList, .list [.int (-4), .int 2])] := by
    rw [← hhalf]
    rfl
  rw [htext, hentries] at hparse
  exact hparse

end Itemwise.Bench
