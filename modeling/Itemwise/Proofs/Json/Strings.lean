import Itemwise.Proofs.Json.Faults
import Itemwise.Proofs.Run.Unfolding
import Itemwise.Proofs.Text.Utf16

namespace Itemwise.Json

open TextReader Step

/-!
# What JSON strings denote

The body of a string is a sequence of fragments, each of which is written as UTF-16 code units, and
the string denotes the text of these units.

* `Fragment`, `Fragment.written`, `Fragment.units` — the fragments, how they are written and what
  they stand for;
* `isBody_iff` — the bodies of strings are the sequences of fragments;
* `unescape_eq` — the value of a body is the text of the units of its code points, whichever way it
  was found;
* `unescape_written` — it is the text of the units of its fragments;
* `string_denotes` — the string parser succeeds where a string stands, and yields the text that it
  denotes.
-/

/-! ### Fragments -/

/-- The short escapes, and the units that they stand for. -/
def shortEscapes : List (Char × Nat) :=
  [('"', 0x22), ('\\', 0x5c), ('/', 0x2f), ('b', 0x08), ('f', 0x0c), ('n', 0x0a),
    ('r', 0x0d), ('t', 0x09)]

/-- A fragment of the body of a string. -/
inductive Fragment
  /-- A character that stands for itself. -/
  | plain (c : Char) (low : ' ' ≤ c) (quote : c ≠ '"') (slash : c ≠ '\\')
  /-- A short escape. -/
  | short (c : Char) (u : Nat) (mem : (c, u) ∈ shortEscapes)
  /-- The escape of a unit by four hexadecimal digits. -/
  | unicode (h₁ h₂ h₃ h₄ : Char) (hex : IsHex h₁ ∧ IsHex h₂ ∧ IsHex h₃ ∧ IsHex h₄)

namespace Fragment

/-- How a fragment is written. -/
def written : Fragment → List Char
  | plain c .. => [c]
  | short c .. => ['\\', c]
  | unicode h₁ h₂ h₃ h₄ _ => ['\\', 'u', h₁, h₂, h₃, h₄]

/-- The code units that a fragment stands for. -/
def units : Fragment → List Nat
  | plain c .. => Utf16.ofChar c
  | short _ u _ => [u]
  | unicode h₁ h₂ h₃ h₄ _ => [hexUnit h₁ h₂ h₃ h₄]

/-- The code point that a fragment is replaced by. -/
def code : Fragment → Nat
  | plain c .. => c.toNat
  | short _ u _ => u
  | unicode h₁ h₂ h₃ h₄ _ => hexUnit h₁ h₂ h₃ h₄

end Fragment

/-- A hexadecimal digit is less than sixteen. -/
theorem hexValue_lt {c : Char} (h : isHex c = true) : hexValue c < 16 := by
  simp only [isHex, Bool.or_eq_true, Bool.and_eq_true, decide_eq_true_eq, Char.le_def,
    UInt32.le_iff_toNat_le] at h
  simp only [hexValue, Bool.and_eq_true, decide_eq_true_eq, Char.le_def, UInt32.le_iff_toNat_le]
  change (48 ≤ c.toNat ∧ c.toNat ≤ 57 ∨ 97 ≤ c.toNat ∧ c.toNat ≤ 102) ∨ 65 ≤ c.toNat ∧
    c.toNat ≤ 70 at h
  show (if 48 ≤ c.toNat ∧ c.toNat ≤ 57 then c.toNat - 48
    else if 97 ≤ c.toNat ∧ c.toNat ≤ 102 then c.toNat - 97 + 10 else c.toNat - 65 + 10) < 16
  split
  · omega
  · split
    · omega
    · omega

/-- Four hexadecimal digits make one unit. -/
theorem hexUnit_lt {a b c d : Char} (ha : isHex a = true) (hb : isHex b = true)
    (hc : isHex c = true) (hd : isHex d = true) : hexUnit a b c d < 0x10000 := by
  have ha := hexValue_lt ha
  have hb := hexValue_lt hb
  have hc := hexValue_lt hc
  have hd := hexValue_lt hd
  unfold hexUnit
  omega

/-- The letters of escapes are those of the table. -/
theorem escapeUnit?_eq_some_iff {c : Char} {u : Nat} :
    escapeUnit? c = some u ↔ (c, u) ∈ shortEscapes := by
  unfold escapeUnit?
  split <;> simp_all [shortEscapes, eq_comm]

/-- The letters of escapes stand for single units. -/
theorem lt_of_mem_shortEscapes {c : Char} {u : Nat} (h : (c, u) ∈ shortEscapes) : u < 0x10000 := by
  have hall : ∀ e ∈ shortEscapes, e.2 < 0x10000 := by decide
  exact hall _ h

/-- The units of a fragment are those of its code point. -/
theorem Fragment.units_eq (f : Fragment) : f.units = Utf16.ofCode f.code := by
  cases f with
  | plain c _ _ _ => rfl
  | short c u h => exact (Utf16.ofCode_of_lt (lt_of_mem_shortEscapes h)).symm
  | unicode h₁ h₂ h₃ h₄ hex =>
    obtain ⟨hh₁, hh₂, hh₃, hh₄⟩ := hex
    exact (Utf16.ofCode_of_lt
      (hexUnit_lt (isHex_iff.mpr hh₁) (isHex_iff.mpr hh₂) (isHex_iff.mpr hh₃)
        (isHex_iff.mpr hh₄))).symm

/-- A sequence of fragments is the body of a string. -/
theorem isBody_written (fs : List Fragment) : IsBody (fs.flatMap Fragment.written) := by
  induction fs with
  | nil => exact .nil
  | cons f fs ih =>
    rw [List.flatMap_cons]
    cases f with
    | plain c low quote slash => exact .plain low quote slash ih
    | short c u mem =>
      have hletters : ∀ e ∈ shortEscapes, e.1 ∈ ['"', '\\', '/', 'b', 'f', 'n', 'r', 't'] := by
        decide
      exact .escape (hletters _ mem) ih
    | unicode h₁ h₂ h₃ h₄ hex =>
      obtain ⟨hh₁, hh₂, hh₃, hh₄⟩ := hex
      exact .unicode hh₁ hh₂ hh₃ hh₄ ih

/-- A body is what its fragments are written as, one after the other. -/
theorem isBody_iff {b : List Char} :
    IsBody b ↔ ∃ fs : List Fragment, b = fs.flatMap Fragment.written := by
  refine ⟨fun h => ?_, fun ⟨fs, hfs⟩ => hfs ▸ isBody_written fs⟩
  induction h with
  | nil => exact ⟨[], rfl⟩
  | @plain c b low quote slash _ ih =>
    obtain ⟨fs, rfl⟩ := ih
    exact ⟨.plain c low quote slash :: fs, rfl⟩
  | @escape c b hc _ ih =>
    obtain ⟨fs, rfl⟩ := ih
    have hunit : ∀ c ∈ ['"', '\\', '/', 'b', 'f', 'n', 'r', 't'], ∃ e ∈ shortEscapes, e.1 = c := by
      simp [shortEscapes]
    obtain ⟨⟨_, u⟩, hmem, rfl⟩ := hunit c hc
    exact ⟨.short _ u hmem :: fs, rfl⟩
  | @unicode h₁ h₂ h₃ h₄ b hh₁ hh₂ hh₃ hh₄ _ ih =>
    obtain ⟨fs, rfl⟩ := ih
    exact ⟨.unicode h₁ h₂ h₃ h₄ ⟨hh₁, hh₂, hh₃, hh₄⟩ :: fs, rfl⟩

/-! ### Code points -/

/-- The code points of a body are those of its fragments. -/
theorem codes_written (fs : List Fragment) :
    codes (fs.flatMap Fragment.written) = fs.map Fragment.code := by
  induction fs with
  | nil => rfl
  | cons f fs ih =>
    rw [List.flatMap_cons, List.map_cons, ← ih]
    cases f with
    | plain c low quote slash =>
      show codes (c :: fs.flatMap Fragment.written) = _
      simp [codes, slash, Fragment.code]
    | short c u mem =>
      have hunit := escapeUnit?_eq_some_iff.mpr mem
      have hne : c ≠ 'u' := by
        rintro rfl
        cases hunit
      show codes ('\\' :: c :: fs.flatMap Fragment.written) = _
      simp [codes, hne, hunit, Fragment.code]
    | unicode h₁ h₂ h₃ h₄ hex =>
      obtain ⟨hh₁, hh₂, hh₃, hh₄⟩ := hex
      show codes ('\\' :: 'u' :: h₁ :: h₂ :: h₃ :: h₄ :: fs.flatMap Fragment.written) = _
      simp [codes, isHex_iff.mpr hh₁, isHex_iff.mpr hh₂, isHex_iff.mpr hh₃, isHex_iff.mpr hh₄,
        Fragment.code]

/-- Where the code points end. -/
theorem toNat_lt (c : Char) : c.toNat < 0x110000 := by
  have hvalid : c.toNat.isValidChar := c.valid
  unfold Nat.isValidChar at hvalid
  omega

/-- All code points of a body are those of characters or surrogates. -/
theorem lt_of_mem_codes {b : List Char} {n : Nat} (h : n ∈ codes b) : n < 0x110000 := by
  fun_induction codes b with
  | case1 a b c d rest hhex ih =>
    simp only [Bool.and_eq_true] at hhex
    obtain ⟨⟨⟨ha, hb⟩, hc⟩, hd⟩ := hhex
    have hunit := hexUnit_lt ha hb hc hd
    rcases List.mem_cons.mp h with rfl | h
    · omega
    · exact ih h
  | case2 a b c d rest _ ih =>
    rcases List.mem_cons.mp h with rfl | h
    · decide
    · exact ih h
  | case3 e rest _ u hu ih =>
    have hunit := lt_of_mem_shortEscapes (escapeUnit?_eq_some_iff.mp hu)
    rcases List.mem_cons.mp h with rfl | h
    · omega
    · exact ih h
  | case4 e rest _ _ ih =>
    rcases List.mem_cons.mp h with rfl | h
    · decide
    · exact ih h
  | case5 c rest _ _ ih =>
    rcases List.mem_cons.mp h with rfl | h
    · exact toNat_lt c
    · exact ih h
  | case6 => cases h

/-- A body without escapes is its own code points. -/
theorem codes_of_not_mem {b : List Char} (h : '\\' ∉ b) : codes b = b.map Char.toNat := by
  induction b with
  | nil => rfl
  | cons c b ih =>
    obtain ⟨hc, hb⟩ := List.ne_and_not_mem_of_not_mem_cons h
    simp [codes, hc.symm, ih hb]

/-- **The value of a body.** It is the text of the units of its code points, whether or not there is
    an escape or a surrogate among them. -/
theorem unescape_eq (b : List Char) :
    unescape b = Utf16.decode ((codes b).flatMap Utf16.ofCode) := by
  unfold unescape
  by_cases hslash : '\\' ∈ b
  · rw [if_pos (List.contains_iff_mem.mpr hslash)]
    by_cases hany : (codes b).any Utf16.isSurrogate = true
    · exact if_pos hany
    · have hvalid : ∀ n ∈ codes b, n.isValidChar := by
        intro n hn
        have hnone : Utf16.isSurrogate n = false :=
          Bool.eq_false_iff.mpr fun hn' => hany (List.any_eq_true.mpr ⟨n, hn, hn'⟩)
        have hlt := lt_of_mem_codes hn
        rw [Utf16.isSurrogate_eq_false_iff] at hnone
        exact hnone.imp_right fun hhigh => ⟨hhigh, hlt⟩
      rw [Utf16.decode_flatMap_ofCode hvalid]
      exact if_neg hany
  · have hvalid : ∀ n ∈ b.map Char.toNat, n.isValidChar := by
      intro n hn
      obtain ⟨c, -, rfl⟩ := List.mem_map.mp hn
      exact c.valid
    rw [if_neg fun h => hslash (List.contains_iff_mem.mp h), codes_of_not_mem hslash,
      Utf16.decode_flatMap_ofCode hvalid, List.map_map]
    have hsame : Char.ofNat ∘ Char.toNat = id := funext Char.ofNat_toNat
    rw [hsame, List.map_id]

/-- The value of a body is the text of the units of its fragments. -/
theorem unescape_written (fs : List Fragment) :
    unescape (fs.flatMap Fragment.written) = Utf16.decode (fs.flatMap Fragment.units) := by
  have hunits : fs.flatMap Fragment.units = (fs.map Fragment.code).flatMap Utf16.ofCode := by
    rw [List.flatMap_map]
    exact congrArg (fs.flatMap ·) (funext Fragment.units_eq)
  rw [unescape_eq, codes_written, hunits]

/-! ### Strings -/

/-- A text begins with a string, which denotes some text and leaves some rest. -/
def BeginsWith (cs value rest : List Char) : Prop :=
  ∃ fs : List Fragment, cs = '"' :: (fs.flatMap Fragment.written ++ '"' :: rest) ∧
    Utf16.Denotes (fs.flatMap Fragment.units) value

/-- The reader of strings reads the body of the string that a text begins with. -/
theorem string_eq_read_iff {cs value rest : List Char} :
    BeginsWith cs value rest ↔ ∃ b, Reader.string cs = .read b rest ∧ unescape b = value := by
  constructor
  · rintro ⟨fs, rfl, hvalue⟩
    refine ⟨_, string_append (isBody_written fs) rest, ?_⟩
    rw [unescape_written, hvalue.eq_decode]
  · rintro ⟨b, hread, rfl⟩
    obtain ⟨rfl, hb⟩ := string_eq_read hread
    obtain ⟨fs, rfl⟩ := isBody_iff.mp hb
    refine ⟨fs, rfl, ?_⟩
    rw [unescape_written]
    exact Utf16.denotes_decode _

/-- **Strings denote what their units do.** At every position of a text, the string parser comes to
    an outcome, which is a success just in case a string stands there: a quote, fragments, and a
    quote.  Then the parser is past the second quote, and its value is the text that the code units
    of the fragments denote, one after the other. -/
theorem run_string {σ : Type} [Memory σ] (setting : Setting σ) {config : Config}
    (hon : config.enabled .exampleGrammars = true) (text : List Char) {pos : Nat}
    (hpos : pos ≤ text.length) (depth : Int) (limit : Limit) (s : σ) :
    ∃ p : Parser σ, string? config = .ok p ∧
      ∃ o, p.run setting ⟨.sequence (.text text.toArray), pos, depth, limit⟩ s = .ok o s ∧
        ∀ v q, o = .success v q ↔
          ∃ value rest, BeginsWith (text.drop pos) value rest ∧ v = .text value ∧
            q = text.length - rest.length := by
  have hbuilt : (string? config : Except Fault (Parser σ)) = .ok string := by
    rw [string?, Config.require, if_pos hon]
    rfl
  refine ⟨string, hbuilt, ?_⟩
  -- The parser does what the reader does on the text from the position on.
  let T : TextRun := ⟨text, depth, limit⟩
  have hstart : T.context (text.drop pos) =
      ⟨.sequence (.text text.toArray), pos, depth, limit⟩ := by
    have hsame : text.length - (text.drop pos).length = pos := by
      rw [List.length_drop]
      omega
    show Context.mk _ (text.length - (text.drop pos).length) _ _ = _
    rw [hsame]
  have hrun : string.run setting ⟨.sequence (.text text.toArray), pos, depth, limit⟩ s =
      ((Reader.string (text.drop pos)).map fun b => .text (unescape b)).toAction T s := by
    rw [Parser.run_eq, ← hstart, reads_string.run _ (List.drop_suffix pos text)]
  rw [hrun]
  cases hread : Reader.string (text.drop pos) with
  | read b rest =>
    refine ⟨.success (.text (unescape b)) (text.length - rest.length), rfl, fun v q => ?_⟩
    simp only [string_eq_read_iff, hread]
    constructor
    · rintro ⟨⟩
      exact ⟨_, rest, ⟨b, rfl, rfl⟩, rfl, rfl⟩
    · rintro ⟨_, _, ⟨_, ⟨⟩, rfl⟩, rfl, rfl⟩
      rfl
  | stuck rest =>
    refine ⟨.failure (T.pos rest), rfl, fun v q => ⟨fun hfail => (by cases hfail), ?_⟩⟩
    rintro ⟨value, rest', hstring, -, -⟩
    obtain ⟨b, hb, -⟩ := string_eq_read_iff.mp hstring
    rw [hread] at hb
    cases hb
  | fault f => exact absurd hread (isSafe_string _ f)

/-- Two escaped halves make one character, and a third one is left over. -/
theorem run_string_halves :
    ∃ p : Parser Unit, string? {} = .ok p ∧
      p.run ⟨{}, grammar⟩ ⟨.sequence (.text "x\"\\ud83d\\ude00\\uD800\"y".toList.toArray), 1, 0,
        { levels := 59 }⟩ () = .ok (.success (.text ['😀', '\ufffd']) 21) () := by
  have hhex (c : Char) (h : isHex c = true) : IsHex c := isHex_iff.mp h
  let high : Fragment := .unicode 'd' '8' '3' 'd' ⟨hhex _ rfl, hhex _ rfl, hhex _ rfl, hhex _ rfl⟩
  let low : Fragment := .unicode 'd' 'e' '0' '0' ⟨hhex _ rfl, hhex _ rfl, hhex _ rfl, hhex _ rfl⟩
  let lone : Fragment := .unicode 'D' '8' '0' '0' ⟨hhex _ rfl, hhex _ rfl, hhex _ rfl, hhex _ rfl⟩
  obtain ⟨p, hp, o, hrun, hiff⟩ := @run_string Unit _ ⟨{}, grammar⟩ {} rfl
    "x\"\\ud83d\\ude00\\uD800\"y".toList 1 (by decide) 0 { levels := 59 } ()
  have hdenotes : Utf16.Denotes ([high, low, lone].flatMap Fragment.units) ['😀', '\ufffd'] :=
    .pair rfl rfl (.lone rfl (fun _ _ h => nomatch h) .nil)
  obtain rfl := (hiff (.text ['😀', '\ufffd']) 21).mpr
    ⟨_, ['y'], ⟨[high, low, lone], rfl, hdenotes⟩, rfl, rfl⟩
  exact ⟨p, hp, hrun⟩

end Itemwise.Json
