import Itemwise.Proofs.SemVer.Acceptance

namespace Itemwise.SemVer

/-!
# Versions written and read

A version that is written is read back, and a text that is read is written as it was, but for zeros
that the numbers can do without.

* `IsProper`, `IsShort` — the versions that some text is read as, and those whose numbers can be
  written;
* `shortest`, `shortestCore` — digits with a single zero in place of zeros alone, and a text whose
  first numbers are written so;
* `isComponent_ofNat`, `ofNat_toNat_eq_shortest` — the digits of a number are one of its texts, the
  one with no more zeros than it needs;
* `written`, `isVersion_written` — the text that a proper version is written as is one of its texts;
* `written_of_isVersion` — what is written of a version that a text was read as;
* `render_roundtrip` — both directions.
-/

/-- A version as it can be read: its numbers are not negative, and its parts are dotted identifiers
    if they are there. -/
structure IsProper (v : SemVer) : Prop where
  major : 0 ≤ v.major
  minor : 0 ≤ v.minor
  patch : 0 ≤ v.patch
  preRelease : v.preRelease = [] ∨ IsDotted IsPreReleaseIdentifier v.preRelease
  build : v.build = [] ∨ IsDotted IsIdentifier v.build

/-- The numbers of a version have no more digits than can be written. -/
def IsShort (v : SemVer) : Prop :=
  Decimal.isWithinLimit v.major = true ∧ Decimal.isWithinLimit v.minor = true ∧
    Decimal.isWithinLimit v.patch = true

/-- Digits with a single zero in place of zeros alone. -/
def shortest (ds : List Char) : List Char := if ds.all (· == '0') then ['0'] else ds

/-- A text whose first numbers, between which there is a character each, have a single zero in place
    of zeros alone. -/
def shortestCore : (numbers : Nat) → List Char → List Char
  | 0, cs => cs
  | n + 1, cs =>
    shortest (cs.takeWhile Char.isDigit) ++
      match cs.dropWhile Char.isDigit with
      | [] => []
      | c :: rest => c :: shortestCore n rest

example : shortestCore 3 "000.10.00-00+0".toList = "0.10.0-00+0".toList := by decide

/-! ### Numbers -/

/-- The digits of a number are one of its texts. -/
theorem isComponent_ofNat (n : Nat) : IsComponent (Decimal.ofNat n) where
  ne_nil := Decimal.ofNat_ne_nil n
  isDigit := fun _ hc => Decimal.isDigit_of_mem_ofNat hc
  zeros := by
    intro hhead
    obtain rfl | hpos := Nat.eq_zero_or_pos n
    · rw [Decimal.ofNat_zero]
      simp
    · exact absurd hhead (Decimal.head?_ofNat_ne hpos)

/-- A number is written with no more zeros than it needs. -/
theorem ofNat_toNat_eq_shortest {ds : List Char} (hds : IsComponent ds) :
    Decimal.ofNat (Decimal.toNat ds) = shortest ds := by
  unfold shortest
  by_cases hzeros : ∀ c ∈ ds, c = '0'
  · have hall : ds.all (· == '0') = true := by simpa using hzeros
    rw [if_pos hall, (Decimal.toNat_eq_zero hds.isDigit).mpr hzeros, Decimal.ofNat_zero]
  · have hall : ¬ ds.all (· == '0') = true := by simpa using hzeros
    rw [if_neg hall]
    exact Decimal.ofNat_toNat hds.ne_nil hds.isDigit fun hhead => hzeros (hds.zeros hhead)

/-- The first number of several, and the character after it. -/
theorem shortestCore_more {ds : List Char} (hds : ∀ c ∈ ds, c.isDigit = true) {c : Char}
    (hc : c.isDigit = false) (rest : List Char) (n : Nat) :
    shortestCore (n + 1) (ds ++ c :: rest) = shortest ds ++ c :: shortestCore n rest := by
  have hstop : ∀ d ∈ (c :: rest).head?, d.isDigit = false := by simpa using hc
  obtain ⟨htake, hdrop⟩ := TextReader.takeWhile_append_of_stop hds hstop
  rw [shortestCore, htake, hdrop]

/-- The last number, and what comes after it. -/
theorem shortestCore_last {ds post : List Char} (hds : ∀ c ∈ ds, c.isDigit = true)
    (hpost : ∀ c ∈ post.head?, c.isDigit = false) :
    shortestCore 1 (ds ++ post) = shortest ds ++ post := by
  cases post with
  | cons c rest => exact shortestCore_more hds (hpost c rfl) rest 0
  | nil =>
    obtain ⟨htake, hdrop⟩ := TextReader.takeWhile_append_of_stop hds hpost
    rw [shortestCore, htake, hdrop]

/-! ### Versions -/

/-- A version as it is written. -/
def written (v : SemVer) : List Char :=
  Decimal.ofInt v.major ++ '.' :: (Decimal.ofInt v.minor ++ '.' ::
    (Decimal.ofInt v.patch ++ (marked '-' v.preRelease ++ marked '+' v.build)))

/-- A version whose numbers are short enough is written out. -/
theorem render_eq {v : SemVer} (hshort : IsShort v) : render v = .ok (written v) := by
  obtain ⟨hmajor, hminor, hpatch⟩ := hshort
  have hrender : ∀ {n : Int}, Decimal.isWithinLimit n = true →
      Decimal.render? n = some (Decimal.ofInt n) :=
    fun h => if_pos h
  simp only [render, hrender hmajor, hrender hminor, hrender hpatch, Fault.attempt_some,
    Step.ok_bind, written, marked]
  simp [pure, Except.pure]

/-- The text that a version is written as is one of its texts. -/
theorem isVersion_written {v : SemVer} (h : IsProper v) : IsVersion v (written v) := by
  obtain ⟨hmajor, hminor, hpatch, hpre, hbuild⟩ := h
  obtain ⟨major, minor, patch, p, m⟩ := v
  -- the numbers are natural numbers, and what denotes them is their digits
  obtain ⟨a, rfl⟩ := Int.eq_ofNat_of_zero_le hmajor
  obtain ⟨b, rfl⟩ := Int.eq_ofNat_of_zero_le hminor
  obtain ⟨c, rfl⟩ := Int.eq_ofNat_of_zero_le hpatch
  have hparts := IsVersion.parts (isComponent_ofNat a) (isComponent_ofNat b)
    (isComponent_ofNat c) hpre hbuild
  rw [Decimal.toNat_ofNat, Decimal.toNat_ofNat, Decimal.toNat_ofNat] at hparts
  exact hparts

/-- A version that a text was read as is written as that text is with single zeros. -/
theorem written_of_isVersion {v : SemVer} {text : List Char} (h : IsVersion v text) :
    written v = shortestCore 3 text := by
  obtain @⟨a, b, c, p, m, ha, hb, hc, -, -⟩ := h
  have hdot : Char.isDigit '.' = false := by decide
  have hmarks : ∀ d ∈ (marked '-' p ++ marked '+' m).head?, d.isDigit = false := by
    intro d hd
    obtain rfl | rfl := eq_mark_of_mem_head? hd
    · decide
    · decide
  calc written ⟨Decimal.toNat a, Decimal.toNat b, Decimal.toNat c, p, m⟩
      = Decimal.ofNat (Decimal.toNat a) ++ '.' :: (Decimal.ofNat (Decimal.toNat b) ++ '.' ::
          (Decimal.ofNat (Decimal.toNat c) ++ (marked '-' p ++ marked '+' m))) := rfl
    _ = shortest a ++ '.' ::
        (shortest b ++ '.' :: (shortest c ++ (marked '-' p ++ marked '+' m))) := by
      rw [ofNat_toNat_eq_shortest ha, ofNat_toNat_eq_shortest hb, ofNat_toNat_eq_shortest hc]
    _ = shortestCore 3 (a ++ '.' :: (b ++ '.' :: (c ++ (marked '-' p ++ marked '+' m)))) := by
      rw [shortestCore_more ha.isDigit hdot, shortestCore_more hb.isDigit hdot,
        shortestCore_last hc.isDigit hmarks]

/-- A parse that gives a version gives that of the text. -/
theorem isVersion_of_parse {config : Config} {text : List Char} {v : SemVer}
    (h : parse config text = .ok (some v)) :
    IsVersion v text := by
  rw [parse_eq] at h
  cases hrequire : config.require .exampleGrammars with
  | error f =>
    rw [hrequire] at h
    cases h
  | ok u =>
    rw [hrequire] at h
    exact version?_eq_some.mp (Except.ok.inj h)

/-- **Versions are read back as they are written.**  A proper version whose numbers are not too long
    is read back from the text that it is written as, if the example grammars are on; and a text
    that is read as a version whose numbers are not too long is written with a single zero for every
    number of zeros alone, and otherwise as it was. -/
theorem render_roundtrip (config : Config) :
    (∀ v, IsProper v → IsShort v →
      ∃ text, render v = .ok text ∧ parse config text = (config.require .exampleGrammars).map
        fun _ => some v) ∧
      ∀ text v, parse config text = .ok (some v) → IsShort v →
        render v = .ok (shortestCore 3 text) := by
  refine ⟨fun v hproper hshort => ⟨written v, render_eq hshort, ?_⟩, fun text v hparse hshort => ?_⟩
  · rw [parse_eq, version?_eq_some.mpr (isVersion_written hproper)]
  · rw [render_eq hshort, written_of_isVersion (isVersion_of_parse hparse)]

/-- A version with a number that its text writes with more zeros than it needs, with a hyphen in its
    pre-release part. -/
theorem isVersion_zeros :
    IsVersion ⟨0, 1, 0, ['a', '-', '.', '2'], ['0', '7']⟩
      ['0', '0', '.', '1', '.', '0', '-', 'a', '-', '.', '2', '+', '0', '7'] := by
  have hpre : IsDotted IsPreReleaseIdentifier ['a', '-', '.', '2'] :=
    @IsDotted.more _ ['a', '-'] ['2'] (by decide) (.last (by decide))
  have hbuild : IsDotted IsIdentifier ['0', '7'] := .last (by decide)
  exact @IsVersion.parts ['0', '0'] ['1'] ['0'] _ _ (by decide) (by decide) (by decide)
    (.inr hpre) (.inr hbuild)

/-- A version with zeros in front is read without them, and what is written is read as the same
    version. -/
theorem render_roundtrip_zeros :
    (∃ text, render ⟨0, 1, 0, ['a', '-', '.', '2'], ['0', '7']⟩ = .ok text ∧
        parse {} text = .ok (some ⟨0, 1, 0, ['a', '-', '.', '2'], ['0', '7']⟩)) ∧
      parse {} ['0', '0', '.', '1', '.', '0', '-', 'a', '-', '.', '2', '+', '0', '7'] =
        .ok (some ⟨0, 1, 0, ['a', '-', '.', '2'], ['0', '7']⟩) ∧
      render ⟨0, 1, 0, ['a', '-', '.', '2'], ['0', '7']⟩ =
        .ok ['0', '.', '1', '.', '0', '-', 'a', '-', '.', '2', '+', '0', '7'] := by
  have hproper : IsProper ⟨0, 1, 0, ['a', '-', '.', '2'], ['0', '7']⟩ := by
    refine ⟨by decide, by decide, by decide, .inr ?_, .inr (.last (by decide))⟩
    exact @IsDotted.more _ ['a', '-'] ['2'] (by decide) (.last (by decide))
  have hshort : IsShort ⟨0, 1, 0, ['a', '-', '.', '2'], ['0', '7']⟩ := by
    refine ⟨?_, ?_, ?_⟩
    all_goals decide +kernel
  have hparse : parse {} ['0', '0', '.', '1', '.', '0', '-', 'a', '-', '.', '2', '+', '0', '7'] =
      .ok (some ⟨0, 1, 0, ['a', '-', '.', '2'], ['0', '7']⟩) := by
    rw [parse_eq, version?_eq_some.mpr isVersion_zeros]
    rfl
  exact ⟨(render_roundtrip {}).1 _ hproper hshort, hparse,
    (render_roundtrip {}).2 _ _ hparse hshort⟩

end Itemwise.SemVer
