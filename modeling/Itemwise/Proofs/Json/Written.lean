import Itemwise.Decimal.Fixed
import Itemwise.Proofs.Decimal.Digits
import Itemwise.Proofs.Json.Strings
import Itemwise.Value.Display
import Itemwise.Value.Draft
import Mathlib.Data.List.Induction

namespace Itemwise

/-!
# Values written as documents

What is written the way numbers, texts and lists are written elsewhere is written as in a document.

* `Json.isInteger_ofInt`, `Json.integerOf_ofInt` — the decimal text of an integer is that of the
  same integer in a document;
* `Json.isDecimal_ofFloat` — so is that of a finite float with a fixed number of places;
* `Json.isBody_of_plain`, `Json.unescape_of_codes` — texts without quotes and backslashes stand for
  themselves;
* `Json.listed_joinText` — texts joined with commas and white space are a list of parts;
* `Json.entriesOf_of_nodup` — where no key occurs twice, the entries of an object are its members.
-/

namespace Json

/-! ### Integers -/

/-- A number is written in digits. -/
theorem isDigit_of_mem_ofNat {n : Nat} : ∀ c ∈ Decimal.ofNat n, IsDigit c :=
  fun _ hc => isDigit_iff.mp (Decimal.isDigit_of_mem_ofNat hc)

/-- Digits that do not start with a zero, with more digits behind them or not. -/
theorem isWhole_of_head {d : Char} {ds : List Char} (hd : d ≠ '0')
    (hds : ∀ c ∈ d :: ds, IsDigit c) : IsWhole (d :: ds) := by
  obtain ⟨⟨hlow, hhigh⟩, hrest⟩ := List.forall_mem_cons.mp hds
  refine .digits ?_ hhigh hrest
  have hne : d.toNat ≠ '0'.toNat := fun heq => hd (Char.toNat_inj.mp heq)
  rw [Char.le_def, UInt32.le_iff_toNat_le] at hlow ⊢
  change 48 ≤ d.toNat at hlow
  change d.toNat ≠ 48 at hne
  change 49 ≤ d.toNat
  omega

/-- A natural number is written as a whole number. -/
theorem isWhole_ofNat (n : Nat) : IsWhole (Decimal.ofNat n) := by
  rcases Nat.eq_zero_or_pos n with rfl | hn
  · rw [Decimal.ofNat_zero]
    exact .zero
  · obtain ⟨d, ds, hdigits⟩ := List.exists_cons_of_ne_nil (Decimal.ofNat_ne_nil n)
    have hhead := Decimal.head?_ofNat_ne hn
    have hall := isDigit_of_mem_ofNat (n := n)
    rw [hdigits] at hhead hall ⊢
    exact isWhole_of_head (fun hd => hhead (congrArg some hd)) hall

/-- An integer is written as one. -/
theorem isInteger_ofInt (n : Int) : IsInteger (Decimal.ofInt n) := by
  cases n with
  | ofNat n => exact .unsigned (isWhole_ofNat n)
  | negSucc n => exact .negative (isWhole_ofNat (n + 1))

/-- Digits are no sign. -/
theorem unsigned_of_isDigit {ds : List Char} (hds : ∀ c ∈ ds, IsDigit c) : unsigned ds = ds := by
  unfold unsigned
  split
  · exact absurd (hds '-' (by simp)) (by decide)
  · rfl

/-- Digits denote the number that they are in decimal. -/
theorem integerOf_of_isDigit {ds : List Char} (hds : ∀ c ∈ ds, IsDigit c) :
    integerOf ds = Decimal.toNat ds := by
  unfold integerOf
  split
  · exact absurd (hds '-' (by simp)) (by decide)
  · rfl

/-- An integer is read back. -/
theorem integerOf_ofInt (n : Int) : integerOf (Decimal.ofInt n) = n := by
  cases n with
  | ofNat n =>
    show integerOf (Decimal.ofNat n) = _
    rw [integerOf_of_isDigit isDigit_of_mem_ofNat, Decimal.toNat_ofNat]
    rfl
  | negSucc n =>
    show -(Decimal.toNat (Decimal.ofNat (n + 1)) : Int) = _
    rw [Decimal.toNat_ofNat]
    rfl

/-- An integer has the digits of its absolute value. -/
theorem unsigned_ofInt (n : Int) : unsigned (Decimal.ofInt n) = Decimal.ofNat n.natAbs := by
  cases n with
  | ofNat n => exact unsigned_of_isDigit isDigit_of_mem_ofNat
  | negSucc n => rfl

/-- An integer within the limit is written in no more digits than a conversion handles. -/
theorem length_unsigned_ofInt {n : Int} (hn : Decimal.isWithinLimit n = true) :
    (unsigned (Decimal.ofInt n)).length ≤ Decimal.digitLimit := by
  rw [unsigned_ofInt]
  exact Decimal.length_ofNat_le hn

/-! ### Decimals -/

/-- The point stands before the last places of the digits, with as many zeros in front as that
    takes. -/
theorem place_eq {places n : Nat} (hplaces : 0 < places) {ds : List Char}
    (hds : List.replicate (places + 1 - (Decimal.ofNat n).length) '0' ++ Decimal.ofNat n = ds) :
    Fixed.place places n = ds.take (ds.length - places) ++ '.' :: ds.drop (ds.length - places) := by
  subst hds
  exact if_neg (Nat.ne_of_gt hplaces)

/-- A number with at most as many digits as there are places is behind the point, and a zero before
    it. -/
theorem place_of_le {places n : Nat} (hplaces : 0 < places)
    (hn : (Decimal.ofNat n).length ≤ places) :
    Fixed.place places n =
      '0' :: '.' :: (List.replicate (places - (Decimal.ofNat n).length) '0' ++
        Decimal.ofNat n) := by
  have hds : List.replicate (places + 1 - (Decimal.ofNat n).length) '0' ++ Decimal.ofNat n =
      '0' :: (List.replicate (places - (Decimal.ofNat n).length) '0' ++ Decimal.ofNat n) := by
    rw [Nat.succ_sub hn]
    rfl
  have hwhole : ('0' :: (List.replicate (places - (Decimal.ofNat n).length) '0' ++
      Decimal.ofNat n)).length - places = 1 := by
    rw [List.length_cons, List.length_append, List.length_replicate]
    omega
  rw [place_eq hplaces hds, hwhole]
  rfl

/-- Of a number with more digits than there are places, the last ones are behind the point. -/
theorem place_of_lt {places n : Nat} (hplaces : 0 < places)
    (hn : places < (Decimal.ofNat n).length) :
    Fixed.place places n = (Decimal.ofNat n).take ((Decimal.ofNat n).length - places) ++
      '.' :: (Decimal.ofNat n).drop ((Decimal.ofNat n).length - places) := by
  have hzeros : places + 1 - (Decimal.ofNat n).length = 0 := Nat.sub_eq_zero_of_le hn
  exact place_eq hplaces (by rw [hzeros]; rfl)

/-- What stands first of the digits before a point may stand before one. -/
theorem isWhole_take {w : List Char} (hw : IsWhole w) {k : Nat} (hk : 0 < k) :
    IsWhole (w.take k) := by
  cases k with
  | zero => contradiction
  | succ k =>
    cases hw with
    | zero =>
      rw [List.take_succ_cons, List.take_nil]
      exact .zero
    | digits hlow hhigh hds => exact .digits hlow hhigh fun c hc => hds c (List.mem_of_mem_take hc)

/-- A number with places behind the point is written as digits, the point, and as many digits as
    there are places. -/
theorem exists_place {places : Nat} (hplaces : 0 < places) (n : Nat) :
    ∃ w ds, Fixed.place places n = w ++ '.' :: ds ∧ IsWhole w ∧ AreDigits ds ∧
      ds.length = places := by
  by_cases hn : (Decimal.ofNat n).length ≤ places
  · refine ⟨['0'], _, place_of_le hplaces hn, .zero, ⟨?_, ?_⟩, ?_⟩
    · exact List.append_ne_nil_of_right_ne_nil _ (Decimal.ofNat_ne_nil n)
    · exact fun c hc => isDigit_iff.mp (Decimal.isDigit_of_mem_zeros_append hc)
    · rw [List.length_append, List.length_replicate]
      omega
  · have hlt : places < (Decimal.ofNat n).length := Nat.lt_of_not_le hn
    have hlength : ((Decimal.ofNat n).drop ((Decimal.ofNat n).length - places)).length =
        places := by
      rw [List.length_drop]
      omega
    refine ⟨_, _, place_of_lt hplaces hlt, isWhole_take (isWhole_ofNat n) (by omega),
      ⟨?_, ?_⟩, hlength⟩
    · exact List.ne_nil_of_length_pos (Nat.lt_of_lt_of_eq hplaces hlength.symm)
    · exact fun c hc => isDigit_of_mem_ofNat c (List.mem_of_mem_drop hc)

/-- **A finite float with places behind the point is the text of a number**: perhaps a minus sign,
    digits, the point, and as many digits as there are places. -/
theorem isDecimal_ofFloat {places : Nat} (hplaces : 0 < places) {x : Float} {negative : Bool}
    {m : Nat} {q : Int} (hx : Binary64.ofFloat x = .finite negative m q) :
    IsDecimal (Fixed.ofFloat places x) := by
  unfold Fixed.ofFloat
  rw [hx]
  obtain ⟨w, ds, hplace, hw, hds, -⟩ := exists_place hplaces
    (Fixed.roundHalfEven (m * Nat.pow 2 q.toNat * Nat.pow 10 places) (Nat.pow 2 (-q).toNat))
  have hinteger : IsInteger ((if negative then ['-'] else []) ++ w) := by
    cases negative with
    | true => exact .negative hw
    | false => exact .unsigned hw
  have hparts := IsDecimal.parts hinteger (.inr (.point hds)) (.inl rfl)
    (.inl (List.cons_ne_nil _ _))
  rw [List.append_nil, List.append_assoc] at hparts
  show IsDecimal ((if negative then ['-'] else []) ++ Fixed.place places _)
  rw [hplace]
  exact hparts

/-! ### Texts -/

/-- A body after a body is one body. -/
theorem isBody_append {b b' : List Char} (h : IsBody b) (h' : IsBody b') : IsBody (b ++ b') := by
  induction h with
  | nil => exact h'
  | plain low quote slash _ ih => exact .plain low quote slash ih
  | escape hc _ ih => exact .escape hc ih
  | unicode h₁ h₂ h₃ h₄ _ ih => exact .unicode h₁ h₂ h₃ h₄ ih

/-- A text of characters that stand for themselves. -/
theorem isBody_of_plain {b : List Char} (h : b.all isPlain = true) : IsBody b := by
  induction b with
  | nil => exact .nil
  | cons c b ih =>
    obtain ⟨hc, hb⟩ := Bool.and_eq_true_iff.mp h
    obtain ⟨hquote, hslash, hlow⟩ := isPlain_iff.mp hc
    exact .plain hlow hquote hslash (ih hb)

/-- Digits stand for themselves in a string. -/
theorem all_isPlain_ofNat (n : Nat) : (Decimal.ofNat n).all isPlain = true := by
  refine List.all_eq_true.mpr fun c hc => ?_
  obtain ⟨hlow, hhigh⟩ := Decimal.toNat_bounds (Decimal.isDigit_of_mem_ofNat hc)
  have hquote : '"'.toNat = 34 := rfl
  have hslash : '\\'.toNat = 92 := rfl
  refine isPlain_iff.mpr ⟨?_, ?_, ?_⟩
  · rintro rfl
    omega
  · rintro rfl
    omega
  · rw [Char.le_def, UInt32.le_iff_toNat_le]
    change 32 ≤ c.toNat
    omega

/-- Characters that stand for themselves are their own code points, before whatever else. -/
theorem codes_append_of_plain {b : List Char} (h : b.all isPlain = true) (rest : List Char) :
    codes (b ++ rest) = b.map Char.toNat ++ codes rest := by
  induction b with
  | nil => rfl
  | cons c b ih =>
    obtain ⟨hc, hb⟩ := Bool.and_eq_true_iff.mp h
    have hslash := (isPlain_iff.mp hc).2.1
    simp [codes, hslash, ih hb]

/-- A body whose code points are those of a text denotes that text. -/
theorem unescape_of_codes {b text : List Char} (h : codes b = text.map Char.toNat) :
    unescape b = text := by
  have hvalid : ∀ n ∈ text.map Char.toNat, n.isValidChar := by
    intro n hn
    obtain ⟨c, -, rfl⟩ := List.mem_map.mp hn
    exact c.valid
  rw [unescape_eq, h, Utf16.decode_flatMap_ofCode hvalid, List.map_map]
  exact (List.map_congr_left fun c _ => c.ofNat_toNat).trans text.map_id

/-- Without escapes, a body denotes itself. -/
theorem unescape_of_plain {b : List Char} (h : b.all isPlain = true) : unescape b = b := by
  have hcodes := codes_append_of_plain h []
  rw [List.append_nil] at hcodes
  exact unescape_of_codes (hcodes.trans (List.append_nil _))

/-! ### Parts -/

/-- A space is white space. -/
theorem isBlank_space : IsBlank [' '] := List.forall_mem_singleton.mpr (.inl rfl)

/-- So is the end of a line. -/
theorem isBlank_line : IsBlank ['\n'] := List.forall_mem_singleton.mpr (.inr (.inr (.inl rfl)))

/-- A value may have a space before it. -/
theorem IsValue.isPadded_space {t : Tree} {w : List Char} (h : IsValue t w) :
    IsPadded t (' ' :: w) := by
  have hpad := IsPadded.pad isBlank_space h isBlank_nil
  rwa [List.append_nil] at hpad

/-- A member whose key stands for itself and is right before the colon. -/
theorem isMember_of_plain {b ws w : List Char} {t : Tree} (hws : IsBlank ws)
    (hb : b.all isPlain = true) (hw : IsPadded t w) :
    IsMember (b, t) (ws ++ '"' :: (b ++ '"' :: ':' :: w)) :=
  @IsMember.colon ws b [] w t hws (isBody_of_plain hb) isBlank_nil hw

section Joined

variable {α β : Type} {P : β → List Char → Prop} {f : α → List Char} {g : α → β} {as : List α}
  {ws sp ws' : List Char}

/-- Texts joined with commas and white space after each of them are a list of the parts whose texts
    they are. -/
theorem listed_joinText (hne : as ≠ []) (hws : IsBlank ws) (hsp : IsBlank sp) (hws' : IsBlank ws')
    (h : ∀ a ∈ as, ∀ pre post, IsBlank pre → IsBlank post → P (g a) (pre ++ (f a ++ post))) :
    Listed P (as.map g) (ws ++ (joinText (',' :: sp) (as.map f) ++ ws')) := by
  -- the white space in front is the one before the list for the first part, and the one after a
  -- comma for the others
  induction as generalizing ws with
  | nil => contradiction
  | cons a as ih =>
    obtain ⟨ha, has⟩ := List.forall_mem_cons.mp h
    cases as with
    | nil => exact .last (ha ws ws' hws hws')
    | cons a' as =>
      have hpart : P (g a) (ws ++ f a) := by
        have hbare := ha ws [] hws isBlank_nil
        rwa [List.append_nil] at hbare
      have hmore := Listed.more hpart (ih (List.cons_ne_nil _ _) hsp has)
      have htext : ws ++ (joinText (',' :: sp) ((a :: a' :: as).map f) ++ ws') =
          ws ++ f a ++ ',' :: (sp ++ (joinText (',' :: sp) ((a' :: as).map f) ++ ws')) := by
        simp [joinText]
      rw [htext]
      exact hmore

end Joined

/-! ### Objects -/

/-- If no key comes twice, the entries are the members. -/
theorem entriesOf_of_nodup {ms : List (List Char × Value)} (h : (ms.map Prod.fst).Nodup) :
    entriesOf ms = ms.map fun m => (.text m.1, m.2) := by
  -- from the end, as the last member goes into the entries of those before it
  induction ms using List.reverseRecOn with
  | nil => rfl
  | append_singleton ms m ih =>
    rw [List.map_append, List.nodup_append] at h
    obtain ⟨hms, -, hdisjoint⟩ := h
    -- the last key is none of those before it
    have hfresh : ∀ e ∈ ms.map fun m => (Value.text m.1, m.2), e.1.same (.text m.1) = false := by
      intro e he
      obtain ⟨m', hm', rfl⟩ := List.mem_map.mp he
      have hne : m'.1 ≠ m.1 := hdisjoint _ (List.mem_map_of_mem hm') _ (List.mem_singleton_self _)
      simp [Value.eqv, hne]
    rw [← insert_entriesOf, ih hms, Dict.insert_of_absent hfresh, List.map_append]
    rfl

namespace Tree

/-- The items denote their values, one by one. -/
theorem denoteAll_eq_map (ts : List Tree) : denoteAll ts = ts.map denote := by
  induction ts with
  | nil => rfl
  | cons t ts ih => rw [denoteAll, ih, List.map_cons]

/-- The members denote their entries, one by one. -/
theorem denoteMembers_eq_map (ms : List (List Char × Tree)) :
    denoteMembers ms = ms.map fun m => (unescape m.1, m.2.denote) := by
  induction ms with
  | nil => rfl
  | cons m ms ih => rw [denoteMembers, ih, List.map_cons]

end Tree

end Json

end Itemwise
