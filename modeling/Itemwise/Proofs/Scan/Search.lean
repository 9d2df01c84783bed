import Itemwise.Proofs.Scan.Lanes
import Itemwise.Scan.FromEnd

namespace Itemwise

/-!
# What a search finds

A search finds the first item that one of its targets matches, whether it looks at words or at
single items.

* `Value.HasCode`, `Target.IsValid`, `Target.Matches` — the codes of items, and what targets match;
* `Finder.compile_matches` — finders accept what their targets match;
* `Search.firstFrom_block` — a word of eight bytes is searched as its bytes are one by one;
* `Search.bytes_eq`, `Search.text_eq`, `Search.list_eq`, `Search.index?_eq_naive?` — every search is
  the one that looks at each item in turn;
* `Search.findFrom_first` — what it finds is the first item that matches.
-/

/-! ### Targets -/

/-- The code of an item: a number, a character, or a byte. -/
inductive Value.HasCode : Value → Int → Prop
  | int (n : Int) : HasCode (.int n) n
  | char (c : Char) : HasCode (.text [c]) c.toNat
  | octet {k : OctetKind} (b : UInt8) : k.isView = false → HasCode (.octets k [b]) b.toNat

/-- A target is a finder, or a value whose code is that of a byte. -/
def Target.IsValid : Target → Prop
  | .finder _ => True
  | .value v => ∃ code, v.HasCode code ∧ 0 ≤ code ∧ code ≤ 255

/-- What a finder is looking for, and a value if the code is its own. -/
def Target.Matches (code : Int) : Target → Prop
  | .finder ⟨.eq, b⟩ => code = b.toNat
  | .finder ⟨.ne, b⟩ => code ≠ b.toNat
  | .finder ⟨.lt, b⟩ => code < b.toNat
  | .finder ⟨.gt, b⟩ => code > b.toNat
  | .value v => v.HasCode code

/-- At a position stands an item whose code one of the targets matches. -/
def Hits (items : Items) (targets : List Target) (i : Nat) : Prop :=
  ∃ v code, items.get? i = some v ∧ v.HasCode code ∧ ∃ t ∈ targets, t.Matches code

/-- A value has the code that the search reads from it. -/
theorem hasCode_iff {v : Value} {code : Int} : v.HasCode code ↔ Search.code? v = some code := by
  constructor
  · intro h
    cases h with
    | int => rfl
    | char => rfl
    | @octet k b hk =>
      cases k with
      | fixed | growable => rfl
      | view | backwardView => cases hk
  · intro h
    unfold Search.code? at h
    split at h
    · obtain rfl := Option.some.inj h
      exact .int _
    · obtain rfl := Option.some.inj h
      exact .char _
    · obtain rfl := Option.some.inj h
      exact .octet _ rfl
    · obtain rfl := Option.some.inj h
      exact .octet _ rfl
    · cases h

namespace Finder

/-- A finder accepts the codes that its target matches. -/
theorem accepts_iff {f : Finder} {code : Int} :
    f.accepts code = true ↔ (Target.finder f).Matches code := by
  obtain ⟨test, b⟩ := f
  cases test <;> simp [accepts, Target.Matches]

/-- The byte of a value has the code of the value. -/
theorem byteOf_of_hasCode {v : Value} {code : Int} (h : v.HasCode code) (hlow : 0 ≤ code)
    (hhigh : code ≤ 255) :
    ∃ b : UInt8, byteOf v = .ok b ∧ (b.toNat : Int) = code := by
  have hbyte : ∀ {n : Nat}, n ≤ 255 → n.toUInt8.toNat = n := by
    intro n hn
    rw [Nat.toUInt8_eq, UInt8.toNat_ofNat']
    omega
  cases h with
  | int =>
    refine ⟨code.toNat.toUInt8, if_pos ⟨hlow, hhigh⟩, ?_⟩
    rw [hbyte (by omega)]
    omega
  | char c =>
    have hc : c.toNat ≤ 255 := by omega
    exact ⟨c.toNat.toUInt8, if_pos hc, by rw [hbyte hc]⟩
  | @octet k b hk => exact ⟨b, by simp [byteOf, hk], rfl⟩

/-- The finder of a valid target accepts what the target matches. -/
theorem ofTarget_matches {t : Target} (h : t.IsValid) :
    ∃ f, ofTarget t = .ok f ∧ ∀ code, f.accepts code = true ↔ t.Matches code := by
  cases t with
  | finder f => exact ⟨f, rfl, fun code => accepts_iff⟩
  | value v =>
    obtain ⟨own, hown, hlow, hhigh⟩ := h
    obtain ⟨b, hb, rfl⟩ := byteOf_of_hasCode hown hlow hhigh
    refine ⟨⟨.eq, b⟩, by rw [ofTarget, make, hb]; rfl, fun code => ?_⟩
    rw [accepts_iff, Target.Matches, Target.Matches, hasCode_iff, hasCode_iff.mp hown,
      Option.some.injEq, eq_comm]

/-- **Finders accept what their targets match**, and valid targets have finders. -/
theorem compile_matches {targets : List Target} (hne : targets ≠ [])
    (hvalid : ∀ t ∈ targets, t.IsValid) :
    ∃ fs, compile targets = .ok fs ∧ ∀ code, anyAccepts fs code = true ↔
      ∃ t ∈ targets, t.Matches code := by
  have hall : ∀ targets : List Target, (∀ t ∈ targets, t.IsValid) →
      ∃ fs, targets.mapM ofTarget = .ok fs ∧ ∀ code, anyAccepts fs code = true ↔
        ∃ t ∈ targets, t.Matches code := by
    intro targets
    induction targets with
    | nil => exact fun _ => ⟨[], rfl, by simp [anyAccepts]⟩
    | cons t ts ih =>
      intro hvalid
      obtain ⟨ht, hts⟩ := List.forall_mem_cons.mp hvalid
      obtain ⟨f, hf, haccepts⟩ := ofTarget_matches ht
      obtain ⟨fs, hfs, hany⟩ := ih hts
      refine ⟨f :: fs, by rw [List.mapM_cons, hf, hfs]; rfl, fun code => ?_⟩
      rw [anyAccepts, List.any_cons, Bool.or_eq_true, haccepts]
      simp only [List.mem_cons, exists_eq_or_imp]
      exact or_congr_right (hany code)
  obtain ⟨fs, hfs, hany⟩ := hall targets hvalid
  refine ⟨fs, ?_, hany⟩
  rw [compile, if_neg (by simpa using hne), hfs]

end Finder

namespace Search

/-! ### The first item that passes -/

section FirstFrom

variable {α β : Type} {p q : α → Bool}

/-- The first in two lists, one after the other, is the first in the first or else in the second. -/
theorem firstFrom_append (p : α → Bool) (i : Nat) (xs ys : List α) :
    firstFrom p i (xs ++ ys) = (firstFrom p i xs).or (firstFrom p (i + xs.length) ys) := by
  induction xs generalizing i with
  | nil => rfl
  | cons x xs ih =>
    rw [List.cons_append, firstFrom, firstFrom, ih, List.length_cons]
    split
    · rfl
    · rw [show i + 1 + xs.length = i + (xs.length + 1) by omega]

/-- The first among images is the first whose image passes the test. -/
theorem firstFrom_map (p : β → Bool) (g : α → β) (i : Nat) (xs : List α) :
    firstFrom p i (xs.map g) = firstFrom (fun x => p (g x)) i xs := by
  induction xs generalizing i with
  | nil => rfl
  | cons x xs ih => rw [List.map_cons, firstFrom, firstFrom, ih]

/-- Tests that say the same of all members find the same. -/
theorem firstFrom_congr {xs : List α} (h : ∀ x ∈ xs, p x = q x) (i : Nat) :
    firstFrom p i xs = firstFrom q i xs := by
  induction xs generalizing i with
  | nil => rfl
  | cons x xs ih =>
    obtain ⟨hx, hxs⟩ := List.forall_mem_cons.mp h
    rw [firstFrom, firstFrom, hx, ih hxs]

/-- Nothing is found if no member passes the test. -/
theorem firstFrom_eq_none {i : Nat} {xs : List α} :
    firstFrom p i xs = none ↔ ∀ x ∈ xs, p x = false := by
  induction xs generalizing i with
  | nil => simp [firstFrom]
  | cons x xs ih =>
    rw [firstFrom, List.forall_mem_cons]
    split
    · next hx => simp [hx]
    · next hx => simp [hx, ih]

/-- What is found passes, and what stands before it does not. -/
theorem firstFrom_eq_some {i k : Nat} {xs : List α} :
    firstFrom p i xs = some k ↔
      i ≤ k ∧ (∃ x, xs[k - i]? = some x ∧ p x = true) ∧ ∀ j < k - i, ∀ x, xs[j]? = some x →
        p x = false := by
  induction xs generalizing i with
  | nil => simp [firstFrom]
  | cons x xs ih =>
    rw [firstFrom]
    split
    · next hx =>
      constructor
      · intro h
        obtain rfl := Option.some.inj h
        exact ⟨Nat.le_refl _, ⟨x, by simp, hx⟩, by simp⟩
      · rintro ⟨hle, -, hbefore⟩
        rcases Nat.eq_or_lt_of_le hle with rfl | hlt
        · rfl
        · have hfalse := hbefore 0 (by omega) x rfl
          rw [hx] at hfalse
          cases hfalse
    · next hx =>
      rw [ih]
      constructor
      · rintro ⟨hle, ⟨y, hy, hpy⟩, hbefore⟩
        have hshift : k - i = k - (i + 1) + 1 := by omega
        refine ⟨by omega, ⟨y, by rwa [hshift, List.getElem?_cons_succ], hpy⟩, fun j hj z hz => ?_⟩
        cases j with
        | zero =>
          obtain rfl := Option.some.inj hz
          exact Bool.eq_false_iff.mpr hx
        | succ j => exact hbefore j (by omega) z hz
      · rintro ⟨hle, ⟨y, hy, hpy⟩, hbefore⟩
        have hne : k ≠ i := by
          rintro rfl
          rw [Nat.sub_self] at hy
          obtain rfl := Option.some.inj hy
          exact hx hpy
        have hshift : k - i = k - (i + 1) + 1 := by omega
        rw [hshift, List.getElem?_cons_succ] at hy
        exact ⟨by omega, ⟨y, hy, hpy⟩, fun j hj z hz => hbefore (j + 1) (by omega) z hz⟩

/-- What is found from a position of a list on is the first item there that passes. -/
theorem firstFrom_drop_eq_some {xs : List α} {start i : Nat} :
    firstFrom p start (xs.drop start) = some i ↔
      start ≤ i ∧ (∃ x, xs[i]? = some x ∧ p x = true) ∧
        ∀ j, start ≤ j → j < i → ∀ x, xs[j]? = some x → p x = false := by
  rw [firstFrom_eq_some]
  simp only [List.getElem?_drop]
  constructor
  · rintro ⟨hle, hpass, hbefore⟩
    rw [Nat.add_sub_cancel' hle] at hpass
    refine ⟨hle, hpass, fun j hj hji => ?_⟩
    have hmiss := hbefore (j - start) (by omega)
    rwa [Nat.add_sub_cancel' hj] at hmiss
  · rintro ⟨hle, hpass, hbefore⟩
    rw [Nat.add_sub_cancel' hle]
    exact ⟨hle, hpass, fun j hj => hbefore (start + j) (by omega) (by omega)⟩

/-- The same from some place on. -/
theorem firstFrom_drop_eq_none {xs : List α} {start : Nat} :
    firstFrom p start (xs.drop start) = none ↔ ∀ j, start ≤ j → ∀ x, xs[j]? = some x →
      p x = false := by
  rw [firstFrom_eq_none]
  constructor
  · intro hnone j hj x hx
    refine hnone x (List.mem_of_getElem? (i := j - start) ?_)
    rwa [List.getElem?_drop, Nat.add_sub_cancel' hj]
  · intro hnone x hx
    obtain ⟨j, hj⟩ := List.getElem?_of_mem hx
    rw [List.getElem?_drop] at hj
    exact hnone (start + j) (by omega) x hj

/-- A search may look at eight items first, and then at those after them. -/
theorem firstFrom_drop (p : α → Bool) (xs : List α) (pos : Nat) :
    firstFrom p pos (xs.drop pos) =
      (firstFrom p pos ((xs.drop pos).take 8)).or (firstFrom p (pos + 8) (xs.drop (pos + 8))) := by
  have hsplit : xs.drop pos = (xs.drop pos).take 8 ++ xs.drop (pos + 8) := by
    rw [← List.drop_drop, List.take_append_drop]
  conv => lhs; rw [hsplit, firstFrom_append]
  by_cases hlen : pos + 8 ≤ xs.length
  · rw [List.length_take, List.length_drop, Nat.min_eq_left (by omega)]
  · rw [List.drop_eq_nil_of_le (show xs.length ≤ pos + 8 by omega)]
    rfl

end FirstFrom

/-! ### Words and single items -/

/-- **A word is searched as its bytes are**: the first lane of the mask is the first byte that
    passes. -/
theorem firstFrom_block (fs : List Finder) {bs : List UInt8} (hbs : bs.length = 8) (pos : Nat) :
    firstFrom (fun b => Finder.anyAccepts fs b.toNat) pos bs =
      if Finder.anyMask fs (Lanes.ofBytes bs) = 0 then none
      else some (pos + Lanes.first (Finder.anyMask fs (Lanes.ofBytes bs))) := by
  have hmask := Finder.isMask_anyMask fs (Lanes.ofBytes bs)
  have hbyte : ∀ {j}, (hj : j < bs.length) → Lanes.byte (Lanes.ofBytes bs) j = bs[j] :=
    Lanes.byte_ofBytes (Nat.le_of_eq hbs)
  generalize Finder.anyMask fs (Lanes.ofBytes bs) = mask at hmask
  -- what the scan byte by byte comes to tells what the mask is like
  cases hfirst : firstFrom (fun b => Finder.anyAccepts fs b.toNat) pos bs with
  | none =>
    rw [firstFrom_eq_none] at hfirst
    have hzero : mask = 0 := hmask.eq_zero_iff.mpr fun j hj => by
      rw [hbyte (hbs ▸ hj)]
      exact hfirst _ (List.getElem_mem _)
    rw [if_pos hzero]
  | some k =>
    obtain ⟨hle, ⟨b, hb, haccepted⟩, hbefore⟩ := firstFrom_eq_some.mp hfirst
    obtain ⟨hj, rfl⟩ := List.getElem?_eq_some_iff.mp hb
    have hlane : Finder.anyAccepts fs (Lanes.byte (Lanes.ofBytes bs) (k - pos)).toNat = true := by
      rwa [hbyte hj]
    have hne : mask ≠ 0 := by
      intro hzero
      have hnone := hmask.eq_zero_iff.mp hzero (k - pos) (by omega)
      rw [hlane] at hnone
      cases hnone
    have hlow : ∀ i < k - pos,
        Finder.anyAccepts fs (Lanes.byte (Lanes.ofBytes bs) i).toNat = false := by
      intro i hi
      have hi' : i < bs.length := Nat.lt_trans hi hj
      rw [hbyte hi']
      exact hbefore i hi _ (List.getElem?_eq_getElem hi')
    rw [if_neg hne, Lanes.first_eq hmask (by omega) hlane hlow]
    exact congrArg some (by omega)

/-- Eight items at a time are those of the list. -/
theorem toList_extract_eight {α : Type} (xs : Array α) (pos : Nat) :
    (xs.extract pos (pos + 8)).toList = (xs.toList.drop pos).take 8 := by
  rw [Array.toList_extract, List.extract_eq_take_drop, Nat.add_sub_cancel_left]

/-- Octets, searched by words and lanes, come to the first that is accepted. -/
theorem bytes_eq (fs : List Finder) (bs : Array UInt8) (pos : Nat) :
    bytes fs bs pos = firstFrom (fun b => Finder.anyAccepts fs b.toNat) pos
      (bs.toList.drop pos) := by
  have hblock : ∀ pos, block id bs pos = (bs.toList.drop pos).take 8 := by
    intro pos
    rw [block, List.map_id, toList_extract_eight]
  have hlen : ∀ pos, pos + 8 ≤ bs.size → (block id bs pos).length = 8 := by
    intro pos hpos
    rw [hblock, List.length_take, List.length_drop, Array.length_toList]
    omega
  fun_induction bytes fs bs pos with
  | case1 pos hpos mask hzero ih =>
    rw [firstFrom_drop, ← hblock, firstFrom_block fs (hlen pos hpos), if_pos hzero, ih]
    rfl
  | case2 pos hpos mask hne =>
    rw [firstFrom_drop, ← hblock, firstFrom_block fs (hlen pos hpos), if_neg hne]
    rfl
  | case3 pos hpos =>
    rw [Array.toList_extract, List.extract_eq_take_drop, List.take_of_length_le]
    simp

/-- So do characters. -/
theorem text_eq (fs : List Finder) (cs : Array Char) (pos : Nat) :
    text fs cs pos = firstFrom (fun c => Finder.anyAccepts fs c.toNat) pos
      (cs.toList.drop pos) := by
  -- the bytes of characters that are ASCII are their codes
  have hascii : ∀ (chunk : List Char) (pos : Nat), chunk.all (·.toNat < 0x80) = true →
      firstFrom (fun c => Finder.anyAccepts fs c.toNat) pos chunk =
        firstFrom (fun b => Finder.anyAccepts fs b.toNat) pos
          (chunk.map fun c => c.toNat.toUInt8) := by
    intro chunk pos hall
    rw [firstFrom_map]
    refine firstFrom_congr (fun c hc => ?_) pos
    have hc' : c.toNat < 0x80 := by simpa using List.all_eq_true.mp hall c hc
    rw [Nat.toUInt8_eq, UInt8.toNat_ofNat', Nat.mod_eq_of_lt (by omega)]
  fun_induction text fs cs pos with
  | case1 pos hpos chunk hchunk mask hzero ih =>
    rw [firstFrom_drop, ← toList_extract_eight, hascii _ pos hchunk.2,
      firstFrom_block fs (by rw [List.length_map, hchunk.1]), if_pos hzero, ih]
    rfl
  | case2 pos hpos chunk hchunk mask hne =>
    rw [firstFrom_drop, ← toList_extract_eight, hascii _ pos hchunk.2,
      firstFrom_block fs (by rw [List.length_map, hchunk.1]), if_neg hne]
    rfl
  | case3 pos hpos chunk hchunk i hi =>
    rw [firstFrom_drop, ← toList_extract_eight, hi]
    rfl
  | case4 pos hpos chunk hchunk hnone ih =>
    rw [firstFrom_drop, ← toList_extract_eight, hnone, ih]
    rfl
  | case5 pos hpos =>
    rw [List.drop_eq_nil_of_le (by simpa using hpos)]
    rfl

/-- So do values, each seen as it is in the user state. -/
theorem list_eq (fs : List Finder) (look : Value → Value) (xs : Array Value) (pos : Nat) :
    list fs look xs pos =
      firstFrom (fun x => (code? (look x)).any (Finder.anyAccepts fs)) pos
        (xs.toList.drop pos) := by
  fun_induction list fs look xs pos with
  | case1 pos hpos haccepted =>
    rw [List.drop_eq_getElem_cons (by simpa using hpos), firstFrom, Array.getElem_toList,
      if_pos haccepted]
  | case2 pos hpos haccepted ih =>
    rw [List.drop_eq_getElem_cons (by simpa using hpos), firstFrom, Array.getElem_toList,
      if_neg haccepted, ih]
  | case3 pos hpos =>
    rw [List.drop_eq_nil_of_le (by simpa using hpos)]
    rfl

/-- **All searches look for the same**: the first item whose code a finder accepts. -/
theorem index?_eq_naive? (items : Items) (start : Nat) (fs : List Finder) :
    index? items start fs = naive? items start fs := by
  cases items with
  | text cs =>
    show text fs cs start = _
    rw [text_eq, naive?, Items.toList, ← List.map_drop, firstFrom_map]
    rfl
  | octets k bs =>
    show bytes fs bs start = _
    rw [bytes_eq, naive?, Items.toList, ← List.map_drop, firstFrom_map]
    rfl
  | list xs | tuple xs => exact list_eq fs id xs start

/-- **A search finds the first item that matches.** From any start that is not negative, with
    targets that are valid, of which there is one at least, a search comes to the first position at
    or after the start at which one of them matches, and to none if there is no such position. -/
theorem findFrom_first (items : Items) (start : Nat) {targets : List Target} (hne : targets ≠ [])
    (hvalid : ∀ t ∈ targets, t.IsValid) :
    ∃ found : Option Nat,
      (Finder.compile targets >>= findFrom (.sequence items) (.int start)) =
        .ok (found.map Int.ofNat) ∧
        (∀ i, found = some i ↔
          start ≤ i ∧ Hits items targets i ∧ ∀ j, start ≤ j → j < i → ¬ Hits items targets j) ∧
        (found = none ↔ ∀ j, start ≤ j → ¬ Hits items targets j) := by
  obtain ⟨fs, hcompile, hany⟩ := Finder.compile_matches hne hvalid
  -- what the search asks of an item is whether it is a hit
  have hhits : ∀ i, Hits items targets i ↔
      ∃ v, items.toList[i]? = some v ∧ (code? v).any (Finder.anyAccepts fs) = true := by
    intro i
    simp only [Hits, Items.get?_eq_toList, hasCode_iff, ← hany, Option.any_eq_true]
    constructor
    · rintro ⟨v, code, hv, hcode, haccepted⟩
      exact ⟨v, hv, code, hcode, haccepted⟩
    · rintro ⟨v, hv, code, hcode, haccepted⟩
      exact ⟨v, code, hv, hcode, haccepted⟩
  have hmiss : ∀ i, ¬ Hits items targets i ↔
      ∀ v, items.toList[i]? = some v → (code? v).any (Finder.anyAccepts fs) = false := by
    intro i
    simp [hhits]
  refine ⟨naive? items start fs, ?_, fun i => ?_, ?_⟩
  · rw [hcompile, ← index?_eq_naive?, ← indexFrom?_natCast items start fs id]
    rfl
  · simp only [hmiss]
    rw [hhits]
    exact firstFrom_drop_eq_some
  · simp only [hmiss]
    exact firstFrom_drop_eq_none

/-- A truth value has no code, though it is equal to a number. -/
theorem findFrom_first_bool :
    (Finder.compile [.value (.int 1), .value (.text ['='])] >>=
      findFrom (.sequence (.list #[.bool true, .text ['=']])) (.int 0)) = .ok (some 1) := by
  have hvalid : ∀ t ∈ [Target.value (.int 1), .value (.text ['='])], t.IsValid := by
    intro t ht
    obtain rfl | rfl : t = .value (.int 1) ∨ t = .value (.text ['=']) := by simpa using ht
    · exact ⟨1, .int 1, by decide, by decide⟩
    · exact ⟨61, .char '=', by decide, by decide⟩
  obtain ⟨found, hfound, hsome, -⟩ :=
    findFrom_first (.list #[.bool true, .text ['=']]) 0 (by simp) hvalid
  have hhit : Hits (.list #[.bool true, .text ['=']]) [.value (.int 1), .value (.text ['='])] 1 :=
    ⟨.text ['='], 61, rfl, .char '=', .value (.text ['=']), by simp, Value.HasCode.char '='⟩
  have hmiss : ¬ Hits (.list #[.bool true, .text ['=']])
      [.value (.int 1), .value (.text ['='])] 0 := by
    rintro ⟨v, code, hv, hcode, -⟩
    obtain rfl := Option.some.inj hv
    cases hcode
  have hone : found = some 1 := (hsome 1).mpr ⟨Nat.zero_le 1, hhit, fun j _ hj => by
    obtain rfl : j = 0 := by omega
    exact hmiss⟩
  rw [hone] at hfound
  exact hfound

end Search

end Itemwise
