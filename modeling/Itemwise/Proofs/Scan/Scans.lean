import Itemwise.Proofs.Run.Sequences
import Itemwise.Proofs.Scan.Needle

namespace Itemwise

/-!
# Scans for a byte

A scan consumes the items before the first match and the match, or the items before it alone; and it
yields these, or how many they are.  All scans stop at the same match.

* `Search.MatchesAt`, `Search.FirstMatch` — where a target matches, and where one first does;
* `Search.index?_eq_some_iff`, `Search.index?_eq_none_iff` — a search in words comes to the first
  match, in any user state;
* `Leaf.scan_of_some`, `Leaf.scan_of_none` — a scan by where the match is;
* `Leaf.locate_byte` — a needle that is a single byte is located by its code, in any form of it;
* `Parser.run_scan` — all scans agree, and up to a single byte they agree with the search for a
  needle.
-/

namespace Search

/-- At a position stands an item, as `look` gives it, whose code one of the targets matches. -/
def MatchesAt (look : Value → Value) (items : Items) (targets : List Target) (i : Nat) : Prop :=
  ∃ v code, items.get? i = some v ∧ (look v).HasCode code ∧ ∃ t ∈ targets, t.Matches code

/-- The first position from `start` on at which a target matches. -/
structure FirstMatch (look : Value → Value) (items : Items) (targets : List Target)
    (start i : Nat) : Prop where
  start_le : start ≤ i
  here : MatchesAt look items targets i
  before : ∀ j, start ≤ j → j < i → ¬ MatchesAt look items targets j

variable {items : Items} {targets : List Target} {fs : List Finder} {look : Value → Value}
  {start i : Nat}

/-- A match is an item of the input. -/
theorem MatchesAt.lt_size (h : MatchesAt look items targets i) : i < items.size := by
  obtain ⟨v, -, hv, -⟩ := h
  exact Items.lt_of_get? hv

section Compiled

variable (hlook : ∀ v : Value, v.isPlain = true → look v = v)
variable (hany : ∀ code, Finder.anyAccepts fs code = true ↔ ∃ t ∈ targets, t.Matches code)

include hlook in
/-- Every search looks at the items as they are in the user state, one after the other. -/
theorem index?_eq_firstFrom :
    index? items start fs look =
      firstFrom (fun x => (code? (look x)).any (Finder.anyAccepts fs)) start
        (items.toList.drop start) := by
  cases items with
  | text cs =>
    show text fs cs start = _
    rw [text_eq, Items.toList, ← List.map_drop, firstFrom_map]
    refine firstFrom_congr (fun c _ => ?_) start
    rw [hlook (.ofChar c) rfl]
    rfl
  | octets k bs =>
    show bytes fs bs start = _
    rw [bytes_eq, Items.toList, ← List.map_drop, firstFrom_map]
    refine firstFrom_congr (fun b _ => ?_) start
    rw [hlook (.ofByte b) rfl]
    rfl
  | list xs | tuple xs => exact list_eq fs look xs start

include hany in
/-- An item matches a target if its code is accepted by a finder. -/
theorem matchesAt_iff :
    MatchesAt look items targets i ↔
      ∃ v, items.toList[i]? = some v ∧ (code? (look v)).any (Finder.anyAccepts fs) = true := by
  simp only [MatchesAt, Items.get?_eq_toList, hasCode_iff, ← hany, Option.any_eq_true]
  constructor
  · rintro ⟨v, code, hv, hcode, haccepted⟩
    exact ⟨v, hv, code, hcode, haccepted⟩
  · rintro ⟨v, hv, code, hcode, haccepted⟩
    exact ⟨v, code, hv, hcode, haccepted⟩

include hany in
/-- An item matches none if its code is accepted by none. -/
theorem not_matchesAt_iff :
    ¬ MatchesAt look items targets i ↔
      ∀ v, items.toList[i]? = some v → (code? (look v)).any (Finder.anyAccepts fs) = false := by
  rw [matchesAt_iff hany]
  simp

include hlook hany

/-- A search comes to the first match. -/
theorem index?_eq_some_iff :
    index? items start fs look = some i ↔ FirstMatch look items targets start i := by
  rw [index?_eq_firstFrom hlook, firstFrom_drop_eq_some, ← matchesAt_iff hany]
  simp only [← not_matchesAt_iff hany]
  exact ⟨fun ⟨hle, hhere, hbefore⟩ => ⟨hle, hhere, hbefore⟩,
    fun h => ⟨h.start_le, h.here, h.before⟩⟩

/-- A search finds nothing if there is no match from its start on. -/
theorem index?_eq_none_iff :
    index? items start fs look = none ↔ ∀ j, start ≤ j → ¬ MatchesAt look items targets j := by
  rw [index?_eq_firstFrom hlook, firstFrom_drop_eq_none]
  simp only [← not_matchesAt_iff hany]

end Compiled

end Search

namespace Leaf

open Codes

variable {items : Items} {xs : List Nat} {look : Value → Value} {c : Context} {fs : List Finder}
  {start i n : Nat}

/-! ### Scans -/

/-- What a scan comes to at a match: how far it is, or the items before it. -/
def scanned (mode : ScanMode) (items : Items) (pos i : Nat) : Outcome Value :=
  match mode with
  | .through => .success (.int ((i : Int) - pos)) (i + 1)
  | .before => .success (.int ((i : Int) - pos)) i
  | .stretch => .success (items.slice pos i) i

section Scan

variable (hitems : c.items = .sequence items)
include hitems

/-- A scan that finds an item ends as its kind asks. -/
theorem scan_of_some (mode : ScanMode) (h : Search.index? items c.pos fs look = some i)
    (hi : i < items.size) :
    scan mode fs look c = .ok (scanned mode items c.pos i) := by
  have hsize : c.items.size = items.size := congrArg Input.size hitems
  unfold scan
  rw [hitems, Search.find?_sequence, h, Step.ok_bind]
  cases mode with
  | through => exact accept_of_le _ (by omega)
  | before => exact accept_of_le _ (by omega)
  | stretch =>
    show (c.sliceTo i >>= fun v => accept c v i) = _
    rw [Context.sliceTo, hitems, Input.slice_sequence, Step.ok_bind]
    exact accept_of_le _ (by omega)

/-- A scan that finds none fails at its start. -/
theorem scan_of_none (mode : ScanMode) (h : Search.index? items c.pos fs look = none) :
    scan mode fs look c = .ok (.failure c.pos) := by
  unfold scan
  rw [hitems, Search.find?_sequence, h]
  rfl

end Scan

/-! ### Needles of one byte -/

/-- What has a code is the code, a character or a byte, of which the last may not be in a view. -/
theorem byte_cases {v : Value} (hcode : v.HasCode n) :
    v = .int n ∨ (∃ d : Char, v = .text [d] ∧ d.toNat = n) ∨
      ∃ (k : OctetKind) (d : UInt8), v = .octets k [d] ∧ k.isView = false ∧ d.toNat = n := by
  generalize hcodeOf : (n : Int) = code at hcode
  cases hcode with
  | int =>
    subst hcodeOf
    exact .inl rfl
  | char d => exact .inr (.inl ⟨d, rfl, (Int.ofNat_inj.mp hcodeOf).symm⟩)
  | octet d hk => exact .inr (.inr ⟨_, d, rfl, hk, (Int.ofNat_inj.mp hcodeOf).symm⟩)

/-- A byte of a view is a form of what has its code. -/
theorem isMember_equivalents_byte {v : Value} (hcode : v.HasCode n) (b : UInt8) :
    (Value.ofByte b).isMember v.equivalents = true ↔ b.toNat = n := by
  rcases byte_cases hcode with rfl | ⟨d, rfl, rfl⟩ | ⟨k, d, rfl, hk, rfl⟩
  · simp [Value.equivalents, Value.isMember, Value.ofByte, Value.eqv]
  · simp [Value.equivalents, Value.isMember, Value.ofByte, Value.eqv, Value.number?]
  · cases k with
    | fixed | growable =>
      simp [Value.equivalents, Value.isMember, Value.ofByte, Value.ofChar, Value.eqv, Value.number?]
    | view | backwardView => cases hk

/-- In a text, a byte is looked for as a code point. -/
theorem textNeedle_byte {v : Value} (hcode : v.HasCode n) (hn : n ≤ 255) :
    textNeedle v = .ok [n] := by
  rcases byte_cases hcode with rfl | ⟨d, rfl, rfl⟩ | ⟨k, d, rfl, hk, rfl⟩
  · show (if 0 ≤ (n : Int) ∧ (n : Int) ≤ 0x10ffff then _ else _) = _
    rw [if_pos (by omega), Int.toNat_natCast]
  · rfl
  · exact if_neg (by simp [hk])

/-- In a byte sequence, it is looked for as a byte. -/
theorem octetNeedle_byte {v : Value} (hcode : v.HasCode n) (hn : n ≤ 255) :
    octetNeedle v = .ok [n] := by
  rcases byte_cases hcode with rfl | ⟨d, rfl, rfl⟩ | ⟨k, d, rfl, hk, rfl⟩
  · show (if 0 ≤ (n : Int) ∧ (n : Int) ≤ 0xff then _ else _) = _
    rw [if_pos (by omega), Int.toNat_natCast]
  · have hbyte : ∀ e ∈ [d], e.toNat < 0x100 := by
      simp only [List.mem_singleton, forall_eq]
      omega
    obtain ⟨bs, hbs⟩ := Latin1.exists_encode? hbyte
    rw [octetNeedle, hbs, ← List.map_singleton, ← Value.encode?_eq_some_iff_codes.mp hbs]
    rfl
  · rfl

/-- A value with a code is a single item wherever a needle may be a run. -/
theorem runNeedle?_byte {v : Value} {code : Int} (hcode : v.HasCode code) :
    runNeedle? v = none := by
  cases hcode with
  | int => rfl
  | char d => rfl
  | @octet k d hk => cases k <;> rfl

/-- **A needle of one byte is located by its code**, whatever its form and the form of the input. -/
theorem locate_byte {v : Value} (hcode : v.HasCode n) (hn : n ≤ 255) (hxs : items.HasCodes xs)
    (hlook : ∀ v : Value, v.isPlain = true → look v = v) (start : Nat) :
    ∃ found, locate (.sequence items) v start look = .ok (found.map fun i => (i, 1)) ∧
      Finds [n] xs start found := by
  cases hxs with
  | text cs =>
    obtain ⟨found, hfound, hfinds⟩ := finds_findRun Char.toNat cs (List.cons_ne_nil n []) start
    refine ⟨found, ?_, hfinds⟩
    show (textNeedle v).map (fun run => findRun Char.toNat cs run start) = _
    rw [textNeedle_byte hcode hn, Except.map, hfound]
    rfl
  | octets k bs =>
    cases hk : k.isView with
    | false =>
      obtain ⟨found, hfound, hfinds⟩ := finds_findRun UInt8.toNat bs (List.cons_ne_nil n []) start
      refine ⟨found, ?_, hfinds⟩
      show (if k.isView then _ else (octetNeedle v).map
          fun run => findRun UInt8.toNat bs run start) = _
      rw [hk, if_neg Bool.false_ne_true, octetNeedle_byte hcode hn, Except.map, hfound]
      rfl
    | true =>
      -- a view is looked at item by item, and its items are numbers
      have htest (i : Nat) :
          (((Items.octets k bs).get? i).any fun w => (look w).isMember v.equivalents) = true ↔
          Occurs [n] (bs.toList.map UInt8.toNat) i := by
        rw [Occurs, List.prefix_iff_getElem?]
        simp only [Items.get?, Option.any_map, Option.any_eq_true, hlook (.ofByte _) rfl,
          isMember_equivalents_byte hcode]
        simp [List.getElem?_drop]
      refine ⟨Run.firstWhere
        (fun i => ((Items.octets k bs).get? i).any fun w => (look w).isMember v.equivalents)
        ((Items.octets k bs).size - start) start, ?_, finds_firstWhere (List.cons_ne_nil n []) htest
          fun i hi hlt => ?_⟩
      · show (if k.isView then Except.ok (findItems (.octets k bs) v start look) else _) = _
        rw [hk, if_pos rfl, findItems, runNeedle?_byte hcode]
      · have hsize : i + 1 < bs.size + 1 := by simpa using hlt
        show i < start + (bs.size - start)
        omega

/-- The code of a byte occurs where the byte matches as a target. -/
theorem matchesAt_byte_iff {v : Value} (hcode : v.HasCode n) (hxs : items.HasCodes xs)
    (hlook : ∀ v : Value, v.isPlain = true → look v = v) (i : Nat) :
    Search.MatchesAt look items [.value v] i ↔ Occurs [n] xs i := by
  -- an item is plain, so it has its own code in every user state
  have hown {w : Value} {m : Nat} (hw : Search.code? w = some (m : Int))
      (hplain : w.isPlain = true) :
      (∃ code, (look w).HasCode code ∧ ∃ t ∈ [Target.value v], t.Matches code) ↔ m = n := by
    simp only [hlook w hplain, hasCode_iff, hw, List.mem_singleton, exists_eq_left, Target.Matches,
      Option.some.injEq]
    rw [exists_eq_left', hasCode_iff.mp hcode, Option.some.injEq, Int.ofNat_inj, eq_comm]
  have hmatch : Search.MatchesAt look items [.value v] i ↔ xs[i]? = some n := by
    unfold Search.MatchesAt
    simp only [exists_and_left]
    cases hxs with
    | text cs =>
      simp only [Items.get?, List.getElem?_map, Array.getElem?_toList, Option.map_eq_some_iff,
        exists_exists_and_eq_and]
      exact exists_congr fun d => and_congr_right fun _ => hown rfl rfl
    | octets k bs =>
      simp only [Items.get?, List.getElem?_map, Array.getElem?_toList, Option.map_eq_some_iff,
        exists_exists_and_eq_and]
      exact exists_congr fun d => and_congr_right fun _ => hown rfl rfl
  rw [hmatch, Occurs, List.prefix_iff_getElem?]
  simp [List.getElem?_drop]

end Leaf

namespace Parser

variable {σ : Type} [Memory σ] (setting : Setting σ) {c : Context} {items : Items}
  {targets : List Target}

/-- A scan in any mode comes to the first match, or it fails where it was started. -/
theorem run_scan_mode (hne : targets ≠ []) (hvalid : ∀ t ∈ targets, t.IsValid)
    (hitems : c.items = .sequence items) (s : σ) :
    ∃ fs, Finder.compile targets = .ok fs ∧
      ((∃ i, Search.FirstMatch (Memory.whole s) items targets c.pos i ∧
          ∀ mode, (scan mode fs).run setting c s = .ok (Leaf.scanned mode items c.pos i) s) ∨
        ((∀ i, c.pos ≤ i → ¬ Search.MatchesAt (Memory.whole s) items targets i) ∧
          ∀ mode, (scan mode fs).run setting c s = .ok (.failure c.pos) s)) := by
  obtain ⟨fs, hcompile, hany⟩ := Finder.compile_matches hne hvalid
  have hlook := Memory.whole_of_isPlain s
  refine ⟨fs, hcompile, ?_⟩
  cases hfound : Search.index? items c.pos fs (Memory.whole s) with
  | some i =>
    have hfirst := (Search.index?_eq_some_iff hlook hany).mp hfound
    refine .inl ⟨i, hfirst, fun mode => ?_⟩
    rw [run_leaf setting rfl, Leaf.scan_of_some hitems mode hfound hfirst.here.lt_size]
    rfl
  | none =>
    refine .inr ⟨(Search.index?_eq_none_iff hlook hany).mp hfound, fun mode => ?_⟩
    rw [run_leaf setting rfl, Leaf.scan_of_none hitems mode hfound]
    rfl

/-- A parser followed by any item that is dropped goes one item further, if there is one. -/
theorem run_andDrop_anyItem {p : Parser σ} {v : Value} {i : Nat} {s : σ}
    (hitems : c.items = .sequence items) (hp : p.run setting c s = .ok (.success v i) s)
    (hi : i < items.size) :
    (andDrop p .anyItem).run setting c s = .ok (.success v (i + 1)) s := by
  obtain ⟨w, hw⟩ := Items.exists_get? hi
  have hitem : (Parser.anyItem : Parser σ).run setting (c.moveTo i) s =
      .ok (.success w (i + 1)) s := by
    rw [run_leaf setting rfl, Leaf.anyItem_of_get? (c := c.moveTo i) hitems hw]
    rfl
  rw [andDrop, run_sequence, List.map_cons, List.map_cons, List.map_nil,
    Step.sequence_pair_of_success hp, Action.bind_of_ok hitem]
  rfl

/-- The items before the first byte, and the byte dropped, are what is before a needle of that
    byte. -/
theorem run_upTo_byte {v : Value} (hvalid : (Target.value v).IsValid)
    (hitems : c.items = .sequence items) (hcodes : ∃ xs, items.HasCodes xs)
    {stretch : Parser σ} (s : σ)
    (hstretch : (∃ i, Search.FirstMatch (Memory.whole s) items [.value v] c.pos i ∧
        stretch.run setting c s = .ok (.success (items.slice c.pos i) i) s) ∨
      ((∀ i, c.pos ≤ i → ¬ Search.MatchesAt (Memory.whole s) items [.value v] i) ∧
        stretch.run setting c s = .ok (.failure c.pos) s)) :
    (andDrop stretch .anyItem).run setting c s = (upTo v).run setting c s := by
  obtain ⟨xs, hxs⟩ := hcodes
  obtain ⟨code, hcode, hlow, hhigh⟩ := hvalid
  obtain ⟨n, rfl⟩ := Int.eq_ofNat_of_zero_le hlow
  have hlook := Memory.whole_of_isPlain s
  have hmatches := Leaf.matchesAt_byte_iff hcode hxs hlook
  obtain ⟨found, hfound, hfinds⟩ := Leaf.locate_byte hcode (Int.ofNat_le.mp hhigh) hxs hlook c.pos
  rw [run_leaf setting (p := upTo v) rfl]
  rcases hstretch with ⟨i, hfirst, hrun⟩ | ⟨hnone, hrun⟩
  · -- the needle is found where the scan stops
    have hsize := hfirst.here.lt_size
    have hsome : found = some i := (hfinds.some_iff i).mpr
      ⟨hfirst.start_le, (hmatches i).mp hfirst.here,
        fun j hj hlt hoccurs => hfirst.before j hj hlt ((hmatches j).mpr hoccurs)⟩
    rw [hsome] at hfound
    rw [run_andDrop_anyItem setting hitems hrun hsize, Leaf.upTo_of_some hitems hfound hsize]
    rfl
  · have hmissing : found = none :=
      hfinds.none_iff.mpr fun j hj hoccurs => hnone j hj ((hmatches j).mpr hoccurs)
    rw [hmissing] at hfound
    rw [Leaf.upTo_of_none hitems hfound, andDrop, run_sequence, List.map_cons, Step.sequence_eq,
      Step.collect_cons, bind_assoc, Action.bind_of_ok hrun]
    rfl

/-- **All scans agree.** With targets that are valid, of which there is one at least, they succeed
    on the same inputs, and fail where they were started on all others.  If they succeed, they stop
    at the first match, some items further on: one scan yields these items, and the others how many
    they are, of which one consumes the match as well.  In a text or a byte sequence, what is before
    a single byte and a dropped item after it are what is before the byte as a needle, and the
    needle. -/
theorem run_scan (hne : targets ≠ []) (hvalid : ∀ t ∈ targets, t.IsValid)
    (hitems : c.items = .sequence items) (s : σ) :
    ∃ through before stretch : Parser σ,
      scan? .through targets = .ok through ∧ scan? .before targets = .ok before ∧
        scan? .stretch targets = .ok stretch ∧
      ((∃ m, Search.FirstMatch (Memory.whole s) items targets c.pos (c.pos + m) ∧
          stretch.run setting c s = .ok (.success (items.slice c.pos (c.pos + m)) (c.pos + m)) s ∧
          before.run setting c s = .ok (.success (.int m) (c.pos + m)) s ∧
          through.run setting c s = .ok (.success (.int m) (c.pos + m + 1)) s) ∨
        ((∀ i, c.pos ≤ i → ¬ Search.MatchesAt (Memory.whole s) items targets i) ∧
          stretch.run setting c s = .ok (.failure c.pos) s ∧ before.run setting c s =
            .ok (.failure c.pos) s ∧
          through.run setting c s = .ok (.failure c.pos) s)) ∧
      ∀ v, targets = [.value v] → (∃ xs, items.HasCodes xs) →
        ∃ l, left [stretch, .anyItem] = .ok l ∧ l.run setting c s = (upTo v).run setting c s := by
  obtain ⟨fs, hcompile, hrun⟩ := run_scan_mode setting hne hvalid hitems s
  have hbuild (mode : ScanMode) : scan? mode targets = .ok (scan mode fs : Parser σ) := by
    rw [scan?, hcompile]
    rfl
  refine ⟨scan .through fs, scan .before fs, scan .stretch fs, hbuild _, hbuild _, hbuild _, ?_, ?_⟩
  · rcases hrun with ⟨i, hfirst, hrun⟩ | ⟨hnone, hrun⟩
    · obtain ⟨m, rfl⟩ := Nat.exists_eq_add_of_le hfirst.start_le
      have hdistance : ((c.pos + m : Nat) : Int) - c.pos = m := by omega
      refine .inl ⟨m, hfirst, hrun .stretch, ?_, ?_⟩
      · rw [hrun, Leaf.scanned, hdistance]
      · rw [hrun, Leaf.scanned, hdistance]
    · exact .inr ⟨hnone, hrun _, hrun _, hrun _⟩
  · intro v htargets hcodes
    have hvalid : (Target.value v).IsValid := hvalid _ (htargets ▸ List.mem_singleton.mpr rfl)
    refine ⟨_, keep_of_two_le (Nat.le_refl 2), run_upTo_byte setting hvalid hitems hcodes s ?_⟩
    rw [← htargets]
    rcases hrun with ⟨i, hfirst, hrun⟩ | ⟨hnone, hrun⟩
    · exact .inl ⟨i, hfirst, hrun .stretch⟩
    · exact .inr ⟨hnone, hrun .stretch⟩

/-- A code is found behind a character that is no byte in UTF-8, and the first of two is the one
    that is dropped. -/
theorem run_scan_equals :
    let c := start (.sequence (.text #['é', '=', '='])) { levels := 50 }
    ∃ stretch l : Parser Unit, scan? .stretch [.value (.int 0x3d)] = .ok stretch ∧
      stretch.run brackets c () = .ok (.success (.text ['é']) 1) () ∧
        left [stretch, .anyItem] = .ok l ∧
        l.run brackets c () = .ok (.success (.text ['é']) 2) () := by
  intro c
  have hvalid : ∀ t ∈ [Target.value (.int 0x3d)], t.IsValid := by
    intro t ht
    obtain rfl := List.mem_singleton.mp ht
    exact ⟨0x3d, .int 0x3d, by decide, by decide⟩
  obtain ⟨through, before, stretch, -, -, hstretch, hrun, hleft⟩ :=
    run_scan brackets (List.cons_ne_nil _ _) hvalid (c := c) rfl ()
  obtain ⟨l, hl, hlrun⟩ := hleft _ rfl ⟨_, .text _⟩
  have hmatch : Search.MatchesAt (Memory.whole ()) (.text #['é', '=', '='])
      [.value (.int 0x3d)] 1 :=
    ⟨.ofChar '=', 0x3d, rfl, .char '=', _, List.mem_singleton.mpr rfl, Value.HasCode.int 0x3d⟩
  refine ⟨stretch, l, hstretch, ?_, hl, hlrun.trans (by with_unfolding_all rfl)⟩
  rcases hrun with ⟨m, hfirst, hrun, -, -⟩ | ⟨hnone, -⟩
  · -- the first letter does not match, and the second one does
    have hle : m ≤ 1 := by
      by_contra hgt
      exact hfirst.before 1 (Nat.zero_le _) (by omega) hmatch
    have hne : m ≠ 0 := by
      rintro rfl
      obtain ⟨v, code, hv, hcode, t, ht, hmatches⟩ := hfirst.here
      cases hv
      cases hcode
      obtain rfl := List.mem_singleton.mp ht
      cases hmatches
    obtain rfl : m = 1 := by omega
    exact hrun
  · exact absurd hmatch (hnone 1 (Nat.zero_le _))

end Parser

end Itemwise
