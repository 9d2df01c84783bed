import Itemwise.Parser.Parse
import Itemwise.Proofs.Scan.Codes

namespace Itemwise

/-!
# Where a needle is found

A needle is searched in four ways: by code points in a text, by bytes in a byte sequence, and item
by item or run by run elsewhere.  All of them look for the first place where the needle can be
skipped, but for two kinds of needle and input.

* `Codes.Occurs`, `Codes.IsFirst` — a run of codes at a position, and the first such position;
* `Codes.finds_firstWhere`, `Codes.finds_find?` — the searches come to the first position where a
  run of codes stands;
* `Value.IsSought`, `Value.IsRefusedBy`, `Value.IsOverlookedIn` — needles, and those that an input
  refuses or overlooks;
* `Leaf.locate_codes` — all other needles are located by their codes;
* `Step.ReachesFirst` — the first place where a step succeeds;
* `Parser.run_upTo` — what is before a needle is read up to the first place where the needle can be
  skipped.
-/

/-! ### Runs of codes -/

namespace Codes

/-- A run of codes stands at a position. -/
def Occurs (ns xs : List Nat) (i : Nat) : Prop := ns <+: xs.drop i

/-- The first position from `start` on at which a run of codes stands. -/
structure IsFirst (ns xs : List Nat) (start i : Nat) : Prop where
  start_le : start ≤ i
  occurs : Occurs ns xs i
  before : ∀ j, start ≤ j → j < i → ¬ Occurs ns xs j

/-- What a search for a run of codes has to come to: the first position at which it stands, if there
    is one. -/
structure Finds (ns xs : List Nat) (start : Nat) (found : Option Nat) : Prop where
  some_iff : ∀ i, found = some i ↔ IsFirst ns xs start i
  none_iff : found = none ↔ ∀ j, start ≤ j → ¬ Occurs ns xs j

variable {ns xs : List Nat} {start : Nat}

/-- Where a run of codes stands there is room for it. -/
theorem Occurs.lt (hne : ns ≠ []) {i : Nat} (h : Occurs ns xs i) :
    i + ns.length < xs.length + 1 := by
  have hlength := h.length_le
  have hsome := List.length_pos_iff.mpr hne
  rw [List.length_drop] at hlength
  omega

/-- A test that tells where a run stands, at as many positions as it has room at, finds the first
    one. -/
theorem finds_firstWhere (hne : ns ≠ []) {test : Nat → Bool}
    (htest : ∀ i, test i = true ↔ Occurs ns xs i) {count : Nat}
    (hcount : ∀ i, start ≤ i → i + ns.length < xs.length + 1 → i < start + count) :
    Finds ns xs start (Run.firstWhere test count start) where
  some_iff i := by
    rw [Run.firstWhere_eq_some_iff, htest]
    constructor
    · rintro ⟨hle, -, hi, hbefore⟩
      refine ⟨hle, hi, fun j hj hj' hoccurs => ?_⟩
      rw [← htest, hbefore j hj hj'] at hoccurs
      cases hoccurs
    · rintro ⟨hle, hi, hbefore⟩
      refine ⟨hle, hcount i hle (hi.lt hne), hi, fun j hj hj' => ?_⟩
      rw [← Bool.not_eq_true, htest]
      exact hbefore j hj hj'
  none_iff := by
    rw [Run.firstWhere_eq_none_iff]
    constructor
    · intro hall j hj hoccurs
      have hfalse := hall j hj (hcount j hj (hoccurs.lt hne))
      rw [← htest, hfalse] at hoccurs
      cases hoccurs
    · intro hall j hj _
      rw [← Bool.not_eq_true, htest]
      exact hall j hj

/-- A run whose members fit the codes that they are is found where it first stands. -/
theorem finds_find? (hne : ns ≠ []) {fits : Nat → Nat → Bool}
    (hfits : ∀ j p, fits j p = true ↔ ∃ n, ns[j]? = some n ∧ xs[p]? = some n) (start : Nat) :
    Finds ns xs start (Run.find? fits ns.length (xs.length + 1 - ns.length - start) start) := by
  rw [Run.find?_eq_firstWhere]
  refine finds_firstWhere hne (fun i => ?_) fun i hi hlt => by omega
  rw [Option.isNone_iff_eq_none, Run.misfit?_eq_none_iff, Occurs, List.prefix_iff_getElem?]
  refine forall₂_congr fun j hj => ?_
  rw [hfits, List.getElem?_drop, List.getElem?_eq_getElem hj]
  simp

end Codes

/-! ### Needles -/

namespace Value

/-- A text or a byte sequence that is not empty, as a needle. -/
inductive IsSought : Value → Prop
  | text {cs : List Char} (hne : cs ≠ []) : IsSought (.text cs)
  | octets {bs : List UInt8} (hne : bs ≠ []) : IsSought (.octets .fixed bs)

/-- A text with a character that is no byte is refused by byte sequences, views apart. -/
inductive IsRefusedBy : Value → Items → Prop
  | wide {cs : List Char} {k : OctetKind} {bs : Array UInt8} {c : Char}
      (hk : k.isView = false) (hc : c ∈ cs) (hwide : 0x100 ≤ c.toNat) :
        IsRefusedBy (.text cs) (.octets k bs)

/-- A text of several characters is overlooked in a view, whose items are numbers. -/
inductive IsOverlookedIn : Value → Items → Prop
  | word {cs : List Char} {k : OctetKind} {bs : Array UInt8} (hk : k.isView = true)
    (hlength : cs.length ≠ 1) :
    IsOverlookedIn (.text cs) (.octets k bs)

/-- A needle is a run of items. -/
theorem IsSought.isRun {v : Value} (h : v.IsSought) : v.IsRun := by
  cases h with
  | text hne => exact .text _
  | octets hne => exact .octets rfl _

/-- It has codes, and at least one. -/
theorem IsSought.exists_codes {v : Value} (h : v.IsSought) : ∃ ns, v.HasCodes ns ∧ ns ≠ [] := by
  cases h with
  | text hne => exact ⟨_, .text _, by simpa using hne⟩
  | octets hne => exact ⟨_, .octets .fixed _, by simpa using hne⟩

end Value

namespace Leaf

open Codes

/-- A run of keys is looked for member by member. -/
theorem findRun_eq {α : Type} (key : α → Nat) (as : Array α) (ns : List Nat) (start : Nat) :
    findRun key as ns start =
      (Run.find? (fun j p => ns[j]?.any fun n => as[p]?.any fun x => key x == n) ns.length
        (as.size + 1 - ns.length - start) start).map fun i => (i, ns.length) := by
  unfold findRun Run.findArray?
  simp only [List.size_toArray, List.getElem?_toArray]
  refine congrArg (Option.map _) (congrArg (Run.find? · _ _ _) ?_)
  funext j p
  cases ns[j]? <;> cases as[p]? <;> rfl

/-- A run of keys is found in an array where it stands among the keys of all items. -/
theorem finds_findRun {α : Type} (key : α → Nat) (as : Array α) {ns : List Nat} (hne : ns ≠ [])
    (start : Nat) :
    ∃ found, findRun key as ns start = found.map (fun i => (i, ns.length)) ∧
      Finds ns (as.toList.map key) start found := by
  have hfits (j p : Nat) : (ns[j]?.any fun n => as[p]?.any fun x => key x == n) = true ↔
      ∃ n, ns[j]? = some n ∧ (as.toList.map key)[p]? = some n := by
    simp only [List.getElem?_map, Array.getElem?_toList, Option.any_eq_true,
      Option.map_eq_some_iff, beq_iff_eq]
  have hfound := finds_find? hne hfits start
  rw [List.length_map, Array.length_toList] at hfound
  exact ⟨_, findRun_eq key as ns start, hfound⟩

variable {items : Items} {xs ns : List Nat} {needle : Value} {look : Value → Value}

/-- For a text, a needle stands for its codes. -/
theorem textNeedle_eq (h : needle.IsSought) (hns : needle.HasCodes ns) :
    textNeedle needle = .ok ns := by
  cases h with
  | text hne =>
    cases hns
    rfl
  | octets hne =>
    cases hns
    rfl

/-- For octets too, unless they refuse it. -/
theorem octetNeedle_eq (h : needle.IsSought) (hns : needle.HasCodes ns) {k : OctetKind}
    {bs : Array UInt8} (hk : k.isView = false) (hrefused : ¬ needle.IsRefusedBy (.octets k bs)) :
    octetNeedle needle = .ok ns := by
  cases h with
  | @text cs hne =>
    cases hns
    have hnarrow (c : Char) (hc : c ∈ cs) : c.toNat < 0x100 :=
      Nat.lt_of_not_le fun hwide => hrefused (.wide hk hc hwide)
    obtain ⟨ds, hds⟩ := Latin1.exists_encode? hnarrow
    rw [octetNeedle, hds, ← Value.encode?_eq_some_iff_codes.mp hds]
    rfl
  | octets hne =>
    cases hns
    rfl

/-- A run of items is looked for member by member. -/
theorem findItems_of_run {run : List Value} (h : runNeedle? needle = some run) (start : Nat) :
    findItems items needle start look =
      (Run.find? (fun j i => run[j]?.any fun v => (items.get? i).any
        fun x => v.same (look x)) run.length (items.size + 1 - run.length - start) start).map
          fun i => (i, run.length) := by
  unfold findItems
  rw [h]
  simp only [List.size_toArray, List.getElem?_toArray]
  refine congrArg (Option.map _) (congrArg (Run.find? · _ _ _) ?_)
  funext j i
  cases run[j]? <;> cases items.get? i <;> rfl

/-- A needle that the input refuses cannot be located. -/
theorem locate_of_isRefusedBy (h : needle.IsRefusedBy items) (start : Nat) :
    locate (.sequence items) needle start look = .error .notOneByte := by
  cases h with
  | @wide cs k bs c hk hc hwide =>
    have hencode : Latin1.encode? cs = none := by
      rw [Option.eq_none_iff_forall_ne_some]
      intro ds hds
      rw [Latin1.encode?_eq_some_iff] at hds
      obtain ⟨b, -, rfl⟩ := List.mem_map.mp (hds ▸ hc)
      have := b.toNat_lt
      rw [Latin1.toNat_ofByte] at hwide
      omega
    show (if k.isView then _ else (octetNeedle (.text cs)).map _) = _
    rw [hk, if_neg Bool.false_ne_true, octetNeedle, hencode]
    rfl

section Look

variable (hlook : ∀ v : Value, v.isPlain = true → look v = v) (start : Nat)
include hlook

/-- A single item is found where its code stands. -/
theorem finds_equivalents (hxs : items.HasCodes xs) (hunit : needle.IsUnit) {n : Nat}
    (hn : needle.HasCodes [n]) :
    Finds [n] xs start (Run.firstWhere
      (fun i => (items.get? i).any fun v => (look v).isMember needle.equivalents)
      (items.size - start) start) := by
  refine finds_firstWhere (List.cons_ne_nil n []) (fun i => ?_) fun i hi hlt => ?_
  · cases hv : items.get? i with
    | none =>
      exact iff_of_false Bool.false_ne_true (hxs.not_prefix_of_none hv (List.cons_ne_nil n []))
    | some v =>
      rw [Option.any_some, hlook v (hxs.isPlain_get hv)]
      exact hxs.isMember_equivalents_iff hunit hn hv
  · rw [hxs.length_eq, List.length_singleton] at hlt
    omega

/-- Bytes are found in a view where they stand. -/
theorem finds_octets {ds : List UInt8} (hne : ds ≠ []) (hlength : ds.length ≠ 1) (k : OctetKind)
    (bs : Array UInt8) :
    ∃ found, findItems (.octets k bs) (.octets .fixed ds) start look =
        found.map (fun i => (i, (ds.map UInt8.toNat).length)) ∧
      Finds (ds.map UInt8.toNat) (bs.toList.map UInt8.toNat) start found := by
  have hrun : runNeedle? (.octets .fixed ds) = some (ds.map Value.ofByte) := if_neg hlength
  have hsame (d b : UInt8) : (Value.ofByte d).same (look (.ofByte b)) = true ↔
      b.toNat = d.toNat := by
    rw [hlook _ rfl, Value.ofByte, Value.ofByte, Value.same_int, Value.eqv, beq_iff_eq,
      Int.ofNat_inj]
    exact eq_comm
  have hfits (j p : Nat) : ((ds.map Value.ofByte)[j]?.any fun v =>
      ((Items.octets k bs).get? p).any fun x => v.same (look x)) = true ↔
        ∃ n, (ds.map UInt8.toNat)[j]? = some n ∧ (bs.toList.map UInt8.toNat)[p]? = some n := by
    simp only [Items.get?, List.getElem?_map, Array.getElem?_toList, Option.any_map,
      Option.any_eq_true, Option.map_eq_some_iff, hsame]
    constructor
    · rintro ⟨d, hd, b, hb, hcode⟩
      exact ⟨d.toNat, ⟨d, hd, rfl⟩, b, hb, hcode⟩
    · rintro ⟨n, ⟨d, hd, rfl⟩, b, hb, hcode⟩
      exact ⟨d, hd, b, hb, hcode⟩
  have hfound := finds_find? (by simpa using hne) hfits start
  refine ⟨_, ?_, hfound⟩
  rw [findItems_of_run hrun, List.length_map, List.length_map, List.length_map, Array.length_toList]
  rfl

/-- A text of several characters is found in no view: its characters are compared with numbers. -/
theorem findItems_eq_none {cs : List Char} (hne : cs ≠ []) (hlength : cs.length ≠ 1) (k : OctetKind)
    (bs : Array UInt8) :
    findItems (.octets k bs) (.text cs) start look = none := by
  have hrun : runNeedle? (.text cs) = some (cs.map Value.ofChar) := if_neg hlength
  have hsame (d : Char) (b : UInt8) : (Value.ofChar d).same (look (.ofByte b)) = false := by
    rw [hlook _ rfl]
    simp [Value.ofByte, Value.ofChar, Value.eqv, Value.number?]
  rw [findItems_of_run hrun, Option.map_eq_none_iff, Run.find?_eq_firstWhere,
    Run.firstWhere_eq_none_iff]
  intro p _ _
  rw [Option.isNone_eq_false_iff, Option.isSome_iff_ne_none, Ne, Run.misfit?_eq_none_iff]
  intro hall
  have hfirst := hall 0 (by rw [List.length_map]; exact List.length_pos_iff.mpr hne)
  obtain ⟨d, ds, rfl⟩ := List.exists_cons_of_ne_nil hne
  simp [Items.get?, Option.any_map, hsame] at hfirst

/-- A view is searched for a single item in all its forms, or for a run of bytes. -/
theorem findItems_codes (h : needle.IsSought) (hns : needle.HasCodes ns) {k : OctetKind}
    {bs : Array UInt8} (hk : k.isView = true)
    (hoverlooked : ¬ needle.IsOverlookedIn (.octets k bs)) :
    ∃ found, findItems (.octets k bs) needle start look = found.map (fun i => (i, ns.length)) ∧
      Finds ns (bs.toList.map UInt8.toNat) start found := by
  have hxs : (Items.octets k bs).HasCodes (bs.toList.map UInt8.toNat) := .octets k bs
  cases h with
  | @text cs hne =>
    have hlength : cs.length = 1 :=
      Decidable.of_not_not fun hlength => hoverlooked (.word hk hlength)
    obtain ⟨d, rfl⟩ := List.length_eq_one_iff.mp hlength
    cases hns
    exact ⟨_, rfl, finds_equivalents hlook start hxs (.char d) (.text [d])⟩
  | @octets ds hne =>
    cases hns
    by_cases hlength : ds.length = 1
    · obtain ⟨d, rfl⟩ := List.length_eq_one_iff.mp hlength
      exact ⟨_, rfl, finds_equivalents hlook start hxs (.octet rfl d) (.octets .fixed [d])⟩
    · exact finds_octets hlook start hne hlength k bs

/-- **A needle is located by its codes**, unless it is refused or overlooked. -/
theorem locate_codes (h : needle.IsSought) (hns : needle.HasCodes ns) (hne : ns ≠ [])
    (hxs : items.HasCodes xs) (hrefused : ¬ needle.IsRefusedBy items)
    (hoverlooked : ¬ needle.IsOverlookedIn items) :
    ∃ found, locate (.sequence items) needle start look = .ok (found.map fun i => (i, ns.length)) ∧
      Finds ns xs start found := by
  cases hxs with
  | text cs =>
    -- both kinds of needle are searched as code points
    obtain ⟨found, hfound, hfinds⟩ := finds_findRun Char.toNat cs hne start
    refine ⟨found, ?_, hfinds⟩
    show (textNeedle needle).map (fun run => findRun Char.toNat cs run start) = _
    rw [textNeedle_eq h hns, ← hfound]
    rfl
  | octets k bs =>
    cases hk : k.isView with
    | false =>
      -- both kinds of needle are searched as bytes
      obtain ⟨found, hfound, hfinds⟩ := finds_findRun UInt8.toNat bs hne start
      refine ⟨found, ?_, hfinds⟩
      show (if k.isView then _ else (octetNeedle needle).map
          fun run => findRun UInt8.toNat bs run start) = _
      rw [hk, if_neg Bool.false_ne_true, octetNeedle_eq h hns hk hrefused, ← hfound]
      rfl
    | true =>
      obtain ⟨found, hfound, hfinds⟩ := findItems_codes hlook start h hns hk hoverlooked
      refine ⟨found, ?_, hfinds⟩
      show (if k.isView then Except.ok (findItems (.octets k bs) needle start look) else _) = _
      rw [hk, if_pos rfl, hfound]

/-- One that the input overlooks is not there. -/
theorem locate_of_isOverlookedIn (hsought : needle.IsSought) (h : needle.IsOverlookedIn items) :
    locate (.sequence items) needle start look = .ok none := by
  cases h with
  | @word cs k bs hk hlength =>
    cases hsought with
    | text hne =>
      show (if k.isView then Except.ok (findItems (.octets k bs) (.text cs) start look) else _) = _
      rw [hk, if_pos rfl, findItems_eq_none hlook start hne hlength k bs]

end Look

/-! What is before a needle, by where that is located. -/

variable {c : Context} (hitems : c.items = .sequence items)
include hitems

/-- All before a needle that is found is read, and the needle with it. -/
theorem upTo_of_some {i width : Nat}
    (h : locate (.sequence items) needle c.pos look = .ok (some (i, width)))
    (hle : i + width ≤ items.size) :
    upTo needle look c = .ok (.success (items.slice c.pos i) (i + width)) := by
  have hle' : i + width ≤ c.items.size := by rwa [hitems]
  unfold upTo
  rw [hitems, h]
  show (c.sliceTo i >>= fun v => accept c v (i + width)) = _
  rw [Context.sliceTo, hitems, Input.slice_sequence, Step.ok_bind, accept_of_le _ hle']

/-- A needle that is not there is a failure at the start. -/
theorem upTo_of_none (h : locate (.sequence items) needle c.pos look = .ok none) :
    upTo needle look c = .ok (.failure c.pos) := by
  unfold upTo
  rw [hitems, h]
  rfl

/-- A needle that cannot be located ends in its fault. -/
theorem upTo_of_error {f : Fault} (h : locate (.sequence items) needle c.pos look = .error f) :
    upTo needle look c = .error f := by
  unfold upTo
  rw [hitems, h]
  rfl

end Leaf

/-! ### What is before a needle -/

namespace Step

variable {σ : Type}

/-- From some position, a step succeeds and gets to another. -/
def Reaches (p : Step σ) (c : Context) (s : σ) (i q : Nat) : Prop :=
  ∃ v t, p (c.moveTo i) s = .ok (.success v q) t

/-- The first position from the context's on at which a step succeeds, and where it gets to from
    there. -/
structure ReachesFirst (p : Step σ) (c : Context) (s : σ) (i q : Nat) : Prop where
  pos_le : c.pos ≤ i
  reaches : p.Reaches c s i q
  before : ∀ j, c.pos ≤ j → j < i → ∀ r, ¬ p.Reaches c s j r

end Step

namespace Parser

variable {σ : Type} [Memory σ] (setting : Setting σ) {c : Context} {items : Items} {needle : Value}
  {xs ns : List Nat}

/-- A needle can be skipped where its codes stand. -/
theorem reaches_skip_iff (hitems : c.items = .sequence items) (hxs : items.HasCodes xs)
    (h : needle.IsSought) (hns : needle.HasCodes ns) (hne : ns ≠ []) (s : σ) (i q : Nat) :
    ((skip needle).run setting).Reaches c s i q ↔ Codes.Occurs ns xs i ∧ q = i + ns.length := by
  have hskip := run_skip setting (c := c.moveTo i) hitems hxs h.isRun hns (.inl hne) s
  rw [Context.pos_moveTo] at hskip
  unfold Step.Reaches
  rw [hskip]
  by_cases hoccurs : ns <+: xs.drop i
  · rw [if_pos hoccurs]
    constructor
    · rintro ⟨v, t, ⟨⟩⟩
      exact ⟨hoccurs, rfl⟩
    · rintro ⟨-, rfl⟩
      exact ⟨_, _, rfl⟩
  · rw [if_neg hoccurs]
    constructor
    · rintro ⟨v, t, ⟨⟩⟩
    · exact fun h => absurd h.1 hoccurs

/-- **What is before a needle is read up to the first place where the needle can be skipped**, and
    the needle is skipped there; if there is none, nothing is read.  But a byte sequence refuses a
    text with characters that are no bytes, and in a view a text of several characters is
    overlooked. -/
theorem run_upTo (hneedle : needle.IsSought) (hitems : c.items = .sequence items)
    (hcodes : ∃ xs, items.HasCodes xs) (s : σ) :
    (needle.IsRefusedBy items → (upTo needle).run setting c s = .error .notOneByte s) ∧
    (needle.IsOverlookedIn items → (upTo needle).run setting c s = .ok (.failure c.pos) s) ∧
    (¬ needle.IsRefusedBy items → ¬ needle.IsOverlookedIn items →
      (∃ o, (upTo needle).run setting c s = .ok o s) ∧
      (∀ i q, ((skip needle).run setting).ReachesFirst c s i q →
        (upTo needle).run setting c s = .ok (.success (items.slice c.pos i) q) s) ∧
      ((∀ i q, c.pos ≤ i → ¬ ((skip needle).run setting).Reaches c s i q) →
        (upTo needle).run setting c s = .ok (.failure c.pos) s)) := by
  obtain ⟨xs, hxs⟩ := hcodes
  obtain ⟨ns, hns, hne⟩ := hneedle.exists_codes
  have hlook := Memory.whole_of_isPlain s
  have hreaches := reaches_skip_iff setting hitems hxs hneedle hns hne s
  rw [run_leaf setting rfl]
  refine ⟨fun hrefused => ?_, fun hoverlooked => ?_, fun hrefused hoverlooked => ?_⟩
  · rw [Leaf.upTo_of_error hitems (Leaf.locate_of_isRefusedBy hrefused c.pos)]
    rfl
  · rw [Leaf.upTo_of_none hitems (Leaf.locate_of_isOverlookedIn hlook c.pos hneedle hoverlooked)]
    rfl
  · obtain ⟨found, hfound, hfinds⟩ :=
      Leaf.locate_codes hlook c.pos hneedle hns hne hxs hrefused hoverlooked
    -- what is located is where the codes first stand, and there the needle can be skipped
    have hsome (i : Nat) (hi : Codes.IsFirst ns xs c.pos i) :
        Leaf.upTo needle (Memory.whole s) c =
          .ok (.success (items.slice c.pos i) (i + ns.length)) := by
      rw [(hfinds.some_iff i).mpr hi] at hfound
      exact Leaf.upTo_of_some hitems hfound (hxs.le_size (.inl hne) hi.occurs)
    have hnone (h : found = none) : Leaf.upTo needle (Memory.whole s) c = .ok (.failure c.pos) := by
      rw [h] at hfound
      exact Leaf.upTo_of_none hitems hfound
    refine ⟨?_, fun i q hfirst => ?_, fun hnever => ?_⟩
    · cases h : found with
      | none => exact ⟨_, by rw [hnone h]; rfl⟩
      | some i => exact ⟨_, by rw [hsome i ((hfinds.some_iff i).mp h)]; rfl⟩
    · obtain ⟨hoccurs, rfl⟩ := (hreaches i q).mp hfirst.reaches
      have hi : Codes.IsFirst ns xs c.pos i := by
        refine ⟨hfirst.pos_le, hoccurs, fun j hj hj' hoccurs' => ?_⟩
        exact hfirst.before j hj hj' _ ((hreaches j _).mpr ⟨hoccurs', rfl⟩)
      rw [hsome i hi]
      rfl
    · have hmissing : found = none := hfinds.none_iff.mpr fun j hj hoccurs =>
        hnever j _ hj ((hreaches j _).mpr ⟨hoccurs, rfl⟩)
      rw [hnone hmissing]
      rfl

/-- Letters are found among bytes. -/
theorem run_upTo_octets :
    (upTo (.text ['a', 'b'])).run brackets
    (start (.sequence (.octets .fixed #[0x78, 0x61, 0x62])) { levels := 50 }) () =
      .ok (.success (.octets .fixed [0x78]) 3) () := by
  have hnarrow : ¬ (Value.text ['a', 'b']).IsRefusedBy (.octets .fixed #[0x78, 0x61, 0x62]) := by
    rintro ⟨-, hc, hwide⟩
    simp only [List.mem_cons, List.not_mem_nil, or_false] at hc
    rcases hc with rfl | rfl
    · exact absurd hwide (by decide)
    · exact absurd hwide (by decide)
  have hfirst : ((skip (.text ['a', 'b'])).run brackets).ReachesFirst
      (start (.sequence (.octets .fixed #[0x78, 0x61, 0x62])) { levels := 50 }) () 1 3 := by
    refine ⟨by decide, ⟨.null, (), by with_unfolding_all rfl⟩, fun j _ hj r => ?_⟩
    obtain rfl : j = 0 := by omega
    rintro ⟨v, t, h⟩
    have hfails : (skip (.text ['a', 'b'])).run brackets
        ((start (.sequence (.octets .fixed #[0x78, 0x61, 0x62])) { levels := 50 }).moveTo 0) () =
          .ok (.failure (.position 0)) () := by with_unfolding_all rfl
    rw [hfails] at h
    cases h
  have hsought : (Value.text ['a', 'b']).IsSought := .text (List.cons_ne_nil _ _)
  obtain ⟨-, -, hfound⟩ :=
    run_upTo brackets hsought
      (c := start (.sequence (.octets .fixed #[0x78, 0x61, 0x62])) { levels := 50 }) rfl
      ⟨_, .octets .fixed _⟩ ()
  exact (hfound hnarrow (by rintro ⟨⟨⟩⟩)).2.1 1 3 hfirst

/-- A character that is no byte is refused among bytes, and letters are overlooked in a view, though
    they can be skipped there. -/
theorem run_upTo_refused_overlooked :
    (upTo (.text ['€'])).run brackets
        (start (.sequence (.octets .fixed #[0x61, 0x62, 0x63])) { levels := 50 }) () =
          .error .notOneByte () ∧
      (upTo (.text ['a', 'b'])).run brackets
      (start (.sequence (.octets .view #[0x78, 0x61, 0x62])) { levels := 50 }) () =
        .ok (.failure (.position 0)) () ∧
      ((skip (.text ['a', 'b'])).run brackets).Reaches
        (start (.sequence (.octets .view #[0x78, 0x61, 0x62])) { levels := 50 }) () 1 3 := by
  refine ⟨?_, ?_, .null, (), ?_⟩
  · with_unfolding_all rfl
  · with_unfolding_all rfl
  · with_unfolding_all rfl

end Parser

end Itemwise
