import Itemwise.Leaf.Find
import Itemwise.Leaf.Item
import Itemwise.Leaf.Number
import Itemwise.Leaf.Stretch
import Itemwise.Proofs.Run.Parts
import Itemwise.Proofs.Run.Yields
import Itemwise.Proofs.Scan.Search

namespace Itemwise

/-!
# Where leaves lead

A leaf that is run within the input succeeds no earlier than where it was run and within the input,
fails only where it was run, and ends in no foreign faults: `Parser.leaf?_leads`.

Each leaf finds its end by looking at items one after the other, so what has to be shown is how far
each way of looking can get: `yields_scanWhile`, `yields_locate`, `yields_find?`, `yields_numeral?`,
`yields_fraction`.
-/

/-- A success within the input and not before a context, or a failure where the context is. -/
def Outcome.Leads {α : Type} (c : Context) : Outcome α → Prop
  | .success _ q => c.pos ≤ q ∧ q ≤ c.items.size
  | .failure x => x = .position c.pos

variable {F : Fault → Prop} (hF : ∀ f : Fault, ¬ f.IsForeign → F f)

/-! ### Items -/

namespace Items

/-- A stretch that is as long as was asked for ends within the items. -/
theorem size_of_length?_slice {items : Items} {start n : Nat} (hstart : start ≤ items.size)
    (h : (items.slice start (start + n)).length? = some n) : start + n ≤ items.size := by
  rw [length?_slice] at h
  have hlength := Option.some.inj h
  omega

end Items

namespace Input

include hF in
/-- Reading an item of the input ends in no fault but those allowed. -/
theorem raises_item (items : Input) (i : Int) : Raises F (items.item i) := by
  cases items with
  | sequence xs => exact raises_attempt (hF .badIndex nofun) _
  | table es =>
    show Raises F (Value.lookup es (.int i))
    unfold Value.lookup
    split
    · split
      · exact raises_ok _
      · exact yields_error (hF .missingKey nofun)
    · exact yields_error (hF .wrongKind nofun)
  | members v => exact yields_error (hF .wrongKind nofun)

include hF in
/-- There is an item only before the end. -/
theorem yields_item? (items : Input) (i : Nat) :
    Yields F (fun o => o.isSome = true → i < items.size) (items.item? i) := by
  have hother (h : ∃ o, items.item? i = if i < items.size then (items.item i).map o else .ok none) :
      Yields F (fun o => o.isSome = true → i < items.size) (items.item? i) := by
    obtain ⟨o, ho⟩ := h
    rw [ho]
    split
    · next hi => exact (raises_item hF items i).map fun _ _ _ => hi
    · exact yields_ok nofun
  cases items with
  | sequence xs =>
    refine yields_ok fun hsome => ?_
    rw [Option.isSome_iff_ne_none, Ne, Items.get?_eq_none_iff] at hsome
    exact Nat.lt_of_not_le hsome
  | table es => exact hother ⟨some, rfl⟩
  | members v => exact hother ⟨some, rfl⟩

include hF in
/-- A stretch of some length lies within the input. -/
theorem yields_slice (items : Input) {start n : Nat} (hstart : start ≤ items.size) :
    Yields F (fun v => v.length? = some n → start + n ≤ items.size)
      (items.slice start (start + n)) := by
  cases items with
  | sequence xs => exact yields_ok fun h => Items.size_of_length?_slice hstart h
  | table es => exact yields_error (hF .wrongKind nofun)
  | members v => exact yields_error (hF .wrongKind nofun)

include hF in
/-- The same for a stretch of them. -/
theorem raises_slice (items : Input) (start stop : Nat) : Raises F (items.slice start stop) := by
  cases items with
  | sequence xs => exact raises_ok _
  | table es => exact yields_error (hF .wrongKind nofun)
  | members v => exact yields_error (hF .wrongKind nofun)

end Input

/-! ### Ends of leaves -/

namespace Leaf

variable {c : Context}

/-- Failing at the start leads on. -/
theorem leads_reject : Yields F (Outcome.Leads c) (reject c) := yields_ok rfl

/-- Succeeding at a position between the start and the end of the input leads on. -/
theorem leads_accept (v : Value) {q : Nat} (hlow : c.pos ≤ q) (hhigh : q ≤ c.items.size) :
    Yields F (Outcome.Leads c) (accept c v q) := by
  rw [accept_of_le v hhigh]
  exact yields_ok ⟨hlow, hhigh⟩

/-- Succeeding in place leads on. -/
theorem leads_here (hc : c.pos ≤ c.items.size) (v : Value) :
    Yields F (Outcome.Leads c) (.ok (.success v c.pos) : Except Fault (Outcome Value)) :=
  yields_ok ⟨Nat.le_refl _, hc⟩

/-! ### Single items -/

include hF in
/-- A test on one item leads on. -/
theorem leads_satisfy {test : Value → Except Fault Bool} (htest : ∀ v, Raises F (test v))
    (look : Value → Value) :
    Yields F (Outcome.Leads c) (satisfy test look c) := by
  refine (c.items.yields_item? hF c.pos).bind fun o ho => ?_
  cases o with
  | none => exact leads_reject
  | some v =>
    refine (htest (look v)).bind fun b _ => ?_
    cases b with
    | true => exact leads_accept v (Nat.le_succ _) (ho rfl)
    | false => exact leads_reject

include hF in
/-- Taking any item leads on. -/
theorem leads_anyItem : Yields F (Outcome.Leads c) (anyItem c) := by
  refine (c.items.yields_item? hF c.pos).bind fun o ho => ?_
  cases o with
  | none => exact leads_reject
  | some v => exact leads_accept v (Nat.le_succ _) (ho rfl)

include hF in
/-- Asking compiled patterns about an item ends in no fault but those allowed. -/
theorem raises_accepts (patterns : Compiled) (v : Value) : Raises F (patterns.accepts v) := by
  have hliteral : Raises F (patterns.isLiteral v) := by
    unfold Compiled.isLiteral
    split
    · split
      · split
        · exact raises_ok _
        · exact yields_error (hF .wrongKind nofun)
      · exact raises_ok _
    · exact raises_ok _
  refine hliteral.bind fun b _ => ?_
  cases b <;> exact raises_ok _

/-- The end of the input leads on. -/
theorem leads_eof (hc : c.pos ≤ c.items.size) : Yields F (Outcome.Leads c) (eof c) := by
  unfold eof
  split
  · exact leads_here hc .null
  · exact leads_reject

/-! ### Stretches -/

include hF in
/-- A scan by a test stops between where it starts and the last item that it may read. -/
theorem yields_scanWhile {test : Value → Except Fault Bool} (htest : ∀ v, Raises F (test v))
    (items : Input) (left pos : Nat) :
    Yields F (fun q => pos ≤ q ∧ q ≤ pos + left) (scanWhile items test left pos) := by
  induction left generalizing pos with
  | zero => exact yields_ok ⟨Nat.le_refl _, Nat.le_refl _⟩
  | succ left ih =>
    have hstop : Yields F (fun q => pos ≤ q ∧ q ≤ pos + (left + 1)) (.ok pos) :=
      yields_ok ⟨Nat.le_refl _, by omega⟩
    refine (items.yields_item? hF pos).bind fun o _ => ?_
    cases o with
    | none => exact hstop
    | some v =>
      refine (htest v).bind fun b _ => ?_
      cases b with
      | false => exact hstop
      | true => exact (ih (pos + 1)).imp fun q hq => by omega

include hF in
/-- Blanks are skipped up to a position within the input. -/
theorem yields_skipBlanks (items : Input) {pos : Nat} (hpos : pos ≤ items.size) :
    Yields F (fun q => pos ≤ q ∧ q ≤ items.size) (skipBlanks items pos) := by
  have htest (v : Value) : Raises F (isBlank v) := by
    unfold isBlank
    split
    · exact raises_ok _
    · exact yields_error (hF .wrongKind nofun)
  exact (yields_scanWhile hF htest items _ pos).imp fun q hq => by omega

include hF in
/-- White space leads on. -/
theorem leads_whitespace (hc : c.pos ≤ c.items.size) : Yields F (Outcome.Leads c) (whitespace c) :=
  (yields_skipBlanks hF c.items hc).bind fun _ hq => leads_accept .null hq.1 hq.2

include hF in
/-- Item after item that passes a test leads on. -/
theorem leads_itemWhile {test : Value → Except Fault Bool} (htest : ∀ v, Raises F (test v))
    (look : Value → Value) (hc : c.pos ≤ c.items.size) :
    Yields F (Outcome.Leads c) (itemWhile test look c) := by
  refine (yields_scanWhile hF (fun v => htest (look v)) c.items c.remaining c.pos).bind
    fun q hq => ?_
  refine (c.items.raises_slice hF c.pos q).bind fun v _ => leads_accept v hq.1 ?_
  have hremaining : c.remaining = c.items.size - c.pos := rfl
  omega

include hF in
/-- All of what is left leads on. -/
theorem leads_rest (hc : c.pos ≤ c.items.size) : Yields F (Outcome.Leads c) (rest c) :=
  (c.items.raises_slice hF c.pos c.items.size).bind fun v _ => leads_accept v hc (Nat.le_refl _)

include hF in
/-- Consuming nothing leads on. -/
theorem leads_empty (hc : c.pos ≤ c.items.size) : Yields F (Outcome.Leads c) (empty c) := by
  unfold empty
  split
  · exact (c.items.raises_slice hF c.pos c.items.size).bind fun v _ => leads_here hc v
  · exact leads_reject

include hF in
/-- An expected piece leads on. -/
theorem leads_literal (expected : Value) (look : Value → Value) (hc : c.pos ≤ c.items.size) :
    Yields F (Outcome.Leads c) (literal expected look c) := by
  have hlength : Raises F expected.length := raises_attempt (hF .wrongKind nofun) _
  have hvariants : Raises F expected.variants := by
    unfold Value.variants
    split
    · exact raises_ok _
    · exact raises_ok _
    · exact (raises_attempt (hF .wrongKind nofun) _).map fun _ _ => trivial
  refine hlength.bind fun size _ => hvariants.bind fun forms _ => ?_
  refine (c.items.yields_slice hF hc).bind fun chunk hchunk => ?_
  split
  · next h => exact leads_accept chunk (Nat.le_add_right _ _) (hchunk h.1)
  · exact leads_reject

/-! ### Needles -/

/-- The first index that passes a test is one of those that were tried. -/
theorem le_of_firstWhere {test : Nat → Bool} {count pos i : Nat}
    (h : Run.firstWhere test count pos = some i) :
    pos ≤ i ∧ i < pos + count := by
  obtain ⟨hle, hlt, -⟩ := Run.firstWhere_eq_some_iff.mp h
  exact ⟨hle, hlt⟩

/-- A needle of some width lies between two positions. -/
def LiesIn (start stop : Nat) (found : Option (Nat × Nat)) : Prop :=
  ∀ i width, found = some (i, width) → start ≤ i ∧ i + width ≤ stop

/-- What is found at the first of all positions at which it can be lies within. -/
theorem liesIn_find? {fits : Nat → Nat → Bool} {width start stop : Nat} :
    LiesIn start stop ((Run.find? fits width (stop + 1 - width - start) start).map
      fun i => (i, width)) := by
  rintro i _ h
  obtain ⟨i, hi, h⟩ := Option.map_eq_some_iff.mp h
  obtain ⟨rfl, rfl⟩ := Prod.mk.inj h
  rw [Run.find?_eq_firstWhere] at hi
  have := le_of_firstWhere hi
  omega

/-- A needle found among items lies within them. -/
theorem liesIn_findItems (items : Items) (needle : Value) (start : Nat) (look : Value → Value) :
    LiesIn start items.size (findItems items needle start look) := by
  unfold findItems
  split
  · exact liesIn_find?
  · rintro i _ h
    obtain ⟨i, hi, h⟩ := Option.map_eq_some_iff.mp h
    obtain ⟨rfl, rfl⟩ := Prod.mk.inj h
    have := le_of_firstWhere hi
    omega

include hF in
/-- Reading a needle for text ends in no fault but those allowed. -/
theorem raises_textNeedle (needle : Value) : Raises F (textNeedle needle) := by
  have hbad := hF .badValue nofun
  have hkind := hF .wrongKind nofun
  have hlarge := hF .tooLarge nofun
  unfold textNeedle
  repeat' split
  all_goals trivial

include hF in
/-- The same for a needle for octets. -/
theorem raises_octetNeedle (needle : Value) : Raises F (octetNeedle needle) := by
  have hbad := hF .badValue nofun
  have hkind := hF .wrongKind nofun
  unfold octetNeedle
  split
  · exact (raises_attempt (hF .notOneByte nofun) _).map fun _ _ => trivial
  · trivial
  · repeat' split
    all_goals trivial

include hF in
/-- A needle found in an input lies within it. -/
theorem yields_locate (items : Input) (needle : Value) {start : Nat} (hstart : start ≤ items.size)
    (look : Value → Value) :
    Yields F (LiesIn start items.size) (locate items needle start look) := by
  unfold locate
  split
  · next xs _ =>
    unfold locateIn
    split
    · exact (raises_textNeedle hF needle).map fun _ _ => liesIn_find?
    · split
      · exact yields_ok (liesIn_findItems _ needle start look)
      · exact (raises_octetNeedle hF needle).map fun _ _ => liesIn_find?
    · exact yields_ok (liesIn_findItems _ needle start look)
  · split
    · exact yields_error (hF .wrongKind nofun)
    · exact yields_ok nofun
  · extract_lets forms
    refine (yields_scanWhile hF (fun _ => raises_ok _) _ _ start).bind fun i hi => yields_ok ?_
    rintro _ _ h
    split at h
    · next hlt =>
      obtain ⟨rfl, rfl⟩ := Prod.mk.inj (Option.some.inj h)
      omega
    · cases h

include hF in
/-- Everything up to a needle leads on. -/
theorem leads_upTo (needle : Value) (look : Value → Value) (hc : c.pos ≤ c.items.size) :
    Yields F (Outcome.Leads c) (upTo needle look c) := by
  refine (yields_locate hF c.items needle hc look).bind fun found hfound => ?_
  cases found with
  | none => exact leads_reject
  | some e =>
    obtain ⟨i, width⟩ := e
    have hlies := hfound i width rfl
    exact (c.items.raises_slice hF c.pos i).bind fun v _ => leads_accept v (by omega) hlies.2

/-! ### Bytes -/

/-- What a search finds is an item from the start on. -/
theorem lt_of_index? {items : Items} {start i : Nat} {fs : List Finder} {look : Value → Value}
    (h : Search.index? items start fs look = some i) : start ≤ i ∧ i < items.size := by
  have hdrop {α : Type} {p : α → Bool} {xs : List α}
      (h : Search.firstFrom p start (xs.drop start) = some i) :
      start ≤ i ∧ i < xs.length := by
    obtain ⟨hle, ⟨x, hx, -⟩, -⟩ := Search.firstFrom_drop_eq_some.mp h
    exact ⟨hle, (List.getElem?_eq_some_iff.mp hx).1⟩
  cases items with
  | text cs => exact hdrop ((Search.text_eq fs cs start).symm.trans h)
  | octets k bs => exact hdrop ((Search.bytes_eq fs bs start).symm.trans h)
  | list xs | tuple xs => exact hdrop ((Search.list_eq fs look xs start).symm.trans h)

include hF in
/-- The same for a search in an input. -/
theorem yields_find? (items : Input) {start : Nat} (hstart : start ≤ items.size) (fs : List Finder)
    (look : Value → Value) :
    Yields F (fun o => ∀ i, o = some i → start ≤ i ∧ i < items.size)
      (Search.find? items start fs look) := by
  have heach (left : Nat) (pos : Int) :
      Yields F (fun o => ∀ i, o = some i → pos ≤ i ∧ i < pos + left)
        (Search.each fs look items left pos) := by
    induction left generalizing pos with
    | zero => exact yields_ok nofun
    | succ left ih =>
      refine (items.raises_item hF pos).bind fun v _ => ?_
      split
      · refine yields_ok ?_
        rintro i ⟨⟩
        omega
      · refine (ih (pos + 1)).imp fun o ho i hi => ?_
        have := ho i hi
        omega
  unfold Search.find?
  split
  · exact yields_ok fun i hi => lt_of_index? hi
  · refine (heach _ _).map fun o ho i hi => ?_
    obtain ⟨j, hj, rfl⟩ := Option.map_eq_some_iff.mp hi
    have := ho j hj
    omega

include hF in
/-- A scan for any of some finders leads on. -/
theorem leads_scan (mode : ScanMode) (finders : List Finder) (look : Value → Value)
    (hc : c.pos ≤ c.items.size) :
    Yields F (Outcome.Leads c) (scan mode finders look c) := by
  refine (yields_find? hF c.items hc finders look).bind fun found hfound => ?_
  cases found with
  | none => exact leads_reject
  | some i =>
    obtain ⟨hlow, hhigh⟩ := hfound i rfl
    cases mode with
    | through => exact leads_accept _ (by omega) hhigh
    | before => exact leads_accept _ hlow (by omega)
    | stretch =>
      exact (c.items.raises_slice hF c.pos i).bind fun v _ => leads_accept v hlow (by omega)

/-! ### Numbers -/

include hF in
/-- A run of digits is no longer than the items that may be read. -/
theorem yields_digitRun (items : Input) (left pos : Nat) :
    Yields F (fun ds => ds.length ≤ left) (digitRun items left pos) := by
  induction left generalizing pos with
  | zero => exact yields_ok (Nat.le_refl _)
  | succ left ih =>
    refine (items.yields_item? hF pos).bind fun o _ => ?_
    split
    · exact (ih (pos + 1)).bind fun ds hds => yields_ok (Nat.succ_le_succ hds)
    · exact yields_ok (Nat.zero_le _)

include hF in
/-- A numeral that is read ends within the input. -/
theorem yields_numeral? (items : Input) {pos : Nat} (hpos : pos ≤ items.size) (signed : Bool)
    (kind : Option IntKind) (look : Value → Value) :
    Yields F (fun o => ∀ n, o = some n → pos + n.width ≤ items.size)
      (numeral? items pos signed kind look) := by
  refine (items.yields_item? hF pos).bind fun o ho => ?_
  extract_lets negative start
  have hnegative : negative = true → pos < items.size := by
    intro h
    cases o with
    | none => simp [negative] at h
    | some v => exact ho rfl
  have hstart : start = pos + if negative = true then 1 else 0 := by
    show (if negative = true then pos + 1 else pos) = _
    split <;> rfl
  have hle : start ≤ items.size := by
    rw [hstart]
    split
    · next h => exact hnegative h
    · exact hpos
  refine (yields_digitRun hF items (items.size - start) start).bind fun ds hds => yields_ok ?_
  rintro n hn
  have hn : n = ⟨negative, ds⟩ := by
    split at hn
    · cases hn
    · split at hn
      · exact (Option.some.inj hn).symm
      · cases hn
  subst hn
  show pos + ((if negative = true then 1 else 0) + ds.length) ≤ items.size
  omega

include hF in
/-- A whole number leads on. -/
theorem leads_integer (signed : Bool) (kind : Option IntKind) (look : Value → Value)
    (hc : c.pos ≤ c.items.size) :
    Yields F (Outcome.Leads c) (integer signed kind look c) := by
  refine (yields_numeral? hF c.items hc signed kind look).bind fun o ho => ?_
  cases o with
  | none => exact leads_reject
  | some n => exact leads_accept _ (Nat.le_add_right _ _) (ho n rfl)

include hF in
/-- The digits of a fraction lie within the input, behind their point. -/
theorem yields_fraction (items : Input) (pos : Nat) (look : Value → Value) :
    Yields F (fun ds => ds ≠ [] → pos + 1 + ds.length ≤ items.size) (fraction items pos look) := by
  refine (items.yields_item? hF pos).bind fun o ho => ?_
  split
  · next hpoint =>
    have hsome : o.isSome = true := by
      cases o with
      | none => cases hpoint
      | some v => rfl
    have := ho hsome
    exact (yields_digitRun hF items _ _).imp fun ds hds _ => by omega
  · exact yields_ok fun h => absurd rfl h

include hF in
/-- A decimal numeral leads on. -/
theorem leads_decimal (kind : Option IntKind) (look : Value → Value) (hc : c.pos ≤ c.items.size) :
    Yields F (Outcome.Leads c) (decimal kind look c) := by
  refine (yields_numeral? hF c.items hc true kind look).bind fun o ho => ?_
  cases o with
  | none => exact leads_reject
  | some n =>
    have hstop := ho n rfl
    refine (yields_fraction hF c.items (c.pos + n.width) look).bind fun ds hds => ?_
    cases ds with
    | nil => exact leads_accept _ (by omega) hstop
    | cons d ds => exact leads_accept _ (by omega) (hds (List.cons_ne_nil d ds))

end Leaf

/-! ### All leaves -/

include hF in
/-- **Leaves lead forward.** A leaf succeeds within the input and not before where it is run, and
    fails where it is run. -/
theorem Parser.leaf?_leads {σ : Type} {p : Parser σ} {l : (Value → Value) → Leaf}
    (hl : p.leaf? = some l) (hp : p.RaisesOnly F) (look : Value → Value) {c : Context}
    (hc : c.pos ≤ c.items.size) :
    Yields F (Outcome.Leads c) (l look c) := by
  have htest {test : Value → Except Fault Bool} (h : ∀ v f, test v = .error f → F f) (v : Value) :
      Raises F (test v) :=
    raises_iff.mpr (h v)
  cases p with
  | anyItem => cases hl; exact Leaf.leads_anyItem hF
  | item expected => cases hl; exact Leaf.leads_satisfy hF (fun _ => raises_ok _) look
  | satisfy p => cases hl; exact Leaf.leads_satisfy hF (htest hp) look
  | oneOf patterns compiled =>
    cases hl; exact Leaf.leads_satisfy hF (Leaf.raises_accepts hF compiled) look
  | literal expected => cases hl; exact Leaf.leads_literal hF expected look hc
  | itemWhile p => cases hl; exact Leaf.leads_itemWhile hF (htest hp) look hc
  | upTo needle => cases hl; exact Leaf.leads_upTo hF needle look hc
  | scan mode finders => cases hl; exact Leaf.leads_scan hF mode finders look hc
  | rest => cases hl; exact Leaf.leads_rest hF hc
  | eof => cases hl; exact Leaf.leads_eof hc
  | empty => cases hl; exact Leaf.leads_empty hF hc
  | position => cases hl; exact Leaf.leads_here hc _
  | const v => cases hl; exact Leaf.leads_here hc v
  | failure => cases hl; exact Leaf.leads_reject
  | integer signed kind => cases hl; exact Leaf.leads_integer hF signed kind look hc
  | decimal kind => cases hl; exact Leaf.leads_decimal hF kind look hc
  | whitespace => cases hl; exact Leaf.leads_whitespace hF hc
  | _ => cases hl

end Itemwise
