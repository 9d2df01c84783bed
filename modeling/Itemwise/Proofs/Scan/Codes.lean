import Itemwise.Proofs.Latin1.Items
import Itemwise.Proofs.Run.Greedy

namespace Itemwise

/-!
# Texts and byte sequences by their codes

A text is a list of code points and a byte sequence a list of bytes.  Expected items and runs are
recognized by these codes alone, whatever kind of sequence is expected and whatever kind is read.

* `Value.HasCodes`, `Items.HasCodes` — the codes of a text or a byte sequence;
* `Value.isMember_variants_iff`, `Items.HasCodes.isMember_equivalents_iff` — a stretch or an item is
  expected if and only if its codes are;
* `Leaf.literal_eq`, `Leaf.item_eq` — a run and an item are accepted where their codes stand;
* `Parser.run_skip` — so is what is skipped.
-/

/-- A text has the code points of its characters, and a byte sequence its bytes. -/
inductive Value.HasCodes : Value → List Nat → Prop
  | text (cs : List Char) : HasCodes (.text cs) (cs.map Char.toNat)
  | octets (k : OctetKind) (bs : List UInt8) : HasCodes (.octets k bs) (bs.map UInt8.toNat)

/-- The same for an input. -/
inductive Items.HasCodes : Items → List Nat → Prop
  | text (cs : Array Char) : HasCodes (.text cs) (cs.toList.map Char.toNat)
  | octets (k : OctetKind) (bs : Array UInt8) : HasCodes (.octets k bs) (bs.toList.map UInt8.toNat)

namespace Value

open Latin1

/-- A value of some codes is as long as there are codes. -/
theorem HasCodes.length? {v : Value} {ns : List Nat} (h : v.HasCodes ns) :
    v.length? = some ns.length := by
  cases h <;> simp [Value.length?]

/-- It is plain, as no container is a text or a byte sequence. -/
theorem HasCodes.isPlain {v : Value} {ns : List Nat} (h : v.HasCodes ns) : v.isPlain = true := by
  cases h <;> rfl

/-- Characters are told apart by their codes. -/
theorem map_toNat_inj {cs ds : List Char} : cs.map Char.toNat = ds.map Char.toNat ↔ cs = ds :=
  (List.map_injective_iff.mpr fun _ _ => Char.toNat_inj.mp).eq_iff

/-- So are octets. -/
theorem map_toNat_inj_octets {bs ds : List UInt8} :
    bs.map UInt8.toNat = ds.map UInt8.toNat ↔ bs = ds :=
  (List.map_injective_iff.mpr fun _ _ => UInt8.toNat_inj.mp).eq_iff

/-- Octets that are read as characters keep their codes. -/
theorem map_toNat_decode (bs : List UInt8) : (decode bs).map Char.toNat = bs.map UInt8.toNat := by
  rw [decode, List.map_map]
  exact List.map_congr_left fun b _ => toNat_ofByte b

/-- Characters are written as octets with the same codes. -/
theorem encode?_eq_some_iff_codes {cs : List Char} {bs : List UInt8} :
    encode? cs = some bs ↔ bs.map UInt8.toNat = cs.map Char.toNat := by
  rw [encode?_eq_some_iff, ← map_toNat_decode, map_toNat_inj]

/-- A stretch is a form of what is expected if and only if it has the codes of it. -/
theorem isMember_variants_iff {expected v : Value} {ms ns : List Nat} {forms : List Value}
    (h : expected.IsRun) (hns : expected.HasCodes ns) (hforms : expected.variants = .ok forms)
    (hms : v.HasCodes ms) :
    v.isMember forms = true ↔ ms = ns := by
  cases h with
  | text cs =>
    cases hns
    cases hms with
    | text ds => rw [Step.isMember_variants hforms, beq_iff_eq, map_toNat_inj]
    | octets k bs =>
      -- the bytes are among the forms only if the text can be encoded
      rw [← encode?_eq_some_iff_codes]
      obtain rfl := Except.ok.inj hforms
      cases encode? cs with
      | none => simp [isMember, eqv, number?]
      | some bs' => simpa [isMember, eqv, number?] using eq_comm
  | octets hk bs =>
    cases hns
    obtain rfl := Except.ok.inj hforms
    cases hms with
    | text ds => simp [hk, isMember, eqv, number?, ← map_toNat_decode, map_toNat_inj]
    | octets k ds => simp [hk, isMember, eqv, number?, map_toNat_inj_octets]

end Value

namespace Items

variable {items : Items} {xs : List Nat}

/-- An input of some codes has as many items. -/
theorem HasCodes.length_eq (h : items.HasCodes xs) : xs.length = items.size := by
  cases h <;> simp [size]

/-- A stretch of it has the codes of that stretch. -/
theorem HasCodes.slice (h : items.HasCodes xs) (start stop : Nat) :
    (items.slice start stop).HasCodes ((xs.drop start).take (stop - start)) := by
  cases h with
  | text cs =>
    rw [← List.map_drop, ← List.map_take, ← List.extract_eq_take_drop, ← Array.toList_extract]
    exact .text _
  | octets k bs =>
    rw [← List.map_drop, ← List.map_take, ← List.extract_eq_take_drop, ← Array.toList_extract]
    exact .octets k _

/-- Its items are plain. -/
theorem HasCodes.isPlain_get (h : items.HasCodes xs) {i : Nat} {v : Value}
    (hv : items.get? i = some v) : v.isPlain = true := by
  cases h with
  | text cs | octets k bs =>
    obtain ⟨x, -, rfl⟩ := Option.map_eq_some_iff.mp hv
    rfl

/-- At the end of the input no run of codes stands. -/
theorem HasCodes.not_prefix_of_none (h : items.HasCodes xs) {ns : List Nat} {i : Nat}
    (hi : items.get? i = none) (hne : ns ≠ []) : ¬ ns <+: xs.drop i := by
  have hend : xs.drop i = [] := by
    rw [List.drop_eq_nil_iff, h.length_eq]
    exact (get?_eq_none_iff items i).mp hi
  rw [hend, List.prefix_nil]
  exact hne

/-- An item is a form of what is expected if and only if the code of it stands there. -/
theorem HasCodes.isMember_equivalents_iff (h : items.HasCodes xs) {expected v : Value} {n i : Nat}
    (hunit : expected.IsUnit) (hn : expected.HasCodes [n]) (hv : items.get? i = some v) :
    v.isMember expected.equivalents = true ↔ [n] <+: xs.drop i := by
  have hstands : [n] <+: xs.drop i ↔ xs[i]? = some n := by
    rw [List.prefix_iff_getElem?]
    simp
  rw [hstands]
  cases h with
  | text cs =>
    obtain ⟨d, hd, rfl⟩ := Option.map_eq_some_iff.mp hv
    rw [List.getElem?_map, Array.getElem?_toList, hd, Option.map_some, Option.some.injEq]
    cases hunit with
    | char c =>
      cases hn
      simp [Value.equivalents, Value.isMember, Value.ofChar, Value.eqv, Value.number?,
        ← Char.toNat_inj]
    | @octet k hk b =>
      cases hn
      cases k with
      | fixed | growable =>
        simp [Value.equivalents, Value.isMember, Value.ofChar, Value.ofByte, Value.eqv,
          Value.number?, ← Char.toNat_inj, Latin1.toNat_ofByte]
      | view | backwardView => cases hk
  | octets kind bs =>
    obtain ⟨d, hd, rfl⟩ := Option.map_eq_some_iff.mp hv
    rw [List.getElem?_map, Array.getElem?_toList, hd, Option.map_some, Option.some.injEq]
    cases hunit with
    | char c =>
      cases hn
      simp [Value.equivalents, Value.isMember, Value.ofByte, Value.eqv, Value.number?]
    | @octet k hk b =>
      cases hn
      cases k with
      | fixed | growable =>
        simp [Value.equivalents, Value.isMember, Value.ofChar, Value.ofByte, Value.eqv,
          Value.number?]
      | view | backwardView => cases hk

/-- A run of codes lies within the input, unless there is nothing in it and it is looked for behind
    the end. -/
theorem HasCodes.le_size (h : items.HasCodes xs) {ns : List Nat} {pos : Nat}
    (hpos : ns ≠ [] ∨ pos ≤ items.size) (hstands : ns <+: xs.drop pos) :
    pos + ns.length ≤ items.size := by
  have hlength := hstands.length_le
  rw [List.length_drop, h.length_eq] at hlength
  rcases hpos with hne | hpos
  · have hsome := List.length_pos_iff.mpr hne
    omega
  · omega

end Items

/-! ### Expected runs and items -/

namespace Leaf

variable {items : Items} {xs ns : List Nat} {expected : Value} {c : Context} {look : Value → Value}
variable (hitems : c.items = .sequence items) (hxs : items.HasCodes xs)
  (hlook : ∀ v : Value, v.isPlain = true → look v = v)
include hitems hxs hlook

/-- A run is accepted where its codes stand. -/
theorem literal_eq (hrun : expected.IsRun) (hns : expected.HasCodes ns)
    (hpos : ns ≠ [] ∨ c.pos ≤ items.size) :
    literal expected look c =
      if ns <+: xs.drop c.pos then
        .ok (.success (items.slice c.pos (c.pos + ns.length)) (c.pos + ns.length))
      else .ok (.failure c.pos) := by
  obtain ⟨forms, hforms⟩ : ∃ forms, expected.variants = .ok forms := by
    cases hrun with
    | text cs => exact ⟨_, rfl⟩
    | octets hk bs => exact ⟨_, rfl⟩
  have hlength : expected.length = .ok ns.length := by
    rw [Value.length, hns.length?]
    rfl
  have hchunk := hxs.slice c.pos (c.pos + ns.length)
  rw [Nat.add_sub_cancel_left] at hchunk
  -- the stretch has the length that is asked for if it has the codes
  have hfits : ((items.slice c.pos (c.pos + ns.length)).length? = some ns.length ∧
      (look (items.slice c.pos (c.pos + ns.length))).isMember forms = true) ↔
        ns <+: xs.drop c.pos := by
    rw [hlook _ hchunk.isPlain, Value.isMember_variants_iff hrun hns hforms hchunk, hchunk.length?,
      List.prefix_iff_eq_take]
    constructor
    · exact fun h => h.2.symm
    · exact fun h => ⟨by rw [← h], h.symm⟩
  unfold literal
  rw [hlength, hforms, Step.ok_bind, Step.ok_bind, Context.sliceTo, hitems,
    Input.slice_sequence, Step.ok_bind]
  by_cases h : ns <+: xs.drop c.pos
  · have hle : c.pos + ns.length ≤ c.items.size := by
      rw [hitems]
      exact hxs.le_size hpos h
    rw [if_pos (hfits.mpr h), if_pos h, accept_of_le _ hle]
  · rw [if_neg fun hmember => h (hfits.mp hmember), if_neg h]
    rfl

/-- An item is accepted where its code stands. -/
theorem item_eq (hunit : expected.IsUnit) {n : Nat} (hn : expected.HasCodes [n]) :
    ∃ v, item expected look c =
      if [n] <+: xs.drop c.pos then .ok (.success v (c.pos + 1)) else .ok (.failure c.pos) := by
  cases hv : items.get? c.pos with
  | none =>
    have hend : c.items.size ≤ c.pos := by
      rw [hitems]
      exact (Items.get?_eq_none_iff items c.pos).mp hv
    refine ⟨.null, ?_⟩
    rw [item, satisfy_of_size_le hend, if_neg (hxs.not_prefix_of_none hv (List.cons_ne_nil n []))]
  | some v =>
    have hmember := hxs.isMember_equivalents_iff hunit hn hv
    refine ⟨v, ?_⟩
    rw [item, satisfy_of_get? hitems hv, hlook v (hxs.isPlain_get hv)]
    show Except.ok (if v.isMember expected.equivalents then _ else _) = _
    by_cases h : [n] <+: xs.drop c.pos
    · rw [if_pos h, if_pos (hmember.mpr h)]
    · rw [if_neg h, if_neg fun hmem => h (hmember.mp hmem)]

end Leaf

namespace Parser

variable {σ : Type} [Memory σ] (setting : Setting σ) {items : Items} {xs ns : List Nat}
  {expected : Value} {c : Context}
variable (hitems : c.items = .sequence items) (hxs : items.HasCodes xs) (hrun : expected.IsRun)
  (hns : expected.HasCodes ns)
variable (hpos : ns ≠ [] ∨ c.pos ≤ items.size)
include hitems hxs hrun hns hpos

/-- What is taken stands there by its codes, be it an item or a run. -/
theorem run_take (s : σ) :
    ∃ v, (take expected).run setting c s =
      if ns <+: xs.drop c.pos then .ok (.success v (c.pos + ns.length)) s
      else .ok (.failure c.pos) s := by
  have hlook := Memory.whole_of_isPlain s
  rcases hrun.take_cases (σ := σ) with ⟨htake, hunit⟩ | htake
  · -- a single character or byte has a single code
    obtain ⟨n, rfl⟩ : ∃ n, ns = [n] := by
      cases hunit with
      | char d =>
        cases hns
        exact ⟨_, rfl⟩
      | octet hk b =>
        cases hns
        exact ⟨_, rfl⟩
    obtain ⟨v, hv⟩ := Leaf.item_eq hitems hxs hlook hunit hns
    refine ⟨v, ?_⟩
    rw [htake, run_leaf setting rfl, hv]
    split <;> rfl
  · refine ⟨items.slice c.pos (c.pos + ns.length), ?_⟩
    rw [htake, run_leaf setting rfl, Leaf.literal_eq hitems hxs hlook hrun hns hpos]
    split <;> rfl

/-- What is skipped stands there by its codes, be it an item or a run. -/
theorem run_skip (s : σ) :
    (skip expected).run setting c s =
      if ns <+: xs.drop c.pos then .ok (.success .null (c.pos + ns.length)) s
      else .ok (.failure c.pos) s := by
  have hmap : (skip expected).run setting = Step.map (fun _ => Action.ofExcept (.ok .null))
      ((take expected).run setting) := by
    rw [run_eq]
    show Step.map _ (eval setting _ (take expected)) = _
    rw [eval_run]
  obtain ⟨v, hv⟩ := run_take setting hitems hxs hrun hns hpos s
  rw [hmap]
  show ((take expected).run setting c >>= _) s = _
  by_cases h : ns <+: xs.drop c.pos
  · rw [if_pos h] at hv ⊢
    rw [Action.bind_of_ok hv]
    rfl
  · rw [if_neg h] at hv ⊢
    rw [Action.bind_of_ok hv]
    rfl

end Parser

end Itemwise
