import Itemwise.Parser.Parse
import Itemwise.Proofs.Run.Factoring
import Itemwise.Proofs.Run.Stretches
import Itemwise.Proofs.Scan.Codes

namespace Itemwise

/-!
# Runs piece by piece

A run of items is compared with a whole stretch of the input, in each of its forms.  It is accepted
exactly where its items are accepted one after the other, each in the forms that a single item has.

* `Codes.StandsAt` — a run of codes stands at a position, code by code;
* `Value.pieces` — the pieces of length one of a text or a byte sequence;
* `Parser.collect_pieces` — the pieces of a run are read one after the other where its codes stand;
* `Parser.run_pieces` — so an attempt at them consumes the stretch, or nothing;
* `Parser.run_literal` — which is what the run does, and what skipping it does.
-/

variable {items : Items} {xs ns : List Nat} {c : Context}

namespace Codes

/-- From a position on, at least as many codes remain as a run has, and each of them is that of the
    run at its place. -/
def StandsAt (ns xs : List Nat) (pos : Nat) : Prop :=
  pos + ns.length ≤ xs.length ∧ ∀ j, j < ns.length → xs[pos + j]? = ns[j]?

/-- Codes stand at a position if what is there begins with them. -/
theorem standsAt_iff {pos : Nat} (hpos : pos ≤ xs.length) :
    StandsAt ns xs pos ↔ ns <+: xs.drop pos := by
  have hget : ns <+: xs.drop pos ↔ ∀ j, j < ns.length → xs[pos + j]? = ns[j]? := by
    rw [List.prefix_iff_getElem?]
    refine forall₂_congr fun j hj => ?_
    rw [List.getElem?_drop, List.getElem?_eq_getElem hj]
  rw [hget]
  refine ⟨fun h => h.2, fun h => ⟨?_, h⟩⟩
  have hlength := (hget.mpr h).length_le
  rw [List.length_drop] at hlength
  omega

end Codes

namespace Value

/-- The pieces of length one of a text or a byte sequence, each of them of its own kind. -/
def pieces : Value → List Value
  | .text cs => cs.map ofChar
  | .octets k bs => bs.map fun b => .octets k [b]
  | _ => []

/-- Each piece is an item that has the code at its place. -/
theorem IsRun.pieces {expected : Value} (h : expected.IsRun) (hns : expected.HasCodes ns) :
    List.Forall₂ (fun piece n => piece.IsUnit ∧ piece.HasCodes [n]) expected.pieces ns := by
  cases h with
  | text cs =>
    cases hns
    induction cs with
    | nil => exact .nil
    | cons d ds ih => exact .cons ⟨.char d, .text [d]⟩ ih
  | @octets k hk bs =>
    cases hns
    induction bs with
    | nil => exact .nil
    | cons b bs ih => exact .cons ⟨.octet hk b, .octets k [b]⟩ ih

end Value

namespace Parser

variable {σ : Type} [Memory σ] (setting : Setting σ) {expected : Value} {ps : List Value}

/-- **Pieces are read one after the other where their codes stand**, up to the first one that does
    not stand there. -/
theorem collect_pieces (hitems : c.items = .sequence items) (hxs : items.HasCodes xs)
    (hps : List.Forall₂ (fun piece n => piece.IsUnit ∧ piece.HasCodes [n]) ps ns) (s : σ) :
    (ns <+: xs.drop c.pos → ∃ vs, Step.collect ((ps.map item).map (run setting)) c s =
        .ok (.success vs (c.pos + ns.length)) s) ∧
      (¬ ns <+: xs.drop c.pos → ∃ q : Nat, Step.collect ((ps.map item).map (run setting)) c s =
        .ok (.failure q) s) := by
  induction hps generalizing c with
  | nil => exact ⟨fun _ => ⟨[], rfl⟩, fun h => absurd List.nil_prefix h⟩
  | @cons piece n ps ns hpiece _ ih =>
    obtain ⟨v, hv⟩ := Leaf.item_eq hitems hxs (Memory.whole_of_isPlain s) hpiece.1 hpiece.2
    -- the codes stand here if the first one does and the others do right after it
    have hcons : n :: ns <+: xs.drop c.pos ↔ [n] <+: xs.drop c.pos ∧
        ns <+: xs.drop (c.pos + 1) := by
      rw [← List.drop_drop]
      cases xs.drop c.pos with
      | nil => simp
      | cons x xs => simp [List.cons_prefix_cons]
    have hfirst : (item piece).run setting c s =
        (Action.ofExcept (Leaf.item piece (Memory.whole s) c) : Action σ _) s :=
      run_leaf setting rfl c s
    rw [List.map_cons, List.map_cons, Step.collect_cons, hcons]
    by_cases hn : [n] <+: xs.drop c.pos
    · rw [hv, if_pos hn] at hfirst
      rw [Action.bind_of_ok hfirst]
      show (_ → ∃ vs, (Step.collect ((ps.map item).map (run setting)) (c.moveTo (c.pos + 1)) >>= _)
          s = _) ∧ _
      obtain ⟨hstands, hmisses⟩ := ih (c := c.moveTo (c.pos + 1)) hitems
      refine ⟨fun h => ?_, fun h => ?_⟩
      · obtain ⟨vs, hvs⟩ := hstands h.2
        refine ⟨v :: vs, ?_⟩
        rw [Action.bind_of_ok hvs, Context.pos_moveTo, List.length_cons, Nat.add_right_comm,
          Nat.add_assoc]
        rfl
      · obtain ⟨q, hq⟩ := hmisses fun hrest => h ⟨hn, hrest⟩
        exact ⟨q, Action.bind_of_ok hq⟩
    · rw [hv, if_neg hn] at hfirst
      exact ⟨fun h => absurd h.1 hn, fun _ => ⟨c.pos, Action.bind_of_ok hfirst⟩⟩

/-- An attempt at all pieces consumes the stretch where their codes stand, and nothing elsewhere. -/
theorem run_pieces (hitems : c.items = .sequence items) (hxs : items.HasCodes xs)
    (hps : List.Forall₂ (fun piece n => piece.IsUnit ∧ piece.HasCodes [n]) ps ns) (s : σ) :
    (attempt (measure .stretch (seq (ps.map item)))).run setting c s =
      if ns <+: xs.drop c.pos then
        .ok (.success (items.slice c.pos (c.pos + ns.length)) (c.pos + ns.length)) s
      else .ok (.failure c.pos) s := by
  obtain ⟨hstands, hmisses⟩ := collect_pieces setting hitems hxs hps s
  rw [run_attempt, run_measure, run_seq, Step.attempt_eq]
  by_cases h : ns <+: xs.drop c.pos
  · obtain ⟨vs, hvs⟩ := hstands h
    have hall : Step.sequence .all ((ps.map item).map (run setting)) c s =
        .ok (.success (.tuple vs) (c.pos + ns.length)) s := by
      rw [Step.sequence_all_eq, Action.bind_of_ok hvs]
      rfl
    rw [if_pos h, Action.bind_of_ok
      (Step.measure_of_success .stretch hitems hall (Nat.le_add_right _ _))]
    rfl
  · obtain ⟨q, hq⟩ := hmisses h
    have hall : Step.sequence .all ((ps.map item).map (run setting)) c s = .ok (.failure q) s := by
      rw [Step.sequence_all_eq, Action.bind_of_ok hq]
      rfl
    rw [if_neg h, Action.bind_of_ok (Step.measure_of_failure .stretch hall)]
    show EStateM.Result.ok (if q == c.pos then Outcome.failure q else .failure c.pos) s = _
    split
    · next heq => rw [beq_iff_eq.mp heq]
    · rfl

omit [Memory σ] in
/-- A run of items makes a parser of an expected piece. -/
theorem literal?_eq (hrun : expected.IsRun) :
    literal? expected = (.ok (.literal expected) : Except Fault (Parser σ)) := by
  cases hrun with
  | text cs => rfl
  | octets hk bs => rfl

/-- **A run is the backtracking sequence of its items.** It is accepted if and only if at least as
    many items remain as it has, and each of them has the code of the run's item at its place.  Then
    its value is the stretch of the input, and otherwise nothing is consumed.  An attempt at its
    pieces of length one, one after the other, does the same, and it is skipped by the same rule,
    however long it is. -/
theorem run_literal (hrun : expected.IsRun) (hns : expected.HasCodes ns)
    (hitems : c.items = .sequence items) (hxs : items.HasCodes xs)
    (hpos : c.pos ≤ items.size) (s : σ) :
    literal? expected = (.ok (.literal expected) : Except Fault (Parser σ)) ∧
      (Codes.StandsAt ns xs c.pos →
        (literal expected).run setting c s =
            .ok (.success (items.slice c.pos (c.pos + ns.length)) (c.pos + ns.length)) s ∧
          (skip expected).run setting c s = .ok (.success .null (c.pos + ns.length)) s) ∧
      (¬ Codes.StandsAt ns xs c.pos →
        (literal expected).run setting c s = .ok (.failure c.pos) s ∧
          (skip expected).run setting c s = .ok (.failure c.pos) s) ∧
      (attempt (measure .stretch (seq (expected.pieces.map item)))).run setting c s =
        (literal expected).run setting c s := by
  have hrunOf : (literal expected).run setting c s =
      if ns <+: xs.drop c.pos then
        .ok (.success (items.slice c.pos (c.pos + ns.length)) (c.pos + ns.length)) s
      else .ok (.failure c.pos) s := by
    rw [run_leaf setting rfl, Leaf.literal_eq hitems hxs (Memory.whole_of_isPlain s) hrun
      hns (.inr hpos)]
    split <;> rfl
  have hskip := run_skip setting hitems hxs hrun hns (.inr hpos) s
  rw [Codes.standsAt_iff (hxs.length_eq ▸ hpos)]
  refine ⟨literal?_eq hrun, fun h => ?_, fun h => ?_, ?_⟩
  · rw [hrunOf, hskip, if_pos h, if_pos h]
    exact ⟨rfl, rfl⟩
  · rw [hrunOf, hskip, if_neg h, if_neg h]
    exact ⟨rfl, rfl⟩
  · rw [hrunOf, run_pieces setting hitems hxs (hrun.pieces hns)]

/-- Two letters, one of them beyond ASCII, stand in a view of bytes, but not where only one byte is
    left. -/
theorem run_literal_view :
    let c := (start (.sequence (.octets .view #[0x61, 0xe9, 0x62])) { levels := 50 }).moveTo 1
    (literal (.text ['é', 'b'])).run brackets c () =
      .ok (.success (.octets .view [0xe9, 0x62]) 3) () ∧
      (attempt (measure .stretch (seq [.item (.text ['é']), .item (.text ['b'])]))).run
        brackets c () = .ok (.success (.octets .view [0xe9, 0x62]) 3) () ∧
      (skip (.text ['é', 'b'])).run brackets (c.moveTo 2) () = .ok (.failure (.position 2)) () := by
  intro c
  have hstands : Codes.StandsAt (['é', 'b'].map Char.toNat)
      ([0x61, 0xe9, 0x62].map UInt8.toNat) 1 := by
    unfold Codes.StandsAt
    decide
  have hmisses : ¬ Codes.StandsAt (['é', 'b'].map Char.toNat)
      ([0x61, 0xe9, 0x62].map UInt8.toNat) 2 := by
    unfold Codes.StandsAt
    decide
  obtain ⟨-, hfound, -, hpieces⟩ :=
    run_literal brackets (.text ['é', 'b']) (.text ['é', 'b']) (c := c) rfl
      (.octets .view #[0x61, 0xe9, 0x62]) (by decide) ()
  obtain ⟨-, -, hmissing, -⟩ :=
    run_literal brackets (.text ['é', 'b']) (.text ['é', 'b']) (c := c.moveTo 2) rfl
      (.octets .view #[0x61, 0xe9, 0x62]) (by decide) ()
  exact ⟨(hfound hstands).1, hpieces.trans (hfound hstands).1, (hmissing hmisses).2⟩

end Parser

end Itemwise
