import Itemwise.Proofs.Offset.Leaves
import Itemwise.Proofs.Run.Nesting

namespace Itemwise

/-!
# Runs on an input and on what is left of it

* `Coupling.nests_offset`, `Coupling.covers_offset` — runs of parsers that do not tell where they
  are stay in step;
* `Parser.run_drop` — hence a run depends on what is left of the input only.
-/

namespace Coupling

open Itemwise.Parser

variable {σ : Type} {xs : Items} {k : Nat}

/-- Both runs count their levels alike. -/
theorem nests_offset : (offset xs k).Nests where
  enter := by
    rintro _ _ ⟨pos, depth, limit, hpos⟩
    exact ⟨pos, depth + 1, limit, hpos⟩
  reaches_enter h := h
  fails_enter h := h
  limits := by
    refine .inl ?_
    rintro _ _ ⟨pos, depth, limit, hpos⟩
    exact ⟨rfl, rfl, trivial⟩

/-- A report of what was consumed is the same, unless it tells where that was. -/
theorem agree_report_offset {m : Measure} (hm : m ≠ .span) {c c' : Context}
    (hc : (offset xs k).meets c c') (v : Value) {q q' : Nat}
    (hq : (offset xs k).reaches c c' q q') :
    (offset xs k).Agree (· = ·) (m.report c v q) (m.report c' v q') := by
  obtain ⟨rfl, -⟩ := hq
  have hsame : m.report c v (k + q') = m.report c' v q' := by
    cases m with
    | count =>
      have hcount : ((k + q' : Nat) : Int) - c.pos = (q' : Int) - c'.pos := by
        rw [hc.pos_eq]
        omega
      simp only [Measure.report, hcount]
    | stretchAndValue => simp only [Measure.report, hc.sliceTo_eq]
    | stretch => exact hc.sliceTo_eq q'
    | span => exact absurd rfl hm
  rw [hsame]
  exact Tolerance.agree_refl (fun _ => rfl) (fun _ => trivial) _

variable [Memory σ] {setting : Setting σ}

/-- All parsers that do not tell their position do the same in both, apart from their parts. -/
theorem covers_offset (hsetting : setting.Each IgnoresPosition) {next next' : Parser σ → Step σ}
    (hnext : ∀ p, p.Each IgnoresPosition → (offset xs k).Steps (next p) (next' p)) :
    (offset xs k).Covers IgnoresPosition setting next next' := by
  -- All values are the same, so only what looks at the input is left, and what enters deeper
  -- parsers.
  refine Covers.ofSame (fun _ _ => Iff.rfl) (fun _ _ => trivial) (fun p _ => p.raisesOnly_true)
    ?_ ?_ ?_ ?_ ?_
  · exact fun p l hp hl c c' s hc => agree_leaf?_offset hp hl _ hc
  · exact fun run name h => h.elim
  · intro m p h c c' v q q' hc hq
    have hm : m ≠ .span := by
      rintro rfl
      exact h
    exact agree_report_offset hm hc v hq
  · exact fun rule => nests_offset.steps_rule hsetting (Action.raisesOnly_true _) hnext
  · exact nests_offset.steps_forward hsetting (fun _ => trivial) hnext

end Coupling

namespace Parser

variable {σ : Type} [Memory σ] {setting : Setting σ} {p : Parser σ}

/-- **Only what is left matters.** A parser that does not tell where it is comes to the same from a
    position of an input as from the start of what is left there: a success with the same value or a
    failure, that many items further on, or the same fault, and the same user state. -/
theorem run_drop (hsetting : setting.Each IgnoresPosition) (hp : p.Each IgnoresPosition)
    {xs : Items} {k : Nat} (hk : k ≤ xs.size) (depth : Int) (limit : Limit) (s : σ) :
    match p.run setting ⟨.sequence (xs.drop k), 0, depth, limit⟩ s with
    | .ok (.success v q) t =>
      p.run setting ⟨.sequence xs, k, depth, limit⟩ s = .ok (.success v (k + q)) t
    | .ok (.failure x) t =>
      ∃ q, x = .position q ∧ p.run setting ⟨.sequence xs, k, depth, limit⟩ s =
        .ok (.failure (.position (k + q))) t
    | .error f t => p.run setting ⟨.sequence xs, k, depth, limit⟩ s = .error f t := by
  have hruns := Coupling.nests_offset.steps_run (fun _ _ => Coupling.covers_offset hsetting) hp _ _
    (.mk 0 depth limit hk) s
  rw [Nat.add_zero] at hruns
  cases hrun : p.run setting ⟨.sequence xs, k, depth, limit⟩ s with
  | ok o t =>
    rw [hrun] at hruns
    obtain ⟨o', hrun', hends⟩ := hruns
    rw [hrun']
    cases hends with
    | success hv hq =>
      obtain rfl := hv
      obtain ⟨rfl, -⟩ := hq
      rfl
    | failure hx =>
      obtain ⟨q, rfl, rfl⟩ := hx
      exact ⟨q, rfl, rfl⟩
  | error f t =>
    rw [hrun] at hruns
    rcases hruns with hexcused | ⟨hrun', -⟩
    · exact hexcused.elim
    · rw [hrun']

/-- Brackets behind a letter, and what they are read as without it. -/
theorem run_drop_brackets :
    1 ≤ (Items.text #['x', '(', '(', ')', ')']).size ∧
      (forward "brackets").run brackets ⟨.sequence (.text #['x', '(', '(', ')', ')']), 1, 0,
        { levels := 3 }⟩ () = .ok (.success .null 5) () := by
  have hk : 1 ≤ (Items.text #['x', '(', '(', ')', ')']).size := by decide
  have hsetting : brackets.Each IgnoresPosition :=
    each_brackets (fun _ => trivial) (fun _ => trivial) (fun _ _ _ => trivial) fun _ => trivial
  have hp : (forward "brackets" : Parser Unit).Each IgnoresPosition := .node trivial nofun
  have hrest : (forward "brackets").run brackets
      ⟨.sequence ((Items.text #['x', '(', '(', ')', ')']).drop 1), 0, 0, { levels := 3 }⟩ () =
        .ok (.success .null 4) () := by with_unfolding_all rfl
  have hrun := run_drop hsetting hp hk 0 { levels := 3 } ()
  rw [hrest] at hrun
  exact ⟨hk, hrun⟩

end Parser

end Itemwise
