import Itemwise.Function.StateFn
import Itemwise.Proofs.Run.Sequences
import Itemwise.Proofs.Run.Sinks
import Itemwise.Proofs.Store.Lists

namespace Itemwise

/-!
# Budgets

A parser that spends one from a budget in the user state before it takes an item, can be repeated
only for as long as there is some left.  A document of such items is read to its end if the budget
has one for each of them, and otherwise given up where the budget is spent.  The attempt at the end
of the input is paid for as well.

* `Spends` — an action takes one from a budget in the user state, or refuses to;
* `StateFn.spends` — so does the named function that counts down the first item of a list;
* `Parser.tick`, `Parser.ticked`, `Parser.document` — what is paid for, an item that is, and a
  document of such items;
* `Parser.run_ticked_spent`, `Parser.run_ticked` — one item, without a budget and with one;
* `Parser.greedyRun_ticked` — the items that are paid for, and what is left;
* `Parser.run_document` — a document under a budget.
-/

/-- An action spends a budget in the user state: it takes one from it for the value `true`, or does
    nothing if there is none left. -/
structure Spends {σ : Type} (spend : Value → Action σ Value) (budget : σ → Int → Prop) : Prop where
  refuses : ∀ v s k, budget s k → k ≤ 0 → spend v s = .ok .null s
  takes : ∀ v s k, budget s k → 0 < k → ∃ t, spend v s = .ok (.bool true) t ∧ budget t (k - 1)

/-! ### The first item of a list -/

/-- The user state is a list whose first item is a number. -/
def Session.Counts (session : Session) (k : Int) : Prop :=
  ∃ p xs, session.state = .shared p ∧ session.store.containers[p]? = some (.list xs) ∧
    xs[0]? = some (.int k)

namespace StateFn

variable {store : Store} {p : Nat} {xs : Array Value} {k : Int}

/-- What is left is looked at before anything is spent. -/
theorem spendFirst_eq (hlist : store.containers[p]? = some (.list xs))
    (hfirst : xs[0]? = some (.int k)) :
    spendFirst (.shared p) store = (if k ≤ 0 then return .null else do
      Store.setFirst (.shared p) (.int (k - 1))
      return .bool true : Action Store Value) store := by
  have hitem : Store.item (.shared p) 0 store = .ok (.int k) store := Store.item_list hlist hfirst
  have hwhole : Store.wholeOf (.int k) store = .ok (.int k) store := by
    rw [Store.wholeOf, Store.whole_of_isPlain _ _ rfl]
  have htest : Value.test .le (.int k) (.int 0) = .ok (decide (k ≤ 0)) := by
    rw [Value.test_int, Comparison.admits_le]
  rw [spendFirst, Action.bind_of_ok hitem, Action.bind_of_ok hwhole, htest]
  by_cases hk : k ≤ 0
  · rw [if_pos hk, decide_eq_true hk]
    rfl
  · rw [if_neg hk, decide_eq_false hk]
    rfl

/-- The named function spends the first item of a list. -/
theorem spends : Spends StateFn.spend.run Session.Counts where
  refuses := by
    rintro v ⟨_, store⟩ k ⟨p, xs, rfl, hlist, hfirst⟩ hk
    have hspend : StateFn.spend.apply (.shared p) v store = .ok .null store := by
      refine (spendFirst_eq hlist hfirst).trans ?_
      rw [if_pos hk]
      rfl
    simp only [StateFn.run, Session.onState, hspend]
  takes := by
    rintro v ⟨_, store⟩ k ⟨p, xs, rfl, hlist, hfirst⟩ hk
    have hp : p < store.containers.size := (Array.getElem?_eq_some_iff.mp hlist).1
    have hxs : 0 < xs.size := (Array.getElem?_eq_some_iff.mp hfirst).1
    let rest := store.containers.setIfInBounds p (.list (xs.setIfInBounds 0 (.int (k - 1))))
    have hspend : StateFn.spend.apply (.shared p) v store =
        .ok (.bool true) { store with containers := rest } := by
      refine (spendFirst_eq hlist hfirst).trans ?_
      rw [if_neg (Int.not_le.mpr hk), Action.bind_of_ok (Store.setFirst_list hlist hxs _)]
      rfl
    refine ⟨⟨.shared p, { store with containers := rest }⟩,
      by simp only [StateFn.run, Session.onState, hspend], p, _, rfl,
      Array.getElem?_setIfInBounds_self_of_lt hp, Array.getElem?_setIfInBounds_self_of_lt hxs⟩

end StateFn

variable {σ : Type}

namespace Parser

/-- One is spent from the budget, at whatever position. -/
def tick (spend : Value → Action σ Value) : Parser σ :=
  .mapIf (.liftToState spend .position) fun v => return v

/-- An item that is paid for. -/
def ticked (spend : Value → Action σ Value) : Parser σ := andThen (tick spend) .anyItem

/-- Items that are paid for, up to the end of the input. -/
def document (spend : Value → Action σ Value) : Parser σ :=
  andDrop (repeated (ticked spend) .discard none 0) .eof

variable [Memory σ] {spend : Value → Action σ Value} {budget : σ → Int → Prop} {setting : Setting σ}
  {items : Items} {c : Context} {s : σ} {k : Int}

/-! ### One item -/

/-- Paying for an item is a step of the user state at the present position. -/
theorem run_tick_eq : (tick spend).run setting =
    Step.mapIf (fun v => return v) (Step.map spend (Step.leaf Leaf.position)) := by
  rw [run_eq]
  rfl

/-- A paid item is the payment and then the item. -/
theorem run_ticked_eq : (ticked spend).run setting =
    Step.sequence .last [(tick spend).run setting, (Parser.anyItem : Parser σ).run setting] :=
  run_sequence setting .last _

omit [Memory σ] in
/-- Nothing in a paid item goes back. -/
theorem ticked_each_movesForward : (ticked spend).Each MovesForward := by
  have hposition : (Parser.position : Parser σ).Each MovesForward :=
    .node trivial fun r hr => by cases hr
  have hitem : (Parser.anyItem : Parser σ).Each MovesForward :=
    .node trivial fun r hr => by cases hr
  have hlifted : (Parser.liftToState spend .position).Each MovesForward :=
    hposition.of_part trivial fun r hr => by
    cases hr
    rfl
  have htick : (tick spend).Each MovesForward := hlifted.of_part trivial fun r hr => by
    cases hr
    rfl
  refine .node trivial fun r hr => ?_
  cases hr with
  | sequence hr =>
    rcases List.mem_pair.mp hr with rfl | rfl
    · exact htick
    · exact hitem

/-- Whatever is spent, an item that is paid for is not before where it is due. -/
theorem ticked_neverGoesBack : ((ticked spend).run setting).NeverGoesBack := by
  -- the item refers to no declarations, so those of the grammar may be any
  let plain : Setting σ := ⟨{}, { rule := fun _ _ => throw .missingKey, forward := fun _ => none }⟩
  have hplain : plain.Each MovesForward := ⟨by rintro r s p t ⟨⟩, nofun⟩
  have hrun : (ticked spend).run setting = (ticked spend).run plain := by rw [run_eq, run_eq]; rfl
  rw [hrun]
  exact run_neverGoesBack hplain ticked_each_movesForward

section Item

variable (setting) (h : Spends spend budget)
include h

/-- If nothing is left of the budget, no item is taken. -/
theorem run_ticked_spent (hs : budget s k) (hk : k ≤ 0) :
    (ticked spend).run setting c s = .ok (.failure c.pos) s := by
  have hspend := h.refuses (.int c.pos) s k hs hk
  have htick : (tick spend).run setting c s = .ok (.failure c.pos) s := by
    have hmap : Step.map spend (Step.leaf Leaf.position) c s = .ok (.success .null c.pos) s :=
      Action.bind_of_ok hspend
    rw [run_tick_eq]
    exact Action.bind_of_ok hmap
  rw [run_ticked_eq]
  exact Step.sequence_of_failure htick _

/-- If there is some left, one is spent first, whether or not there is an item to take. -/
theorem run_ticked (hs : budget s k) (hk : 0 < k) {o : Outcome Value}
    (ho : Leaf.anyItem c = .ok o) :
    ∃ t, (ticked spend).run setting c s = .ok o t ∧ budget t (k - 1) := by
  obtain ⟨t, hspend, ht⟩ := h.takes (.int c.pos) s k hs hk
  have htick : (tick spend).run setting c s = .ok (.success (.bool true) c.pos) t := by
    have hmap : Step.map spend (Step.leaf Leaf.position) c s =
        .ok (.success (.bool true) c.pos) t := Action.bind_of_ok hspend
    rw [run_tick_eq]
    exact Action.bind_of_ok hmap
  have hitem : (Parser.anyItem : Parser σ).run setting (c.moveTo c.pos) t = .ok o t := by
    rw [Context.moveTo_pos, run_leaf setting rfl, ho]
    rfl
  refine ⟨t, ?_, ht⟩
  rw [run_ticked_eq, Step.sequence_pair_of_success htick, Action.bind_of_ok hitem]
  cases o <;> rfl

/-! ### A document -/

/-- The items from a position on are taken for as long as they are paid for. -/
theorem greedyRun_ticked (hitems : c.items = .sequence items) (k pos : Nat)
    (hpos : pos ≤ items.size) (hs : budget s k) :
    ∃ u, Step.GreedyRun ((ticked spend).run setting) none .discard c pos false () s
        ((items.toList.drop pos).take k) (.stopped (min (pos + k) items.size) false ()) u ∧
      budget u (k - min k (items.size - pos + 1) : Nat) := by
  -- On the budget: it ends the run if it comes to nothing before the input ends.
  induction k generalizing pos s with
  | zero =>
    have hstuck := run_ticked_spent setting (c := c.moveTo pos) h hs (Int.le_refl 0)
    refine ⟨s, ?_, by simpa using hs⟩
    rw [List.take_zero, Nat.add_zero, Nat.min_eq_left hpos]
    exact .noElement hstuck (beq_self_eq_true pos)
  | succ k ih =>
    have hk : (0 : Int) < (k + 1 : Nat) := by omega
    have hless : ((k + 1 : Nat) : Int) - 1 = k := by omega
    rcases Nat.lt_or_eq_of_le hpos with hlt | rfl
    · obtain ⟨v, hv⟩ := Items.exists_get? hlt
      obtain ⟨t, hrun, ht⟩ :=
        run_ticked setting h hs hk (Leaf.anyItem_of_get? (c := c.moveTo pos) hitems hv)
      rw [hless] at ht
      obtain ⟨u, hrest, hu⟩ := ih (pos + 1) hlt ht
      have hdrop : items.toList.drop pos = v :: items.toList.drop (pos + 1) := by
        rw [Items.get?_eq_toList] at hv
        exact (List.getElem?_eq_some_iff.mp hv).elim fun h hv => hv ▸ List.drop_eq_getElem_cons h
      refine ⟨u, ?_, ?_⟩
      · rw [hdrop, List.take_succ_cons, ← Nat.add_assoc, Nat.add_right_comm]
        exact .further ⟨Nat.lt_succ_self pos, t, hrun, rfl⟩ rfl hrest
      · rw [show k + 1 - min (k + 1) (items.size - pos + 1) =
          k - min k (items.size - (pos + 1) + 1) by omega]
        exact hu
    · have hend : c.items.size ≤ items.size := by rw [hitems]; exact Nat.le_refl _
      obtain ⟨t, hrun, ht⟩ :=
        run_ticked setting h hs hk (Leaf.anyItem_of_size_le (c := c.moveTo items.size) hend)
      rw [hless] at ht
      refine ⟨t, ?_, ?_⟩
      · rw [← Items.length_toList, List.drop_length, List.take_nil, Items.length_toList,
          Nat.min_eq_right (Nat.le_add_right ..)]
        exact .noElement hrun (beq_self_eq_true _)
      · rw [show k + 1 - min (k + 1) (items.size - items.size + 1) = k by omega]
        exact ht

end Item

/-- **A budget ends a parse exactly where it is spent.** Let there be a budget in the user state for
    some number of items.  Then as many items are taken, and no more, unless the input ends before.
    So a document is read to its end if the budget has one for each of its items, and otherwise
    fails at the first item that is not paid for.  In the end as much is gone as there are items,
    and one more for the end of the input, or else everything. -/
theorem run_document (h : Spends spend budget) (setting : Setting σ) (items : Items) (limit : Limit)
    {k : Nat} (hs : budget s k) :
    let c := start (.sequence items) limit
    ∃ u, budget u (k - min k (items.size + 1) : Nat) ∧
      Step.GreedyRun ((ticked spend).run setting) none .discard c 0 false () s (items.toList.take k)
        (.stopped (min k items.size) false ()) u ∧
      (repeated (ticked spend) .discard none 0).run setting c s =
        .ok (.success (items.slice 0 (min k items.size)) (min k items.size)) u ∧
      (document spend).run setting c s =
        .ok (if items.size ≤ k then .success (items.slice 0 items.size) items.size
          else .failure (.position k)) u := by
  intro c
  obtain ⟨u, hrun, hu⟩ := greedyRun_ticked setting (c := c) h rfl k 0 (Nat.zero_le _) hs
  rw [Nat.zero_add, List.drop_zero] at hrun
  have hmany : (repeated (ticked spend) .discard none 0).run setting c s =
      .ok (.success (items.slice 0 (min k items.size)) (min k items.size)) u := by
    rw [run_repeated_eq]
    exact Step.many_outcome ticked_neverGoesBack nofun (e := .stopped _ _ ())
      (Nat.zero_le _) rfl hrun
  have hdocument : (document spend).run setting =
      Step.sequence .first [(repeated (ticked spend) .discard none 0).run setting,
        (Parser.eof : Parser σ).run setting] :=
    run_sequence setting .first _
  have heof (q : Nat) : (Parser.eof : Parser σ).run setting (c.moveTo q) u =
      .ok (if items.size ≤ q then .success .null q else .failure (.position q)) u := by
    rw [run_leaf setting rfl]
    show (Action.ofExcept (if items.size ≤ q then _ else _) : Action σ (Outcome Value)) u = _
    split <;> rfl
  refine ⟨u, hu, hrun, hmany, ?_⟩
  rw [hdocument, Step.sequence_pair_of_success hmany, Action.bind_of_ok (heof _)]
  by_cases hk : items.size ≤ k
  · rw [Nat.min_eq_right hk, if_pos (Nat.le_refl _), if_pos hk]
    rfl
  · rw [Nat.min_eq_left (Nat.le_of_not_le hk), if_neg hk, if_neg hk]
    rfl

/-- Three letters are not read to their end with two steps, and are with three. -/
theorem run_document_letters :
    let setting : Setting Session :=
      ⟨{}, { rule := fun _ _ => throw .missingKey, forward := fun _ => none }⟩
    let c := start (.sequence (.text #['a', 'b', 'c'])) { levels := 50 }
    let counting (k : Int) : Session := ⟨.shared 0, { containers := #[.list #[.int k]] }⟩
    ((counting 2).Counts 2 ∧ ∃ u, u.Counts 0 ∧
        (document StateFn.spend.run).run setting c (counting 2) = .ok (.failure (.position 2)) u) ∧
      (counting 3).Counts 3 ∧ ∃ u, u.Counts 0 ∧
        (document StateFn.spend.run).run setting c (counting 3) =
          .ok (.success (.text ['a', 'b', 'c']) 3) u := by
  intro setting c counting
  have hcounting (k : Int) : (counting k).Counts k := ⟨0, _, rfl, rfl, rfl⟩
  obtain ⟨u, hu, -, -, hshort⟩ :=
    run_document StateFn.spends setting (.text #['a', 'b', 'c']) { levels := 50 }
      (k := 2) (hcounting 2)
  obtain ⟨w, hw, -, -, hlong⟩ :=
    run_document StateFn.spends setting (.text #['a', 'b', 'c']) { levels := 50 }
      (k := 3) (hcounting 3)
  exact ⟨⟨hcounting 2, u, hu, hshort⟩, hcounting 3, w, hw, hlong⟩

end Parser

end Itemwise
