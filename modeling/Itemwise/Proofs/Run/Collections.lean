import Itemwise.Proofs.Run.Sinks
import Itemwise.Proofs.Sorting.Pairs

namespace Itemwise

/-!
# Dictionaries as collections

Pairs that are collected into a dictionary have their keys where they came first, with the values
that came last.  Collected into one that is sorted in the end, they have the same entries in the
order of the keys, however the pairs with different keys lie among each other.

* `Sink.collect` — what a sink makes of values;
* `Sink.ArePairs` — values that are pairs of a key with something else;
* `Sink.collect_pairs` — what dictionaries make of such values.
-/

variable {σ : Type} [Memory σ]

namespace Sink

/-- What a sink makes of values that it takes one after the other. -/
def collect (sink : Sink σ) (vs : List Value) : Action σ Value := do
  let acc ← sink.start
  let acc ← sink.takeAll acc vs
  sink.finish acc

/-- Some values are pairs with keys, as they look in a user state. -/
def ArePairs (s : σ) (vs : List Value) (es : List (Value × Value)) : Prop :=
  List.Forall₂ (fun v e => Dict.pair (Memory.surface s v) = .ok e ∧ e.1.IsProperKey) vs es

variable {s : σ} {vs : List Value} {es : List (Value × Value)}

/-- The keys of pairs that are collected are fit to be keys. -/
theorem ArePairs.isProperKey (h : ArePairs s vs es) : ∀ e ∈ es, e.1.IsProperKey := by
  induction h with
  | nil => nofun
  | cons h _ ih => exact List.forall_mem_cons.mpr ⟨h.2, ih⟩

/-- A dictionary takes the pairs into its draft. -/
theorem ArePairs.takeAll_dict (h : ArePairs s vs es) :
    Sink.takeAll .dict .empty vs s =
      .ok (es.foldl (fun d e => d.insert e.1 e.2) .empty : Dict.Draft) s :=
  Sink.takeAll_dict (h.imp fun _ _ h => ⟨h.1, h.2.isKey⟩) .empty

/-- The dictionary sink comes to the dictionary of the pairs. -/
theorem collect_dict (h : ArePairs s vs es) :
    Sink.dict.collect vs s = .ok (.dict (Dict.ofEntries es)) s := by
  show (Sink.takeAll .dict Dict.Draft.empty vs >>= _) s = _
  rw [Action.bind_of_ok h.takeAll_dict]
  rfl

/-- The sorted dictionary sink comes to that dictionary sorted, if its keys can be compared. -/
theorem collect_sortedDict (h : ArePairs s vs es) {sorted : Dict}
    (hsorted : (Dict.ofEntries es).sorted = .ok sorted) :
    Sink.sortedDict.collect vs s = .ok (.dict sorted) s := by
  have htaken := (Sink.takeAll_sortedDict vs .empty s).trans h.takeAll_dict
  show (Sink.takeAll .sortedDict Dict.Draft.empty vs >>= _) s = _
  rw [Action.bind_of_ok htaken]
  show (do return .dict (← Action.ofExcept (Dict.ofEntries es).sorted) : Action σ Value) s = _
  rw [hsorted]
  rfl

/-- **Collecting pairs.** Some pairs with keys are pushed into a sink.  A dictionary has each key
    where it came first, with the value of the last pair with that key, which is what is found for
    it.  If the keys are comparable, a dictionary that is sorted in the end has the same entries in
    strictly ascending order of the keys.  There is no fault whatever the values are; and pairs with
    different keys may be rearranged, with the very same result. -/
theorem collect_pairs (hpairs : ArePairs s vs es) :
    let d : Dict := (Dict.firsts es).map fun e => (e.1, Dict.latest es e)
    Sink.dict.collect vs s = .ok (.dict d) s ∧
      (∀ e ∈ es, Value.lookup d e.1 = .ok (Dict.latest es e)) ∧
        (Dict.Comparable (es.map Prod.fst) → ∃ sorted : Dict, sorted.Perm d ∧
          (sorted.Pairwise fun e f => Value.test .lt e.1 f.1 = .ok true) ∧
            Sink.sortedDict.collect vs s = .ok (.dict sorted) s ∧
              ∀ (s' : σ) (vs' : List Value) (es' : List (Value × Value)),
                ArePairs s' vs' es' → es'.Perm es →
                (∀ e ∈ es, Dict.alike e.1 es' = Dict.alike e.1 es) →
                  Sink.sortedDict.collect vs' s' = .ok (.dict sorted) s') := by
  have hes := hpairs.isProperKey
  intro d
  have hd : Dict.ofEntries es = d := Dict.ofEntries_eq hes
  refine ⟨?_, fun e he => Dict.lookup_latest hes he, fun hkeys => ?_⟩
  · rw [collect_dict hpairs, hd]
  · obtain ⟨sorted, hsorted, heq, hrearranged⟩ := Dict.sorted_ofEntries hes hkeys
    rw [hd] at hsorted
    refine ⟨sorted, hsorted.perm, hsorted.ascends, collect_sortedDict hpairs heq, ?_⟩
    exact fun s' vs' es' hpairs' hperm halike =>
      collect_sortedDict hpairs' (hrearranged es' hperm halike)

/-- Two pairs have one key, and their values do not compare; the third pair may come first, in the
    middle or last. -/
theorem collect_pairs_texts :
    let pair (k : Char) (v : Value) : Value := .tuple [.text [k], v]
    Sink.dict.collect [pair 'b' (.int 1), pair 'a' (.text ['x']), pair 'b' .null] () =
        .ok (.dict [(.text ['b'], .null), (.text ['a'], .text ['x'])]) () ∧
      ∃ sorted : Dict, sorted.Perm [(.text ['b'], .null), (.text ['a'], .text ['x'])] ∧
        Sink.sortedDict.collect [pair 'b' (.int 1), pair 'a' (.text ['x']), pair 'b' .null] () =
          .ok (.dict sorted) () ∧
        Sink.sortedDict.collect [pair 'a' (.text ['x']), pair 'b' (.int 1), pair 'b' .null] () =
        .ok (.dict sorted) () := by
  intro pair
  let es : List (Value × Value) :=
    [(.text ['b'], .int 1), (.text ['a'], .text ['x']), (.text ['b'], .null)]
  have hkey (c : Char) : (Value.text [c]).IsProperKey := .simple rfl rfl
  have htexts : Dict.Comparable (es.map Prod.fst) := Dict.comparable_of_texts (by simp [es])
  have hmade : (Dict.firsts es).map (fun e => (e.1, Dict.latest es e)) =
      [(.text ['b'], .null), (.text ['a'], .text ['x'])] := by with_unfolding_all rfl
  obtain ⟨hdict, -, hsorted⟩ :=
    @collect_pairs Unit _ () [pair 'b' (.int 1), pair 'a' (.text ['x']), pair 'b' .null] es
      (.cons ⟨rfl, hkey 'b'⟩ (.cons ⟨rfl, hkey 'a'⟩ (.cons ⟨rfl, hkey 'b'⟩ .nil)))
  rw [hmade] at hdict hsorted
  obtain ⟨sorted, hperm, -, hcollected, hrearranged⟩ := hsorted htexts
  refine ⟨hdict, sorted, hperm, hcollected, hrearranged () _ [es[1], es[0], es[2]] ?_ ?_ ?_⟩
  · exact .cons ⟨rfl, hkey 'a'⟩ (.cons ⟨rfl, hkey 'b'⟩ (.cons ⟨rfl, hkey 'b'⟩ .nil))
  · exact List.Perm.swap _ _ _
  · intro e he
    have hcases : e = es[0] ∨ e = es[1] ∨ e = es[2] := by simpa [es] using he
    rcases hcases with rfl | rfl | rfl <;> with_unfolding_all rfl

end Sink

end Itemwise
