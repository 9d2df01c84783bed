import Itemwise.Value.Dict
import Itemwise.Value.Fingerprint
import Std.Data.HashMap

namespace Itemwise

/-!
# Dictionaries that are being collected

A dictionary is collected pair by pair.  A key is looked for only among those with the same
fingerprint.

* `Dict.Draft` — the entries so far, with the places of their keys by fingerprint;
* `Dict.Draft.place?` — the place of a key;
* `Dict.Draft.insert`, `Dict.Draft.push` — a further key with its value, or a further pair;
* `Dict.ofEntries` — the dictionary of a list of pairs.

A draft is the dictionary of its entries: `Draft.toDict_insert`, `Draft.toDict_push`.
-/

namespace Dict

/-- A key that is not there comes behind the entries. -/
theorem insert_of_absent {k v : Value} {es : Dict} (h : ∀ e ∈ es, e.1.same k = false) :
    insert k v es = es ++ [(k, v)] := by
  induction es with
  | nil => rfl
  | cons e es ih =>
    simp only [List.mem_cons, forall_eq_or_imp] at h
    simp [insert, h.1, ih h.2]

/-- A key that is there takes the new value in the place where it is first. -/
theorem insert_of_first {k v : Value} {es : Dict} {i : Nat} (hi : i < es.length)
    (here : es[i].1.same k = true) (before : ∀ j (h : j < i), es[j].1.same k = false) :
    insert k v es = es.set i (es[i].1, v) := by
  induction es generalizing i with
  | nil => simp at hi
  | cons e es ih =>
    cases i with
    | zero => simp_all [insert]
    | succ i =>
      have first := before 0 (by omega)
      simp only [List.getElem_cons_zero] at first
      simp only [insert, first, Bool.false_eq_true, if_false, List.set_cons_succ,
        List.getElem_cons_succ, List.cons.injEq, true_and]
      exact ih (by simpa using hi) (by simpa using here)
        fun j h => by simpa using before (j + 1) (by omega)

/-- The entries so far, and for each fingerprint the places of the keys that have it. -/
structure Draft where
  entries : Array (Value × Value)
  places : Std.HashMap UInt64 (List Nat)
  mem_places : ∀ i e, entries[i]? = some e → i ∈ places.getD e.1.fingerprint []

namespace Draft

/-- An empty draft has nothing that could be missing from its places. -/
theorem mem_places_empty (i : Nat) (e : Value × Value)
    (h : (#[] : Array (Value × Value))[i]? = some e) :
    i ∈ (∅ : Std.HashMap UInt64 (List Nat)).getD e.1.fingerprint [] := by
  simp at h

/-- The draft without entries. -/
def empty : Draft := ⟨#[], ∅, mem_places_empty⟩

/-- The dictionary of the entries. -/
def toDict (d : Draft) : Dict := d.entries.toList

/-- The first place with the key `k`. -/
def place? (d : Draft) (k : Value) : Option Nat :=
  ((d.places.getD k.fingerprint []).filter fun i => (d.entries[i]?).any fun e => e.1.same k).min?

/-- The place that is found for a key is the first one that has it. -/
theorem place?_eq_some {d : Draft} {k : Value} {i : Nat} (h : d.place? k = some i) :
    (∃ e, d.entries[i]? = some e ∧ e.1.same k = true) ∧
      ∀ j < i, ∀ e, d.entries[j]? = some e → e.1.same k = false := by
  obtain ⟨here, least⟩ := List.min?_eq_some_iff.mp h
  refine ⟨by simpa [Option.any_eq_true] using (List.mem_filter.mp here).2, fun j hj e he => ?_⟩
  refine Bool.eq_false_iff.mpr fun same =>
    Nat.not_le.mpr hj (least j (List.mem_filter.mpr ⟨?_, by simp [he, same]⟩))
  rw [← Value.fingerprint_eq_of_same same]
  exact d.mem_places j e he

/-- If no place is found, no entry has the key. -/
theorem place?_eq_none {d : Draft} {k : Value} (h : d.place? k = none) {i : Nat} {e : Value × Value}
    (he : d.entries[i]? = some e) : e.1.same k = false := by
  refine Bool.eq_false_iff.mpr fun same => ?_
  have empty := List.min?_eq_none_iff.mp h
  have there : i ∈ d.places.getD k.fingerprint [] := by
    rw [← Value.fingerprint_eq_of_same same]
    exact d.mem_places i e he
  simpa [he, same] using List.filter_eq_nil_iff.mp empty i there

/-- The entries with the value at a place set. -/
def setAt (d : Draft) (i : Nat) (v : Value) : Draft where
  entries := d.entries.modify i fun e => (e.1, v)
  places := d.places
  mem_places := by
    intro j e he
    rw [Array.getElem?_modify] at he
    split at he
    · obtain ⟨f, hf, rfl⟩ := Option.map_eq_some_iff.mp he
      exact d.mem_places j f hf
    · exact d.mem_places j e he

/-- The entries with a further one. -/
def append (d : Draft) (e : Value × Value) : Draft where
  entries := d.entries.push e
  places := d.places.insert e.1.fingerprint (d.entries.size :: d.places.getD e.1.fingerprint [])
  mem_places := by
    intro i f h
    rw [Std.HashMap.getD_insert]
    rw [Array.getElem?_push] at h
    split at h
    · grind
    · have := d.mem_places i f h
      grind

/-- The entries with the value of a key set. -/
def insert (d : Draft) (k v : Value) : Draft :=
  match d.place? k with
  | some i => d.setAt i v
  | none => d.append (k, v)

/-- A draft takes a key with its value as the dictionary of its entries does. -/
theorem toDict_insert (d : Draft) (k v : Value) : (d.insert k v).toDict = d.toDict.insert k v := by
  unfold insert
  split
  next i hi =>
    obtain ⟨⟨e, he, here⟩, before⟩ := place?_eq_some hi
    have bound : i < d.entries.size := by grind
    have entry : d.entries[i] = e := by grind
    rw [insert_of_first (i := i) (by simpa [toDict] using bound)]
    · apply List.ext_getElem?
      intro j
      simp only [toDict, setAt, Array.getElem?_toList, Array.getElem?_modify, List.getElem?_set,
        Array.getElem_toList, Array.length_toList]
      grind
    · simpa [toDict, entry] using here
    · intro j hj
      exact before j hj _ (by simp [toDict])
  next h =>
    rw [insert_of_absent]
    · simp [toDict, append]
    · intro e he
      obtain ⟨i, hi⟩ := List.mem_iff_getElem?.mp he
      exact place?_eq_none h (by simpa [toDict] using hi)

/-- The entries with a further pair; its first item has to be fit as a key. -/
def push (d : Draft) (x : Value) : Except Fault Draft := do
  let (k, v) ← pair x
  if k.isKey then pure (d.insert k v) else throw .wrongKind

/-- A draft takes a pair as the dictionary of its entries does. -/
theorem toDict_push (d : Draft) (x : Value) : toDict <$> d.push x = d.toDict.push x := by
  unfold push Dict.push
  cases pair x with
  | error f => rfl
  | ok e =>
    simp only [bind, Except.bind]
    split
    · exact congrArg Except.ok (toDict_insert d e.1 e.2)
    · rfl

/-- A draft that pairs are inserted into is the dictionary that they are inserted into. -/
theorem toDict_foldl_insert (es : List (Value × Value)) (d : Draft) :
    (es.foldl (fun d e => d.insert e.1 e.2) d).toDict =
      es.foldl (fun d e => d.insert e.1 e.2) d.toDict := by
  induction es generalizing d with
  | nil => rfl
  | cons e es ih => simp [ih, toDict_insert]

end Draft

/-- The dictionary of a list of pairs, for keys of which all are fit. -/
def ofEntries (es : List (Value × Value)) : Dict :=
  (es.foldl (fun d e => d.insert e.1 e.2) Draft.empty).toDict

/-- The pairs are inserted one after the other. -/
theorem ofEntries_eq_foldl (es : List (Value × Value)) :
    ofEntries es = es.foldl (fun (d : Dict) e => d.insert e.1 e.2) [] :=
  Draft.toDict_foldl_insert es .empty

end Dict

end Itemwise
