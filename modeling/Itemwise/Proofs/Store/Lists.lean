import Itemwise.Store.Change

namespace Itemwise.Store

/-!
# Lists in a store

* `change_list` — a change that a list admits is the change of that list alone;
* `append_list`, `setFirst_list` — a list with an item more, and with another first item;
* `item_list` — an item of a list.
-/

variable {store : Store} {p : Nat} {xs : Array Value}

/-- A change that a list admits, is the change of that list alone. -/
theorem change_list (hlist : store.containers[p]? = some (.list xs)) {refusal : Fault}
    {check : Container → Except Fault Unit} (hcheck : check (.list xs) = .ok ())
    (f : Container → Container) :
    change (.shared p) refusal check f store =
      .ok () { store with containers := store.containers.setIfInBounds p (f (.list xs)) } := by
  have hcontainer : store.container? (.shared p) = some (.list xs) := hlist
  have hmodify : store.containers.modify p f = store.containers.setIfInBounds p (f (.list xs)) := by
    refine Array.ext_getElem? fun i => ?_
    rw [Array.getElem?_modify, Array.getElem?_setIfInBounds]
    by_cases hi : p = i
    · subst hi
      simp only [if_true, hlist, (Array.getElem?_eq_some_iff.mp hlist).1]
      rfl
    · rw [if_neg hi, if_neg hi]
  rw [change, hcontainer, Option.elim_some, hcheck, hmodify]

/-- A further item of a list is the change of that list alone. -/
theorem append_list (hlist : store.containers[p]? = some (.list xs)) (v : Value) :
    append (.shared p) v store =
      .ok () { store with containers := store.containers.setIfInBounds p (.list (xs.push v)) } :=
  change_list hlist rfl _

/-- So is another item in its first place, if there is one. -/
theorem setFirst_list (hlist : store.containers[p]? = some (.list xs))
    (hsize : 0 < xs.size) (v : Value) :
    setFirst (.shared p) v store =
      .ok () { store with
        containers := store.containers.setIfInBounds p (.list (xs.setIfInBounds 0 v)) } := by
  refine change_list hlist ?_ _
  rw [Container.checkFirst, if_neg (by rw [Array.isEmpty_iff_size_eq_zero]; omega)]

/-- The item of a list in the store at a place that it has. -/
theorem item_list (hlist : store.containers[p]? = some (.list xs)) {i : Nat} {v : Value}
    (hv : xs[i]? = some v) :
    item (.shared p) i store = .ok v store := by
  have hcontainer : store.container? (.shared p) = some (.list xs) := hlist
  have hi : i < xs.size := (Array.getElem?_eq_some_iff.mp hv).1
  have hindex : Slice.index? xs.size (i : Int) = some i := by
    have hnonneg : ¬ (i : Int) < 0 := by omega
    simp [Slice.index?, hnonneg, hi]
  have hitem : (Container.list xs).item i = .ok v := by
    rw [Container.item, hindex, Option.bind_some, hv]
    rfl
  rw [item, hcontainer, Option.elim_some, hitem]

end Itemwise.Store
