import Itemwise.Value.Equality

namespace Itemwise

/-!
# Fingerprints

A fingerprint is a word that equal values have in common, so that values can be looked for among
those with the same fingerprint.

* `Value.fingerprint` — the fingerprint of a value;
* `Value.fingerprint_eq_of_eqv`, `Value.fingerprint_eq_of_same` — equal values have the same one,
  and so has what is the same for a container.
-/

/-- The fingerprint of a number: that of the integer below it, and of the one below a multiple of
    it. -/
def Binary64.fingerprint (x : Binary64) : UInt64 :=
  mixHash (hash x.floor?) (hash (x.scaled 52).floor?)

/-- Equal numbers have one fingerprint, whatever types they are of. -/
theorem Binary64.fingerprint_eq_of_compare {x y : Binary64} (h : compare x y = some .eq) :
    x.fingerprint = y.fingerprint := by
  unfold fingerprint
  rw [floor?_eq_of_compare h, floor?_eq_of_compare ((compare_scaled 52 x y).trans h)]

namespace Value

mutual

/-- The fingerprint of a value. -/
def fingerprint : Value → UInt64
  | .null => 1
  | .bool b => Binary64.fingerprint (.ofInt (if b then 1 else 0))
  | .int n => Binary64.fingerprint (.ofInt n)
  | .float x => Binary64.fingerprint (.ofFloat x.number)
  | .text cs => cs.foldl (fun h c => mixHash h c.val.toUInt64) 3
  | .octets _ bs => bs.foldl (fun h b => mixHash h b.toUInt64) 4
  | .list xs | .tuple xs | .array _ xs => fingerprints xs
  | .dict es => mixHash 5 (hash es.length)
  | .set xs _ => mixHash 6 (hash xs.length)
  | .span s => mixHash (hash s.start) (hash s.stop)
  | .version v => mixHash 7 (hash v.preRelease.length)
  | .line l => mixHash 8 (hash l.name.length)
  | .operator _ i => mixHash 9 (hash i)
  | .shared p => mixHash 10 (hash p)

/-- The fingerprint of a list of values. -/
def fingerprints : List Value → UInt64
  | [] => 11
  | x :: xs => mixHash (fingerprint x) (fingerprints xs)

end

/-- A numeric value has the fingerprint of its number. -/
theorem fingerprint_of_number {v : Value} {x : Binary64} (h : v.number? = some x) :
    v.fingerprint = x.fingerprint := by
  cases v <;> simp_all [number?, fingerprint]

/-- What equals a number is a number that compares equal. -/
theorem compare_of_eqv {v w : Value} {x : Binary64} (hv : v.number? = some x) (h : v.eqv w = true) :
    ∃ y, w.number? = some y ∧ Binary64.compare x y = some .eq := by
  cases v <;> cases w <;> simp_all [eqv, number?]
  subst hv
  simp [Binary64.compare_ofInt]

/-- All floats that are not numbers have one fingerprint. -/
theorem fingerprint_eq_of_isOneNaN {v w : Value} (h : isOneNaN v w = true) :
    v.fingerprint = w.fingerprint := by
  cases v <;> cases w <;> simp_all [isOneNaN, fingerprint]

mutual

/-- Equal values have the same fingerprint. -/
theorem fingerprint_eq_of_eqv : ∀ v w : Value, v.eqv w = true → v.fingerprint = w.fingerprint
  | .list xs, w, h | .tuple xs, w, h | .array _ xs, w, h => by
    cases w <;> simp_all [eqv, number?, fingerprint]
    all_goals exact fingerprints_eq_of_eqvAll xs _ h
  | .bool _, w, h | .int _, w, h | .float _, w, h => by
    obtain ⟨y, hy, same⟩ := compare_of_eqv (by rfl) h
    rw [fingerprint_of_number hy]
    exact Binary64.fingerprint_eq_of_compare same
  | .null, w, h | .text _, w, h | .octets .., w, h | .dict _, w, h | .set .., w, h
  | .span _, w, h | .version _, w, h
  | .line _, w, h | .operator .., w, h | .shared _, w, h => by
    cases w <;> simp_all [eqv, number?, fingerprint]

/-- Equal lists have the same fingerprints, item by item. -/
theorem fingerprints_eq_of_eqvAll :
    ∀ xs ys : List Value, eqvAll xs ys = true → fingerprints xs = fingerprints ys
  | [], [], _ => rfl
  | x :: xs, y :: ys, h => by
    simp only [eqvAll, Bool.and_eq_true, Bool.or_eq_true] at h
    have hitem := h.1.elim fingerprint_eq_of_isOneNaN (fingerprint_eq_of_eqv x y)
    simp [fingerprints, hitem, fingerprints_eq_of_eqvAll xs ys h.2]
  | [], _ :: _, h | _ :: _, [], h => by simp [eqvAll] at h

end

/-- **The same value has one fingerprint**, so a key is found among those with its fingerprint. -/
theorem fingerprint_eq_of_same {v w : Value} (h : v.same w = true) :
    v.fingerprint = w.fingerprint := by
  rw [same, Bool.or_eq_true] at h
  exact h.elim fingerprint_eq_of_isOneNaN (fingerprint_eq_of_eqv v w)

end Value

end Itemwise
