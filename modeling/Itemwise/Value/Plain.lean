import Itemwise.Value.Basic
import Itemwise.Decimal.Digits
import Itemwise.Fault

namespace Itemwise

/-!
# Plain values

A **plain** value holds no container that a store keeps: everything it holds is a part of it.

* `Value.isPlain` — whether a value is plain;
* `Value.fill` — a value with something put in place of every container that it shares;
* `Value.fill_of_isPlain` — a plain value is not changed by that;
* `Value.isWithin` — whether the containers in a value are nested no deeper than a bound;
* `Value.checkWritten` — whether a value has a written form;
* `Value.checkCompared` — whether two values can be gone through side by side.
-/

namespace Value

mutual

/-- Whether everything that the value holds is a part of it. -/
def isPlain : Value → Bool
  | .list xs | .tuple xs | .set xs _ | .array _ xs => arePlain xs
  | .dict es => entriesArePlain es
  | .shared _ => false
  | _ => true

/-- Whether all values of a list are plain. -/
def arePlain : List Value → Bool
  | [] => true
  | x :: xs => isPlain x && arePlain xs

/-- Whether the keys and the values of all entries are plain. -/
def entriesArePlain : List (Value × Value) → Bool
  | [] => true
  | (k, v) :: es => isPlain k && isPlain v && entriesArePlain es

end

mutual

/-- The value with `look p` in place of the container at every place `p` that it shares. -/
def fill (look : Nat → Value) : Value → Value
  | .list xs => .list (fillAll look xs [])
  | .tuple xs => .tuple (fillAll look xs [])
  | .set xs spots => .set (fillAll look xs []) spots
  | .array capacity xs => .array capacity (fillAll look xs [])
  | .dict es => .dict (fillEntries look es [])
  | .shared p => look p
  | v => v

/-- The values of a list filled in, behind those already done, which are in reverse order. -/
def fillAll (look : Nat → Value) : List Value → (done : List Value) → List Value
  | [], done => done.reverse
  | x :: xs, done => fillAll look xs (fill look x :: done)

/-- The entries of a dictionary filled in, behind those already done, which are in reverse order. -/
def fillEntries (look : Nat → Value) :
    List (Value × Value) → (done : List (Value × Value)) → List (Value × Value)
  | [], done => done.reverse
  | (k, v) :: es, done => fillEntries look es ((fill look k, fill look v) :: done)

end

mutual

/-- A plain value holds no place that could be filled. -/
theorem fill_of_isPlain (look : Nat → Value) : ∀ v : Value, v.isPlain = true → fill look v = v
  | .list xs, h => by simp [fill, fillAll_of_arePlain look xs [] (by simpa [isPlain] using h)]
  | .tuple xs, h => by simp [fill, fillAll_of_arePlain look xs [] (by simpa [isPlain] using h)]
  | .set xs _, h => by simp [fill, fillAll_of_arePlain look xs [] (by simpa [isPlain] using h)]
  | .array _ xs, h => by simp [fill, fillAll_of_arePlain look xs [] (by simpa [isPlain] using h)]
  | .dict es, h => by simp [fill, fillEntries_of_plain look es [] (by simpa [isPlain] using h)]
  | .shared _, h => by simp [isPlain] at h
  | .null, _ | .bool _, _ | .int _, _ | .float _, _ | .text _, _ | .octets _ _, _ | .span _, _
  | .version _, _ | .line _, _ | .operator _ _, _ => rfl

/-- The same for the items of a list, behind those that are done. -/
theorem fillAll_of_arePlain (look : Nat → Value) :
    ∀ (xs done : List Value), arePlain xs = true → fillAll look xs done = done.reverse ++ xs
  | [], done, _ => by simp [fillAll]
  | x :: xs, done, h => by
    simp only [arePlain, Bool.and_eq_true] at h
    simp [fillAll, fill_of_isPlain look x h.1, fillAll_of_arePlain look xs _ h.2]

/-- The same for the entries of a dictionary. -/
theorem fillEntries_of_plain (look : Nat → Value) :
    ∀ es done : List (Value × Value), entriesArePlain es = true →
      fillEntries look es done = done.reverse ++ es
  | [], done, _ => by simp [fillEntries]
  | (k, v) :: es, done, h => by
    simp only [entriesArePlain, Bool.and_eq_true] at h
    simp [fillEntries, fill_of_isPlain look k h.1.1, fill_of_isPlain look v h.1.2,
      fillEntries_of_plain look es _ h.2]

end

/-! ### Written forms -/

mutual

/-- Whether the containers in a value are nested at most `levels` deep. -/
def isWithin (levels : Nat) : Value → Bool
  | .list xs | .tuple xs | .set xs _ | .array _ xs =>
    match levels with
    | 0 => false
    | levels + 1 => areWithin levels xs
  | .dict es =>
    match levels with
    | 0 => false
    | levels + 1 => entriesAreWithin levels es
  | _ => true

/-- Whether this holds of all values of a list. -/
def areWithin (levels : Nat) : List Value → Bool
  | [] => true
  | x :: xs => isWithin levels x && areWithin levels xs

/-- Whether this holds of the keys and the values of all entries. -/
def entriesAreWithin (levels : Nat) : List (Value × Value) → Bool
  | [] => true
  | (k, v) :: es => isWithin levels k && isWithin levels v && entriesAreWithin levels es

end

/-- How deeply containers can be nested in a value that is written out or compared with another. -/
def readableLevels : Nat := 985

/-- Checks that an integer has no more digits than can be written. -/
def checkDigits (n : Int) : Except Fault Unit :=
  if Decimal.isWithinLimit n then .ok () else .error .badValue

mutual

/-- Checks that the integers of a value have no more digits than can be written. -/
def checkNumbers : Value → Except Fault Unit
  | .int n => checkDigits n
  | .version v => do
    checkDigits v.major
    checkDigits v.minor
    checkDigits v.patch
  | .list xs | .tuple xs | .set xs _ | .array _ xs => checkAllNumbers xs
  | .dict es => checkEntryNumbers es
  | _ => .ok ()

/-- Checks the integers of all values of a list. -/
def checkAllNumbers : List Value → Except Fault Unit
  | [] => .ok ()
  | x :: xs =>
    match checkNumbers x with
    | .ok _ => checkAllNumbers xs
    | .error f => .error f

/-- Checks the integers of the keys and the values of all entries. -/
def checkEntryNumbers : List (Value × Value) → Except Fault Unit
  | [] => .ok ()
  | (k, v) :: es =>
    match checkNumbers k, checkNumbers v with
    | .error f, _ => .error f
    | _, .error f => .error f
    | .ok _, .ok _ => checkEntryNumbers es

end

/-- Checks that the value has a written form: it is not nested too deeply, and its integers have no
    more digits than can be written.  Where a container holds itself, dots are written. -/
def checkWritten (v : Value) : Except Fault Unit :=
  if v.isWithin readableLevels then v.checkNumbers else .error .endless

/-- Checks that two values are not both nested too deeply to be compared. -/
def checkCompared (v w : Value) : Except Fault Unit :=
  if v.isWithin readableLevels || w.isWithin readableLevels then .ok () else .error .endless

end Value

end Itemwise
