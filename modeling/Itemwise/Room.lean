import Itemwise.Fault

namespace Itemwise

/-!
# Room for items

Sequences are counted in machine words, and no more items are ever asked for than there can be room
for.

* `Room.count` — a number as a count of items;
* `Room.mostItems` — the items that an allocator has room for;
* `Room.check` — whether there is room for some number of items.
-/

namespace Room

/-- The first count that a machine word does not hold. -/
def wordBound : Nat := Nat.pow 2 63

/-- The most items that there is room for.

    An item takes eight octets of a sequence, and octets are counted in machine words as well, so
    2^60 items are refused on any machine.  Which sizes below that are refused is up to the
    allocator; it is taken to be one that gives 64 GiB to a sequence, which is more than a machine
    that runs parsers has to spare.  The results depend on no number: what they use of it is that a
    machine word holds it, `mostItems_lt_wordBound`. -/
def mostItems : Nat := Nat.pow 2 33

/-- A machine word holds the most items that there is room for. -/
theorem mostItems_lt_wordBound : mostItems < wordBound := by decide

/-- A number as a count: none for a negative one, and refused if a machine word does not hold it. -/
def count (n : Int) : Except Fault Nat :=
  if -(wordBound : Int) ≤ n ∧ n < wordBound then .ok n.toNat else .error .tooLarge

/-- Checks that there is room for `size` items; `tooMany` is the fault of a size beyond a machine
    word. -/
def check (tooMany : Fault) (size : Nat) : Except Fault Unit :=
  if size ≥ wordBound then .error tooMany
  else if size > mostItems then .error .outOfMemory
  else .ok ()

/-- A number that a machine word holds is the count that it is. -/
theorem count_natCast {n : Nat} (h : n < wordBound) : count n = .ok n := by
  have h1 : -(wordBound : Int) ≤ (n : Int) := by omega
  have h2 : (n : Int) < wordBound := by omega
  simp [count, h1, h2]

end Room

end Itemwise
