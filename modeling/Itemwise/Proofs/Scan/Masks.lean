import Itemwise.Proofs.Scan.Lanes
import Mathlib.Data.Nat.Find

namespace Itemwise

/-!
# Exact masks

The mask of a finder has the high bits of the lanes whose bytes compare with the finder's as they
are to, and no other bit.

* `ByteTest.Holds` — how a byte compares that passes a test;
* `Lanes.IsMask.bit_iff`, `Lanes.IsMask.first_least` — the bits of a mask, and the first lane that
  it flags;
* `Finder.mask_exact` — the masks of all finders, and the first lane of several of them together.
-/

/-- How a byte that passes a test compares with the byte of the finder. -/
def ByteTest.Holds (x b : UInt8) : ByteTest → Prop
  | .eq => x = b
  | .ne => x ≠ b
  | .lt => x < b
  | .gt => x > b

namespace Finder

/-- A finder accepts an octet if its test holds for it. -/
theorem accepts_iff_holds (f : Finder) (x : UInt8) :
    f.accepts x.toNat = true ↔ f.test.Holds x f.byte := by
  obtain ⟨test, b⟩ := f
  cases test with
  | eq => simp only [accepts, ByteTest.Holds, beq_iff_eq, Int.natCast_inj, UInt8.toNat_inj]
  | ne => simp only [accepts, ByteTest.Holds, bne_iff_ne, ne_eq, Int.natCast_inj, UInt8.toNat_inj]
  | lt => simp [accepts, ByteTest.Holds, UInt8.lt_iff_toNat_lt]
  | gt => simp [accepts, ByteTest.Holds, UInt8.lt_iff_toNat_lt]

/-- One of some finders does if one of the tests holds. -/
theorem anyAccepts_iff_holds (fs : List Finder) (x : UInt8) :
    anyAccepts fs x.toNat = true ↔ ∃ f ∈ fs, f.test.Holds x f.byte := by
  simp only [anyAccepts, List.any_eq_true, accepts_iff_holds]

end Finder

namespace Lanes

variable {p : Nat → Bool} {m : UInt64}

/-- The bits of a mask, counted through the word. -/
theorem IsMask.bit_iff (h : IsMask p m) (i : Nat) :
    bit m i = true ↔ ∃ j < 8, i = 8 * j + 7 ∧ p j = true := by
  constructor
  · intro hi
    have hlt : i < 64 := by
      by_contra hle
      rw [bit_of_le m (Nat.not_lt.mp hle)] at hi
      cases hi
    have hbit := h (i / 8) (by omega) (i % 8) (by omega)
    rw [Nat.div_add_mod, hi] at hbit
    have hflagged : i % 8 = 7 ∧ p (i / 8) = true := by simpa using hbit.symm
    exact ⟨i / 8, by omega, by omega, hflagged.2⟩
  · rintro ⟨j, hj, rfl, hp⟩
    rw [h j hj 7 (by decide), hp]
    rfl

/-- If a mask is not zero, its first lane is flagged, and none below it is. -/
theorem IsMask.first_least (h : IsMask p m) (hne : m ≠ 0) :
    first m < 8 ∧ p (first m) = true ∧ ∀ i < first m, p i = false := by
  have hsome : ∃ j, j < 8 ∧ p j = true := by
    by_contra hnone
    exact hne (h.eq_zero_iff.mpr fun j hj => Bool.eq_false_iff.mpr fun hp => hnone ⟨j, hj, hp⟩)
  obtain ⟨hlt, hp⟩ := Nat.find_spec hsome
  have hlow (i : Nat) (hi : i < Nat.find hsome) : p i = false :=
    Bool.eq_false_iff.mpr fun hp => Nat.find_min hsome hi ⟨Nat.lt_trans hi hlt, hp⟩
  rw [first_eq h hlt hp hlow]
  exact ⟨hlt, hp, hlow⟩

end Lanes

namespace Finder

open Lanes (bit first ofBytes)

/-- **Masks are exact.** A bit of a finder's mask is set if and only if it is the high bit of a lane
    whose byte compares with the finder's byte as it is to, so what a mask has in a lane is told by
    the byte there alone.  If the masks of some finders together are not zero, their first lane is
    the lowest one that is flagged, and that is the first one with a byte that one of the finders is
    looking for.  The lanes of a word made of eight bytes hold them in their order. -/
theorem mask_exact (w : UInt64) :
    (∀ (f : Finder) (i : Nat),
        bit (f.wordMask w) i = true ↔ ∃ j < 8, i = 8 * j + 7 ∧
          f.test.Holds (Lanes.byte w j) f.byte) ∧
      (∀ (f : Finder) (w' : UInt64), ∀ j < 8, Lanes.byte w j = Lanes.byte w' j →
        ∀ k < 8, bit (f.wordMask w) (8 * j + k) = bit (f.wordMask w') (8 * j + k)) ∧
      (∀ fs : List Finder, anyMask fs w ≠ 0 →
        let j := first (anyMask fs w)
        j < 8 ∧ (bit (anyMask fs w) (8 * j + 7) = true ∧ ∃ f ∈ fs,
          f.test.Holds (Lanes.byte w j) f.byte) ∧
          ∀ i < j, bit (anyMask fs w) (8 * i + 7) = false ∧ ∀ f ∈ fs,
            ¬ f.test.Holds (Lanes.byte w i) f.byte) ∧
      ∀ bs : List UInt8, bs.length = 8 → w = ofBytes bs → ∀ j (hj : j < bs.length),
      Lanes.byte w j = bs[j] := by
  refine ⟨fun f i => ?_, fun f w' j hj hbyte k hk => ?_, fun fs hne => ?_, ?_⟩
  · rw [(f.isMask_wordMask w).bit_iff]
    simp only [accepts_iff_holds]
  · rw [f.isMask_wordMask w j hj k hk, f.isMask_wordMask w' j hj k hk]
    simp only [hbyte]
  · have hmask := isMask_anyMask fs w
    obtain ⟨hlt, hfirst, hlow⟩ := hmask.first_least hne
    refine ⟨hlt, ⟨?_, (anyAccepts_iff_holds fs _).mp hfirst⟩,
      fun i hi => ⟨?_, fun f hf hholds => ?_⟩⟩
    · exact (hmask.bit_iff _).mpr ⟨_, hlt, rfl, hfirst⟩
    · refine Bool.eq_false_iff.mpr fun hbit => ?_
      obtain ⟨j, -, hij, hp⟩ := (hmask.bit_iff _).mp hbit
      obtain rfl : i = j := by omega
      rw [hlow i hi] at hp
      cases hp
    · have haccepted := (anyAccepts_iff_holds fs _).mpr ⟨f, hf, hholds⟩
      rw [hlow i hi] at haccepted
      cases haccepted
  · rintro bs hbs rfl j hj
    exact Lanes.byte_ofBytes (Nat.le_of_eq hbs) hj

/-- At the bounds of a byte: nothing is above `0xff` or below zero, and the third byte here is the
    first below `0x80`. -/
theorem mask_exact_bounds :
    let w := ofBytes [0xff, 0x80, 0x7f, 0x81, 0x00, 0xfe, 0x90, 0xa0]
    let fs : List Finder := [⟨.gt, 0xff⟩, ⟨.lt, 0x00⟩, ⟨.lt, 0x80⟩]
    anyMask fs w ≠ 0 ∧ first (anyMask fs w) = 2 := by
  intro w fs
  have hne : anyMask fs w ≠ 0 := by decide
  obtain ⟨-, ⟨hbit, -⟩, hlow⟩ := (mask_exact w).2.2.1 fs hne
  have hset : bit (anyMask fs w) (8 * 2 + 7) = true := by decide
  have hclear : ∀ i < 2, bit (anyMask fs w) (8 * i + 7) = false := by decide
  refine ⟨hne, Nat.le_antisymm (Nat.not_lt.mp fun hlt => ?_) (Nat.not_lt.mp fun hlt => ?_)⟩
  · rw [(hlow 2 hlt).1] at hset
    cases hset
  · rw [hclear _ hlt] at hbit
    cases hbit

end Finder

end Itemwise
