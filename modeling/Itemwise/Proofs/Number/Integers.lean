import Itemwise.Proofs.Number.Digits
import Itemwise.Proofs.Run.Unfolding

namespace Itemwise

/-!
# Integers

An integer is read off its sign and its digits, however many there are and however they are given.

* `bounded` — the outcome of a number that may have to fit a type;
* `Leaf.integer_eq` — the outcome of an integer parser from the sign and the digits that stand
  there;
* `Parser.run_integer_spelled` — every number is read back from its decimal digits.
-/

/-! ### Outcomes -/

/-- The outcome of a number from `start` to `stop` with the value `v` whose integer `n` may have to
    fit a type. -/
def bounded (n : Int) (v : Value) (start stop : Nat) (kind : Option IntKind) : Outcome Value :=
  if kind.all (·.fits n) then .success v stop else .failure start

/-- Without a kind, every integer is in range. -/
@[simp] theorem bounded_none (n : Int) (v : Value) (start stop : Nat) :
    bounded n v start stop none = .success v stop :=
  rfl

namespace Leaf

variable {items : Items} {c : Context} {look : Value → Value} {signed negative : Bool}
  {ds : List Char}
variable {vs rest : List Value}

/-- A number lies within the input. -/
theorem le_size_of_digitRun {isMinus : Value → Prop} {pos : Nat}
    (hsign : Sign isMinus signed negative (items.toList.drop pos) vs) (hrun : DigitRun ds vs rest)
    (hds : ds ≠ []) :
    pos + (signText negative ++ ds).length + rest.length = items.size := by
  have hsigned := hsign.length_eq
  have hdigits := hrun.length_eq
  have hpos := List.length_pos_iff.mpr hds
  have htext : (signText negative).length = if negative then 1 else 0 := by cases negative <;> rfl
  rw [List.length_drop, Items.length_toList] at hsigned
  rw [List.length_append, htext]
  omega

/-- **The outcome of an integer parser.** It is past the digits that stand there if there are any
    and their value fits, and fails where it started otherwise. -/
theorem integer_eq (hitems : c.items = .sequence items) (kind : Option IntKind)
    (hsign : Sign (IsMinus look) signed negative (items.toList.drop c.pos) vs)
    (hrun : DigitRun ds vs rest) :
    integer signed kind look c =
      .ok (if ds = [] then .failure c.pos
        else bounded (signedValue negative ds) (.int (signedValue negative ds)) c.pos
          (c.pos + (signText negative ++ ds).length) kind) := by
  unfold integer
  rw [hitems, numeral?_eq kind hsign hrun, Step.ok_bind]
  by_cases hds : ds = []
  · rw [if_pos hds, if_pos hds]
    rfl
  · rw [if_neg hds, if_neg hds, bounded]
    by_cases hfits : kind.all (·.fits (signedValue negative ds)) = true
    · have hle : c.pos + (signText negative ++ ds).length ≤ c.items.size := by
        have hsize := le_size_of_digitRun hsign hrun hds
        rw [hitems, Input.size_sequence]
        omega
      rw [if_pos hfits, if_pos hfits]
      show accept c (.int (numeralOf negative ds).value) (c.pos + (numeralOf negative ds).width) = _
      rw [value_numeralOf, width_numeralOf, accept_of_le _ hle]
    · rw [if_neg hfits, if_neg hfits]
      rfl

/-- A minus sign is an item of its code, however the item is looked at. -/
theorem isMinus_iff {look : Value → Value} (hlook : ∀ v : Value, v.isPlain = true → look v = v)
    {n : Int} {v : Value} (hv : Value.IsItemOf n v) :
    IsMinus look v ↔ Value.IsItemOf '-'.toNat v := by
  unfold IsMinus
  rw [hlook v hv.isPlain]
  exact Value.isMember_forms_iff (by decide) hv

/-- A digit is no minus sign. -/
theorem not_isMinus_of_isDigit {look : Value → Value}
    (hlook : ∀ v : Value, v.isPlain = true → look v = v) {v : Value} (hv : v.IsDigit) :
    ¬ IsMinus look v := by
  obtain ⟨d, hd, hitem⟩ := hv
  rw [isMinus_iff hlook hitem]
  intro hminus
  have hbounds := Decimal.toNat_bounds hd
  have hcode : (d.toNat : Int) = '-'.toNat := hitem.unique hminus
  have hdash : '-'.toNat = 45 := rfl
  omega

end Leaf

/-! ### Numbers read back -/

namespace Parser

open Leaf Value

variable {σ : Type} [Memory σ] (setting : Setting σ) {c : Context} {items : Items}

/-- **A number is read back from its decimal digits**, whatever items they are given as, with any
    zeros in front and whatever comes after the last of them, and its negative from the same digits
    behind a minus sign.  Where no digit stands, not even behind a minus sign, there is a failure at
    the start. -/
theorem run_integer_spelled (hitems : c.items = .sequence items) (s : σ) :
    (∀ (n zeros : Nat) (us rest : List Value),
      Spelled (List.replicate zeros '0' ++ Decimal.ofNat n) us → NoDigit rest →
      (items.toList.drop c.pos = us ++ rest → ∀ signed,
        (Parser.integer signed none).run setting c s =
          .ok (.success (.int n) (c.pos + us.length)) s) ∧
      (∀ m, IsItemOf '-'.toNat m → items.toList.drop c.pos = m :: (us ++ rest) →
        (Parser.integer true none).run setting c s =
          .ok (.success (.int (-n)) (c.pos + 1 + us.length)) s)) ∧
    (NoDigit (items.toList.drop c.pos) →
      (Parser.integer false none).run setting c s = .ok (.failure c.pos) s ∧
      ((∀ m rest, items.toList.drop c.pos = m :: rest → IsMinus (Memory.whole s) m → NoDigit rest) →
        (Parser.integer true none).run setting c s = .ok (.failure c.pos) s)) := by
  have hlook := Memory.whole_of_isPlain s
  have hrun_eq (signed : Bool) : (Parser.integer signed none).run setting c s =
      (Action.ofExcept (Leaf.integer signed none (Memory.whole s) c) : Action σ _) s :=
        run_leaf setting rfl c s
  constructor
  · intro n zeros us rest hus hrest
    have hdigits := digitRun_of_spelled
      (fun c hc => Decimal.isDigit_of_mem_zeros_append hc) hus hrest
    have hne : List.replicate zeros '0' ++ Decimal.ofNat n ≠ [] :=
      fun h => Decimal.ofNat_ne_nil n (List.append_eq_nil_iff.mp h).2
    have hvalue : Decimal.toNat (List.replicate zeros '0' ++ Decimal.ofNat n) = n := by
      rw [Decimal.toNat_zeros_append, Decimal.toNat_ofNat]
    constructor
    · intro hdrop signed
      -- the first digit is no minus sign
      have hsign : Sign (IsMinus (Memory.whole s)) signed false (items.toList.drop c.pos)
          (us ++ rest) := by
        rw [hdrop]
        refine .plain fun _ v hv => not_isMinus_of_isDigit hlook ?_
        obtain ⟨w, hw, hdigit⟩ := hdigits.isDigit_head hne
        rwa [Option.mem_unique hv hw]
      rw [hrun_eq, integer_eq hitems none hsign hdigits, if_neg hne, bounded_none]
      rw [signedValue_false, hvalue, signText_false, List.nil_append, hus.length_eq]
      rfl
    · intro m hm hdrop
      have hsign : Sign (IsMinus (Memory.whole s)) true true (items.toList.drop c.pos)
          (us ++ rest) := by
        rw [hdrop]
        exact .minus rfl ((isMinus_iff hlook hm).mpr hm)
      rw [hrun_eq, integer_eq hitems none hsign hdigits, if_neg hne, bounded_none]
      rw [signedValue_true, hvalue, signText_true, List.singleton_append, List.length_cons,
        hus.length_eq, Nat.add_assoc, Nat.add_comm 1]
      rfl
  · intro hfirst
    -- no digits stand where none is first
    have hfails (signed : Bool) {negative : Bool} {vs : List Value}
        (hsign : Sign (IsMinus (Memory.whole s)) signed negative (items.toList.drop c.pos) vs)
        (hvs : NoDigit vs) :
        (Parser.integer signed none).run setting c s = .ok (.failure c.pos) s := by
      rw [hrun_eq, integer_eq hitems none hsign (.stop hvs), if_pos rfl]
      rfl
    refine ⟨hfails false (.plain nofun) hfirst, fun hsecond => ?_⟩
    obtain ⟨negative, vs, hsign⟩ :=
      exists_sign (IsMinus (Memory.whole s)) true (items.toList.drop c.pos)
    refine hfails true hsign ?_
    generalize hdrop : items.toList.drop c.pos = us at hsign hfirst hsecond
    cases hsign with
    | minus _ hminus => exact hsecond _ _ rfl hminus
    | plain => exact hfirst

/-- A number in a list whose items are of all forms, behind other items and before others. -/
theorem run_integer_spelled_mixed :
    (Parser.integer true none).run brackets
        ⟨.sequence (.list #[.null, .ofChar '-', .int 0x30, .octets .fixed [0x34], .ofChar '2',
          .null]), 1, 0, { levels := 50 }⟩ () =
      .ok (.success (.int (-42)) 5) () := by
  have hspelled : Spelled (List.replicate 1 '0' ++ Decimal.ofNat 42)
      [.int 0x30, .octets .fixed [0x34], .ofChar '2'] :=
    .cons (.code 0x30) (.cons (.octet 0x34) (.cons (.char '2') .nil))
  have hstop : NoDigit [.null] := by
    rintro v hv ⟨c, -, hitem⟩
    obtain rfl := Option.mem_some_iff.mp hv
    generalize (c.toNat : Int) = n at hitem
    cases hitem
  exact ((run_integer_spelled brackets rfl ()).1 42 1 _ _ hspelled hstop).2 (.ofChar '-')
    (.char '-') rfl

end Parser

end Itemwise
