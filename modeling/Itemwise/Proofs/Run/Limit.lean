import Itemwise.Parser.Parse
import Itemwise.Proofs.Run.Nesting

namespace Itemwise

/-!
# Limits of nesting

A limit has a say in a run only where it is reached, and then the run ends: no parser turns that
fault into an outcome.

* `Parser.IgnoresLimit` — no step of a caller looks at the limit;
* `Coupling.limited` — two runs under limits of which the second is no lower;
* `Parser.parse_higherLimit` — raising the limit never changes what a parse comes to.
-/

/-- A step of the caller's own does the same under any limit. -/
def Parser.IgnoresLimit {σ : Type} : Parser σ → Prop
  | .raw run _ => ∀ c l, run { c with limit := l } = run c
  | _ => True

/-! ### Two limits -/

namespace Coupling

/-- The second run has a limit that is no lower, and whatever it does once the first has reached its
    own will do. -/
def limited : Coupling := Abreast.coupling {
  shared _ := True
  excused f := ∃ v, f = .depthExceeded v
  meets c c' := c.limit.isNumber = true ∧ ∃ l : Limit, c.limit.levels ≤ l.levels ∧
  c' = { c with limit := l }
  value v v' := v = v'
  endless := trivial
  null := rfl
  pos_eq := by
    rintro c _ ⟨-, l, -, rfl⟩
    rfl
  moveTo := by
    rintro c _ q ⟨hnumber, l, hl, rfl⟩
    exact ⟨hnumber, l, hl, rfl⟩
  rounds := by
    rintro c _ ⟨-, l, -, rfl⟩
    rfl
  slice := by
    rintro c _ q ⟨-, l, -, rfl⟩
    exact Tolerance.agree_refl (fun _ => rfl) (fun _ => trivial) _
  blanks := by
    rintro c _ ⟨-, l, -, rfl⟩
    exact Tolerance.agree_refl (fun _ => rfl) (fun _ => trivial) _ }

/-- Runs under a lower and a higher limit stay alike where they enter recursive parsers. -/
theorem nests_limited : limited.Nests where
  enter := by
    rintro c _ ⟨hnumber, l, hl, rfl⟩
    exact ⟨hnumber, l, hl, rfl⟩
  reaches_enter h := h
  fails_enter h := h
  limits := by
    refine .inr ?_
    rintro c _ ⟨hnumber, l, hl, rfl⟩
    exact ⟨rfl, hl, c.limit.written, if_pos hnumber⟩

/-- What does not look at the limit does the same in both runs. -/
theorem steps_limited {σ : Type} {p : Step σ} (h : ∀ c l, p { c with limit := l } = p c) :
    limited.Steps p p := by
  rintro c _ ⟨-, l, -, rfl⟩
  rw [h c l]
  exact Tolerance.together_refl (Abreast.ends_self fun _ => rfl) (fun _ => trivial) _

/-- Leaves do not look at the limit. -/
theorem leaf?_limit {σ : Type} {p : Parser σ} {l : (Value → Value) → Leaf} (h : p.leaf? = some l)
    (look : Value → Value) (c : Context) (limit : Limit) :
    l look { c with limit := limit } = l look c := by
  cases p <;> cases h <;> rfl

variable {σ : Type} [Memory σ] {setting : Setting σ}

/-- Parsers that ignore the limit stay in step in all that they do not do by way of their parts. -/
theorem covers_limited (hsetting : setting.Each Parser.IgnoresLimit)
    {next next' : Parser σ → Step σ}
    (hnext : ∀ p, p.Each Parser.IgnoresLimit → limited.Steps (next p) (next' p)) :
    limited.Covers Parser.IgnoresLimit setting next next' := by
  refine Covers.ofSame (fun _ _ => Iff.rfl) (fun _ _ => trivial) (fun p _ => p.raisesOnly_true)
    ?_ ?_ ?_ ?_ ?_
  · rintro p l - hl c _ s ⟨-, limit, -, rfl⟩
    rw [leaf?_limit hl _ c limit]
    exact Tolerance.agree_refl (Abreast.ends_self fun _ => rfl) (fun _ => trivial) _
  · exact fun run name h => steps_limited h
  · rintro m p - c _ v q _ ⟨-, limit, -, rfl⟩ rfl
    exact Tolerance.agree_refl (fun _ => rfl) (fun _ => trivial) _
  · exact fun rule => nests_limited.steps_rule hsetting (Action.raisesOnly_true _) hnext
  · exact nests_limited.steps_forward hsetting (fun _ => trivial) hnext

end Coupling

/-! ### Parses under two limits -/

namespace Parser

variable {σ : Type} [Memory σ] {setting : Setting σ} {p : Parser σ}

/-- A parse under a positive limit runs the parser from the start of the input. -/
theorem parse_limit_eq (setting : Setting σ) (p : Parser σ) (items : Input) {d : Int} (hd : 1 ≤ d) :
    p.parse setting items (Depth.limit (some d)) =
      p.run setting (start items { levels := min d 59 }) := by
  unfold parse
  rw [Depth.limit_eq hd]
  rfl

/-- A run that does not pass its limit does the same under a limit that is no lower. -/
theorem run_limit_eq (hsetting : setting.Each IgnoresLimit) (hp : p.Each IgnoresLimit) {c : Context}
    (hnumber : c.limit.isNumber = true) {l : Limit} (hl : c.limit.levels ≤ l.levels) {s : σ}
    (hdepth : ∀ v t, p.run setting c s ≠ .error (.depthExceeded v) t) :
    p.run setting { c with limit := l } s = p.run setting c s := by
  have hruns := Coupling.nests_limited.steps_run
    (fun _ _ => Coupling.covers_limited hsetting) hp c _ ⟨hnumber, l, hl, rfl⟩
  refine (Abreast.eq_of_together (fun _ _ => id) hruns ?_).symm
  -- Only a run that passes its limit excuses the other one.
  rintro f t hrun ⟨v, rfl⟩
  exact hdepth v t hrun

/-- **Higher limits.** A parse that does not pass its limit comes to the same under every higher
    one, and so a parse that passes its limit passes every lower one.  Limits beyond what the stack
    has room for are all the same. -/
theorem parse_higherLimit (hsetting : setting.Each IgnoresLimit) (hp : p.Each IgnoresLimit)
    (items : Input) (s : σ) {d d' : Int} (hd : 1 ≤ d) (hdd' : d ≤ d') :
    ((∀ v t, p.parse setting items (Depth.limit (some d)) s ≠ .error (.depthExceeded v) t) →
      p.parse setting items (Depth.limit (some d')) s =
        p.parse setting items (Depth.limit (some d)) s) ∧
    ((∃ v t, p.parse setting items (Depth.limit (some d')) s = .error (.depthExceeded v) t) →
      ∃ v t, p.parse setting items (Depth.limit (some d)) s = .error (.depthExceeded v) t) ∧
    (59 ≤ d → p.parse setting items (Depth.limit (some d')) s =
      p.parse setting items (Depth.limit (some d)) s) := by
  rw [parse_limit_eq setting p items hd, parse_limit_eq setting p items (Int.le_trans hd hdd')]
  have hle : min d 59 ≤ min d' 59 := by omega
  have hsame (h : ∀ v t, p.run setting (start items { levels := min d 59 }) s ≠
      .error (.depthExceeded v) t) :
      p.run setting (start items { levels := min d' 59 }) s =
        p.run setting (start items { levels := min d 59 }) s :=
    run_limit_eq hsetting hp (c := start items { levels := min d 59 }) rfl
      (l := { levels := min d' 59 }) hle h
  refine ⟨hsame, ?_, fun hmost => ?_⟩
  · rintro ⟨v, t, hdeep⟩
    by_contra hnone
    push Not at hnone
    exact hnone v t (hsame hnone ▸ hdeep)
  · rw [Int.min_eq_right hmost, Int.min_eq_right (Int.le_trans hmost hdd')]

/-- Brackets that nest two deep take three levels: they are read alike under all limits from three
    on, and under none below. -/
theorem parse_higherLimit_brackets :
    (forward "brackets").parse brackets (.sequence (.text #['(', '(', ')', ')']))
        (Depth.limit (some 70)) () = .ok (.success .null 4) () ∧
      ∃ v t, (forward "brackets").parse brackets (.sequence (.text #['(', '(', ')', ')']))
        (Depth.limit (some 1)) () = .error (.depthExceeded v) t := by
  have hsetting : brackets.Each IgnoresLimit :=
    each_brackets (fun _ => trivial) (fun _ => trivial) (fun _ _ _ => trivial) fun _ => trivial
  have hp : (forward "brackets" : Parser Unit).Each IgnoresLimit := .node trivial nofun
  have hthree : (forward "brackets").parse brackets (.sequence (.text #['(', '(', ')', ')']))
      (Depth.limit (some 3)) () = .ok (.success .null 4) () := by with_unfolding_all rfl
  have htwo : (forward "brackets").parse brackets (.sequence (.text #['(', '(', ')', ')']))
      (Depth.limit (some 2)) () = .error (.depthExceeded (.int 2)) () := by with_unfolding_all rfl
  have hhigher := (parse_higherLimit hsetting hp (.sequence (.text #['(', '(', ')', ')'])) ()
    (show (1 : Int) ≤ 3 by decide) (show (3 : Int) ≤ 70 by decide)).1
  have hlower := (parse_higherLimit hsetting hp (.sequence (.text #['(', '(', ')', ')'])) ()
    (show (1 : Int) ≤ 1 by decide) (show (1 : Int) ≤ 2 by decide)).2.1
  rw [hthree] at hhigher
  exact ⟨hhigher fun v t => nofun, hlower ⟨_, _, htwo⟩⟩

end Parser

end Itemwise
