import Itemwise.Proofs.Run.Sorting
import Itemwise.Proofs.Run.Tree

namespace Itemwise

/-!
# Runs with the same values

Two runs in which values are alike only if they are equal stay in step in whatever they both call:
it can only end in a fault that one of them does not share.

* `Tolerance.agree_self`, `Tolerance.together_self` — what is called by both is together with
  itself;
* `Sink.raisesOnly_start`, `raisesOnly_push`, `raisesOnly_finish` — sinks end in no foreign faults
  of their own;
* `Coupling.Covers.ofSame` — all that is left to show are the leaves, the raw parsers and the
  entries into recursive ones.
-/

variable {σ α β : Type}

/-! ### Faults of actions -/

namespace Action

variable {F : Fault → Prop}

/-- A result alone ends in no fault. -/
theorem raisesOnly_pure (x : α) : RaisesOnly F (pure x : Action σ α) := fun _ _ _ => nofun

/-- An allowed fault alone ends in no other. -/
theorem raisesOnly_throw {f : Fault} (h : F f) : RaisesOnly F (throw f : Action σ α) := by
  rintro _ _ _ ⟨⟩
  exact h

/-- A computation that does not touch the user state ends in the faults it had. -/
theorem raisesOnly_ofExcept {a : Except Fault α} (h : Raises F a) :
    RaisesOnly F (ofExcept a : Action σ α) := by
  cases a with
  | ok x => exact raisesOnly_pure x
  | error f => exact raisesOnly_throw h

/-- Two actions one after the other end only in faults that one of them may end in. -/
theorem RaisesOnly.bind {a : Action σ α} {k : α → Action σ β} (h : a.RaisesOnly F)
    (hk : ∀ x, (k x).RaisesOnly F) :
    RaisesOnly F (a >>= k) := by
  intro s f t hf
  have hf : EStateM.bind a k s = .error f t := hf
  cases ha : a s with
  | ok x u => exact hk x u f t (by simpa only [EStateM.bind, ha] using hf)
  | error g u =>
    simp only [EStateM.bind, ha] at hf
    cases hf
    exact h s f t ha

/-- Looking at a value ends in no fault. -/
theorem raisesOnly_lookAt [Memory σ] (v : Value) : RaisesOnly F (lookAt v : Action σ Value) :=
  fun _ _ _ => nofun

/-- Looking at the user state ends in no fault. -/
theorem raisesOnly_get : RaisesOnly F (get : Action σ σ) := fun _ _ _ => nofun

end Action

/-! ### What both runs call -/

namespace Tolerance

variable {T : Tolerance}

/-- A computation agrees with itself, if its results are related to themselves and its faults may be
    shared. -/
theorem agree_self {R : α → α → Prop} {a : Except Fault α}
    (h : Yields T.shared (fun x => R x x) a) : T.Agree R a a := by
  cases a with
  | ok x => exact agree_ok h
  | error f => exact agree_error h

/-- An action stays together with itself on the same grounds. -/
theorem together_self {R : α → α → Prop} {a : Action σ α} (hfaults : a.RaisesOnly T.shared)
    (hresults : ∀ s x t, a s = .ok x t → R x x) : T.Together R a a := by
  intro s
  cases ha : a s with
  | ok x t => exact ⟨x, rfl, hresults s x t ha⟩
  | error f t => exact .inr ⟨rfl, hfaults s f t ha⟩

variable {R : α → α → Prop} (hrefl : ∀ x, R x x)

include hrefl in
/-- Where every value is related to itself, a computation agrees with itself if its faults may be
    shared. -/
theorem agree_of_raises {a : Except Fault α} (h : Raises T.shared a) : T.Agree R a a :=
  agree_self (h.imp fun x _ => hrefl x)

include hrefl in
/-- The same for an action. -/
theorem together_of_raisesOnly {a : Action σ α} (h : a.RaisesOnly T.shared) : T.Together R a a :=
  together_self h fun _ x _ _ => hrefl x

/-! Where every fault is shared, nothing is asked of what both runs call. -/

variable (hT : ∀ f, T.shared f)

include hrefl hT in
/-- Where every fault may be shared, a computation agrees with itself. -/
theorem agree_refl (a : Except Fault α) : T.Agree R a a :=
  agree_of_raises hrefl (raises_iff.mpr fun f _ => hT f)

include hrefl hT in
/-- The same for an action. -/
theorem together_refl (a : Action σ α) : T.Together R a a :=
  together_of_raisesOnly hrefl fun _ f _ _ => hT f

end Tolerance

/-! ### Sinks -/

section Sinks

variable {F : Fault → Prop} (hF : ∀ f : Fault, ¬ f.IsForeign → F f)

include hF in
/-- Making an array ends in no foreign fault. -/
theorem FixedArray.raises_ofCapacity (capacity : Int) :
    Raises F (FixedArray.ofCapacity capacity) := by
  unfold FixedArray.ofCapacity Room.count Room.check
  split
  · refine (raises_ok _).bind fun n _ => Yields.bind (Q := fun _ => True) ?_ fun _ _ => raises_ok _
    split
    · exact hF _ nofun
    · split
      · exact hF _ nofun
      · trivial
  · exact hF _ nofun

include hF in
/-- Nor does putting a value into one. -/
theorem FixedArray.raises_append (a : FixedArray) (v : Value) : Raises F (a.append v) := by
  unfold FixedArray.append
  split
  · trivial
  · exact hF _ not_false

include hF in
/-- Nor putting a pair into a dictionary. -/
theorem Dict.raises_push (d : Dict.Draft) (v : Value) : Raises F (d.push v) := by
  have helements : Raises F v.elements := raises_attempt (hF .wrongKind nofun) _
  refine Yields.bind (Q := fun _ => True) (helements.bind fun xs _ => ?_) fun e _ => ?_
  · split
    · exact raises_ok _
    · exact hF _ nofun
  · dsimp only
    split
    · exact raises_ok _
    · exact hF _ nofun

include hF in
/-- Nor comparing the keys of two pairs. -/
theorem Dict.raises_precedes (e f : Value × Value) : Raises F (Dict.precedes e f) :=
  raises_attempt (hF .wrongKind nofun) _

include hF in
/-- Nor sorting a dictionary. -/
theorem Dict.raises_sorted (d : Dict) : Raises F d.sorted := by
  have hmerging := (Sorting.raises_byMerging (Dict.raises_precedes hF) d.toArray).bind
    (R := fun _ => True) fun (es : Array (Value × Value)) _ => raises_ok es.toList
  unfold Dict.sorted
  extract_lets inserted
  split
  · exact raises_ok _
  · exact hmerging

namespace Sink

include hF in
/-- A sink starts with no fault but those allowed of its functions. -/
theorem raisesOnly_start {sink : Sink σ} (h : sink.RaisesOnly F) : sink.start.RaisesOnly F := by
  cases sink with
  | array capacity => exact Action.raisesOnly_ofExcept (FixedArray.raises_ofCapacity hF capacity)
  | fold init f => exact h.1
  | own yieldsStretch start push finish => exact h.1
  | _ => exact Action.raisesOnly_pure _

include hF in
/-- The same for putting a value into it. -/
theorem raisesOnly_push [Memory σ] {sink : Sink σ} (h : sink.RaisesOnly F)
    (acc : sink.Acc) (v : Value) :
    (sink.push acc v).RaisesOnly F := by
  have hdict (d : Dict.Draft) : Action.RaisesOnly F (do
      return (← Action.ofExcept (d.push (← Action.lookAt v)), true) :
        Action σ (Dict.Draft × Bool)) :=
    (Action.raisesOnly_lookAt v).bind fun w =>
      (Action.raisesOnly_ofExcept (Dict.raises_push hF d w)).bind fun _ => Action.raisesOnly_pure _
  cases sink with
  | discard => exact Action.raisesOnly_pure _
  | list => exact Action.raisesOnly_pure _
  | dict => exact hdict acc
  | sortedDict => exact hdict acc
  | array capacity => exact Action.raisesOnly_ofExcept (FixedArray.raises_append hF acc v)
  | fold init f => exact (h.2 acc v).bind fun _ => Action.raisesOnly_pure _
  | foldState f read => exact (h v).bind fun _ => Action.raisesOnly_pure _
  | own yieldsStretch start push finish => exact h.2.1 acc v

include hF in
/-- The same for finishing it. -/
theorem raisesOnly_finish {sink : Sink σ} (h : sink.RaisesOnly F) (acc : sink.Acc) :
    (sink.finish acc).RaisesOnly F := by
  cases sink with
  | sortedDict =>
    exact (Action.raisesOnly_ofExcept (Dict.raises_sorted hF _)).bind fun _ =>
      Action.raisesOnly_pure _
  | foldState f read => exact Action.raisesOnly_get.bind fun _ => Action.raisesOnly_pure _
  | own yieldsStretch start push finish =>
    exact Action.raisesOnly_get.bind fun s =>
      Action.raisesOnly_ofExcept (raises_iff.mpr (h.2.2 acc s))
  | _ => exact Action.raisesOnly_pure _

end Sink

end Sinks

/-! ### Trees -/

namespace Coupling

variable [Memory σ] {K : Coupling} {P : Parser σ → Prop} {setting : Setting σ}
  {next next' : Parser σ → Step σ}

/-- Where values are alike only if they are equal, functions and sinks stay in step with
    themselves. -/
theorem Covers.ofSame (hvalue : ∀ v v', K.value v v' ↔ v = v')
    (hshared : ∀ f : Fault, ¬ f.IsForeign → K.shared f) (hraises : ∀ p, P p → p.RaisesOnly K.shared)
    (leaf : ∀ p l, P p → p.leaf? = some l → ∀ c c' (s : σ), K.meets c c' →
      K.Agree (K.Ends K.value c c') (l (Memory.whole s) c) (l (Memory.whole s) c'))
    (raw : ∀ run name, P (.raw run name) → K.Steps run run)
    (measure : ∀ m p, P (.measure m p) → ∀ c c' v q q', K.meets c c' → K.reaches c c' q q' →
      K.Agree (· = ·) (Measure.report m c v q) (Measure.report m c' v q'))
    (defer : ∀ rule, K.Steps (Step.descend (setting.grammar.rule rule setting.config) next)
      (Step.descend (setting.grammar.rule rule setting.config) next'))
    (forward : ∀ name, K.Steps (Step.forward name (setting.grammar.forward name) next)
      (Step.forward name (setting.grammar.forward name) next')) :
    K.Covers P setting next next' := by
  have heq : K.value = (· = ·) := funext₂ fun v v' => propext (hvalue v v')
  have hrefl (v : Value) : K.value v v := (hvalue v v).mpr rfl
  have hself {f : Value → Action σ Value} (h : ∀ v, (f v).RaisesOnly K.shared) (v v' : Value)
      (hv : K.value v v') :
      K.Together K.value (f v) (f v') := by
    obtain rfl := (hvalue v v').mp hv
    exact Tolerance.together_of_raisesOnly hrefl (h v)
  refine {
    leaf, raw, defer, forward
    unbuilt := fun f h => hraises _ h
    map := fun p f h => hself (hraises _ h)
    mapIf := ?mapIf
    liftToState := fun f p h => hself (hraises _ h)
    filter := ?filter
    notEmpty := ?notEmpty
    bind := ?bind
    sequence := ?sequence
    choose := ?choose
    measure := ?measure
    many := ?many
    chain := ?chain }
  case mapIf =>
    intro p f h v v' hv
    obtain rfl := (hvalue v v').mp hv
    exact Tolerance.together_of_raisesOnly (fun w => ⟨hrefl w, Iff.rfl⟩) (hraises _ h v)
  case filter =>
    intro p test h v v' s hv
    obtain rfl := (hvalue v v').mp hv
    exact Tolerance.agree_of_raises (fun _ => rfl) (raises_iff.mpr (hraises _ h _))
  case notEmpty =>
    intro p h v v' s hv
    obtain rfl := (hvalue v v').mp hv
    have hlength : Raises K.shared (Memory.surface s v).length :=
      raises_attempt (hshared .wrongKind nofun) _
    exact Tolerance.agree_of_raises (R := fun m n => m = 0 ↔ n = 0) (fun _ => Iff.rfl) hlength
  case bind =>
    intro p f h v v' config s hv
    rw [(hvalue v v').mp hv]
  case sequence =>
    intro kind ps h vs vs' hvs
    rw [heq, List.forall₂_eq_eq_eq] at hvs
    obtain rfl := hvs
    refine Tolerance.together_of_raisesOnly hrefl ?_
    cases kind with
    | all => exact Action.raisesOnly_pure _
    | apply f => exact hraises _ h vs
    | _ => exact Action.raisesOnly_ofExcept (raises_attempt (hshared .badIndex nofun) _)
  case choose =>
    intro p arms default h arm harm v v' s hv
    obtain rfl := (hvalue v v').mp hv
    exact Tolerance.agree_of_raises (fun _ => rfl) (raises_iff.mpr (hraises _ h arm harm _))
  case measure =>
    intro m p h c c' v v' q q' hc hv hq
    obtain rfl := (hvalue v v').mp hv
    rw [heq]
    exact measure m p h c c' v q q' hc hq
  case many =>
    intro p separator trailing sink n h
    refine ⟨(· = ·), ⟨?_, ?_, ?_⟩⟩
    · exact Tolerance.together_of_raisesOnly (fun _ => rfl)
        (sink.raisesOnly_start hshared (hraises _ h))
    · rintro acc _ v v' rfl hv
      obtain rfl := (hvalue v v').mp hv
      exact Tolerance.together_of_raisesOnly (fun _ => ⟨rfl, rfl⟩)
        (sink.raisesOnly_push hshared (hraises _ h) acc v)
    · rintro acc _ rfl
      exact Tolerance.together_of_raisesOnly hrefl
        (sink.raisesOnly_finish hshared (hraises _ h) acc)
  case chain =>
    intro p op combine h f f' v v' w w' hf hv hw
    obtain rfl := (hvalue f f').mp hf
    obtain rfl := (hvalue v v').mp hv
    obtain rfl := (hvalue w w').mp hw
    exact Tolerance.together_of_raisesOnly hrefl (hraises _ h f v w)

end Coupling

end Itemwise
