import Itemwise.Leaf.Blank

namespace Itemwise

/-!
# Runs in step

Two runs are **in step** when all that they have to do with each other stays alike from one parser
to the next: where they stand, what they read off the input, where they fail, and the user state,
which is the same in both.

* `Tolerance` — which faults two computations have to share, and which excuse the second one from
  everything;
* `Tolerance.Agree`, `Tolerance.Together` — two computations, or two actions from every common
  state, come to related results;
* `Coupling` — what it is for two runs to be alike, with the laws that let a parser be run from
  where another stopped;
* `Abreast.coupling` — the same for runs that are always at one position;
* `Coupling.Ends` — the outcomes that are alike;
* `Coupling.Steps` — two steps that come to such outcomes wherever the runs meet;
* `Abreast.ends_self`, `Abreast.eq_of_together` — where values are alike only if they are equal,
  runs that are abreast do the same.

A run that is in step with itself keeps an invariant: there `Coupling.reaches` and `Coupling.fails`
say where it can be.
-/

/-- How the faults of two computations compare: those that both end in alike, and those of the first
    after which nothing is asked of the second. -/
structure Tolerance where
  shared : Fault → Prop
  excused : Fault → Prop

namespace Tolerance

variable (T : Tolerance) {σ α β γ δ : Type}

/-- Two computations come to related results, or end in one fault. -/
def Agree (R : α → β → Prop) (a : Except Fault α) (b : Except Fault β) : Prop :=
  match a with
  | .ok x => ∃ y, b = .ok y ∧ R x y
  | .error f => T.excused f ∨ b = .error f ∧ T.shared f

/-- Two actions come, from every state, to related results in one state, or end in one fault and one
    state. -/
def Together (R : α → β → Prop) (a : Action σ α) (b : Action σ β) : Prop :=
  ∀ s, match a s with
    | .ok x t => ∃ y, b s = .ok y t ∧ R x y
    | .error f t => T.excused f ∨ b s = .error f t ∧ T.shared f

variable {T} {R : α → β → Prop} {S : γ → δ → Prop}

/-- Related results agree. -/
theorem agree_ok {x : α} {y : β} (h : R x y) : T.Agree R (.ok x) (.ok y) := ⟨y, rfl, h⟩

/-- A fault that may be shared agrees with itself. -/
theorem agree_error {f : Fault} (h : T.shared f) : T.Agree R (.error f) (.error f) := .inr ⟨rfl, h⟩

/-- Coming to related results is staying together. -/
theorem together_pure {x : α} {y : β} (h : R x y) : T.Together R (pure x : Action σ α) (pure y) :=
  fun _ => ⟨y, rfl, h⟩

/-- Ending in one fault that may be shared is staying together. -/
theorem together_throw {f : Fault} (h : T.shared f) :
    T.Together R (throw f : Action σ α) (throw f : Action σ β) :=
  fun _ => .inr ⟨rfl, h⟩

/-- Actions stay together if what follows them does so for related results. -/
theorem Together.bind {a : Action σ α} {b : Action σ β} (h : T.Together R a b) {k : α → Action σ γ}
    {l : β → Action σ δ} (hk : ∀ x y, R x y → T.Together S (k x) (l y)) :
    T.Together S (a >>= k) (b >>= l) := by
  intro s
  have hs := h s
  show match EStateM.bind a k s with
    | .ok x t => ∃ y, EStateM.bind b l s = .ok y t ∧ S x y
    | .error f t => T.excused f ∨ EStateM.bind b l s = .error f t ∧ T.shared f
  cases ha : a s with
  | ok x t =>
    simp only [ha] at hs
    obtain ⟨y, hb, hxy⟩ := hs
    simpa only [EStateM.bind, ha, hb] using hk x y hxy t
  | error f t =>
    simp only [ha] at hs
    rcases hs with hf | ⟨hb, hf⟩
    · simpa only [EStateM.bind, ha] using .inl hf
    · simpa only [EStateM.bind, ha, hb] using .inr ⟨trivial, hf⟩

/-- Actions that stay together up to a relation do so up to a weaker one. -/
theorem Together.imp {R' : α → β → Prop} {a : Action σ α} {b : Action σ β} (h : T.Together R a b)
    (himp : ∀ x y, R x y → R' x y) : T.Together R' a b := by
  intro s
  have hs := h s
  cases ha : a s with
  | ok x t =>
    simp only [ha] at hs
    obtain ⟨y, hb, hxy⟩ := hs
    exact ⟨y, hb, himp x y hxy⟩
  | error f t => simpa only [ha] using hs

/-- Computations agree if what follows them does so for related results. -/
theorem Agree.bind {a : Except Fault α} {b : Except Fault β} (h : T.Agree R a b)
    {k : α → Except Fault γ} {l : β → Except Fault δ} (hk : ∀ x y, R x y → T.Agree S (k x) (l y)) :
    T.Agree S (a >>= k) (b >>= l) := by
  cases a with
  | ok x =>
    obtain ⟨y, rfl, hxy⟩ := h
    exact hk x y hxy
  | error f =>
    rcases h with hf | ⟨rfl, hf⟩
    · exact .inl hf
    · exact .inr ⟨rfl, hf⟩

/-- Computations that agree are together as actions. -/
theorem Agree.together {a : Except Fault α} {b : Except Fault β} (h : T.Agree R a b) :
    T.Together R (Action.ofExcept a : Action σ α) (Action.ofExcept b) := by
  intro s
  cases a with
  | ok x =>
    obtain ⟨y, rfl, hxy⟩ := h
    exact ⟨y, rfl, hxy⟩
  | error f =>
    rcases h with hf | ⟨rfl, hf⟩
    · exact .inl hf
    · exact .inr ⟨rfl, hf⟩

/-- What is read off the user state is the same for both. -/
theorem together_get : T.Together (fun s t => s = t) (get : Action σ σ) get :=
  fun s => ⟨s, rfl, rfl⟩

end Tolerance

/-- A position is not before a context, and within its input. -/
def Context.Reaches (c : Context) (q : Nat) : Prop := c.pos ≤ q ∧ q ≤ c.items.size

/-- What it is for two runs to be alike, which never depends on the user state. -/
structure Coupling extends Tolerance where
  /-- The contexts from which two runs go on in step. -/
  meets : Context → Context → Prop
  /-- The values that count as the same. -/
  value : Value → Value → Prop
  /-- The positions that two runs come to from two contexts. -/
  reaches : Context → Context → Nat → Nat → Prop
  /-- The places at which two runs from two contexts fail. -/
  fails : Context → Context → Place → Place → Prop
  endless : shared .endless
  null : value .null .null
  reaches_start : ∀ {c c'}, meets c c' → reaches c c' c.pos c'.pos
  meets_moveTo : ∀ {c c' q q'}, meets c c' → reaches c c' q q' → meets (c.moveTo q) (c'.moveTo q')
  reaches_trans : ∀ {c c' q q' r r'}, reaches c c' q q' → reaches (c.moveTo q) (c'.moveTo q') r r' →
    reaches c c' r r'
  fails_position : ∀ {c c' q q'}, reaches c c' q q' → fails c c' (.position q) (.position q')
  fails_trans : ∀ {c c' q q' x x'}, reaches c c' q q' → fails (c.moveTo q) (c'.moveTo q') x x' →
    fails c c' x x'
  /-- Both runs see alike whether they have got further. -/
  lt_iff : ∀ {c c' q q' r r'}, reaches c c' q q' → reaches c c' r r' → (q < r ↔ q' < r')
  /-- Both runs see alike whether a failure is one at the start. -/
  isAt_eq : ∀ {c c' x x'}, meets c c' → fails c c' x x' → x.isAt c.pos = x'.isAt c'.pos
  /-- Both runs see alike which of two failures got further. -/
  precedes_eq : ∀ {c c' x x' y y'}, fails c c' x x' → fails c c' y y' →
    x.precedes y = x'.precedes y'
  /-- Both runs may repeat something equally often, or neither ever goes back, so that it has rounds
      to spare. -/
  rounds : (∀ c c', meets c c' → c.mostRounds = c'.mostRounds) ∨
    ∀ c c' q q', meets c c' → reaches c c' q q' → c.Reaches q ∧ c'.Reaches q'
  slice : ∀ {c c' q q'}, meets c c' → reaches c c' q q' →
    toTolerance.Agree value (c.sliceTo q) (c'.sliceTo q')
  blanks : ∀ {c c'}, meets c c' →
    toTolerance.Agree (reaches c c') (Leaf.skipBlanks c.items c.pos)
      (Leaf.skipBlanks c'.items c'.pos)

/-- What it is for two runs to be abreast: alike, and always at one position. -/
structure Abreast extends Tolerance where
  meets : Context → Context → Prop
  value : Value → Value → Prop
  endless : shared .endless
  null : value .null .null
  pos_eq : ∀ {c c'}, meets c c' → c.pos = c'.pos
  moveTo : ∀ {c c'} (q : Nat), meets c c' → meets (c.moveTo q) (c'.moveTo q)
  rounds : ∀ {c c'}, meets c c' → c.mostRounds = c'.mostRounds
  slice : ∀ {c c'} (q : Nat), meets c c' → toTolerance.Agree value (c.sliceTo q) (c'.sliceTo q)
  blanks : ∀ {c c'}, meets c c' →
    toTolerance.Agree (· = ·) (Leaf.skipBlanks c.items c.pos) (Leaf.skipBlanks c'.items c'.pos)

/-- Runs that are abreast see alike all that has to do with positions. -/
def Abreast.coupling (A : Abreast) : Coupling where
  toTolerance := A.toTolerance
  meets := A.meets
  value := A.value
  reaches _ _ q q' := q = q'
  fails _ _ x x' := x = x'
  endless := A.endless
  null := A.null
  reaches_start h := A.pos_eq h
  meets_moveTo := by
    rintro c c' q _ h rfl
    exact A.moveTo q h
  reaches_trans _ h := h
  fails_position := by
    rintro c c' q _ rfl
    rfl
  fails_trans _ h := h
  lt_iff := by
    rintro c c' q _ r _ rfl rfl
    rfl
  isAt_eq := by
    rintro c c' x _ h rfl
    rw [A.pos_eq h]
  precedes_eq := by
    rintro c c' x _ y _ rfl rfl
    rfl
  rounds := .inl fun _ _ h => A.rounds h
  slice := by
    rintro c c' q _ h rfl
    exact A.slice q h
  blanks h := A.blanks h

namespace Coupling

variable (K : Coupling) {σ α β : Type}

/-- The outcomes of two runs from two contexts that are alike. -/
inductive Ends (V : α → β → Prop) (c c' : Context) : Outcome α → Outcome β → Prop
  | success {v : α} {v' : β} {q q' : Nat} (hv : V v v') (hq : K.reaches c c' q q') :
    Ends V c c' (.success v q) (.success v' q')
  | failure {x x' : Place} (hx : K.fails c c' x x') : Ends V c c' (.failure x) (.failure x')

/-- Two steps that come to outcomes that are alike wherever two runs meet. -/
def Steps (p p' : Step σ) : Prop :=
  ∀ c c', K.meets c c' → K.Together (K.Ends K.value c c') (p c) (p' c')

variable {K} {V : α → β → Prop} {c c' : Context} {q q' : Nat}

/-- Both runs see alike whether they are where they were. -/
theorem eq_iff {r r' : Nat} (hq : K.reaches c c' q q') (hr : K.reaches c c' r r') :
    q = r ↔ q' = r' := by
  have hlt := K.lt_iff hq hr
  have hgt := K.lt_iff hr hq
  omega

/-- Both runs see alike whether they have moved at all. -/
theorem eq_start_iff (hc : K.meets c c') (hq : K.reaches c c' q q') : q = c.pos ↔ q' = c'.pos :=
  eq_iff hq (K.reaches_start hc)

/-- Both runs see alike whether a failure is one where they have come to. -/
theorem isAt_eq_moveTo {x x' : Place} (hc : K.meets c c') (hq : K.reaches c c' q q')
    (hx : K.fails (c.moveTo q) (c'.moveTo q') x x') : x.isAt q = x'.isAt q' :=
  K.isAt_eq (K.meets_moveTo hc hq) hx

/-- What is alike from where two runs have come to is alike from where they started. -/
theorem Ends.trans {o : Outcome α} {o' : Outcome β} (hq : K.reaches c c' q q')
    (h : K.Ends V (c.moveTo q) (c'.moveTo q') o o') : K.Ends V c c' o o' := by
  cases h with
  | success hv hr => exact .success hv (K.reaches_trans hq hr)
  | failure hx => exact .failure (K.fails_trans hq hx)

/-- A step from where another one stopped. -/
theorem Steps.together_moveTo {p p' : Step σ} (hp : K.Steps p p') (hc : K.meets c c')
    (hq : K.reaches c c' q q') :
    K.Together (K.Ends K.value c c') (p (c.moveTo q)) (p' (c'.moveTo q')) :=
  (hp _ _ (K.meets_moveTo hc hq)).imp fun _ _ h => h.trans hq

/-- A failure at the start is one in both runs. -/
theorem ends_start (hc : K.meets c c') : K.Ends V c c' (.failure c.pos) (.failure c'.pos) :=
  .failure (K.fails_position (K.reaches_start hc))

end Coupling

namespace Abreast

variable {A : Abreast} {σ α : Type} {V : α → α → Prop} {c c' : Context}

/-- Runs that are abreast come to outcomes that are alike if they come to one outcome. -/
theorem ends_self (hV : ∀ v, V v v) (o : Outcome α) : A.coupling.Ends V c c' o o := by
  cases o with
  | success v q => exact .success (hV v) rfl
  | failure x => exact .failure rfl

/-- With the same values, they come to one outcome from every state, unless the first of them ends
    in a fault that excuses the second. -/
theorem eq_of_together (hV : ∀ v v', V v v' → v = v') {a b : Action σ (Outcome α)}
    (h : A.Together (A.coupling.Ends V c c') a b) {s : σ}
    (hexcused : ∀ f t, a s = .error f t → ¬ A.excused f) : a s = b s := by
  have hs := h s
  cases ha : a s with
  | ok o t =>
    rw [ha] at hs
    obtain ⟨o', hb, hends⟩ := hs
    rw [hb]
    cases hends with
    | success hv hq => rw [hV _ _ hv, hq]
    | failure hx => rw [hx]
  | error f t =>
    rw [ha] at hs
    obtain hf | ⟨hb, -⟩ := hs
    · exact absurd hf (hexcused f t ha)
    · exact hb.symm

end Abreast

end Itemwise
