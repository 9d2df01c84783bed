import Itemwise.Proofs.Latin1.Leaves

namespace Itemwise

/-!
# Parsers that read texts and bytes alike

* `Parser.IsUniform` — the parsers that are made so as to read a text and its bytes alike;
* `Coupling.covers_latin1` — their runs on both stay in step;
* `Parser.run_encodesAs` — hence both come to the same, with what was read as a text in the one and
  as bytes in the other.
-/

namespace Parser

variable {σ : Type}

/-- What the parser looks for in the input can be found in a text and in its bytes alike, and it
    only passes on, puts together or drops the values of its parts. -/
def IsUniform : Parser σ → Prop
  | .item expected => expected.IsUnit
  | .literal expected => expected.IsRun
  | .upTo needle => needle.IsNeedle
  | .oneOf patterns compiled => compiled = .union patterns ∧ ∀ p ∈ patterns, p.IsUniform
  | .map _ f => ∀ v, f v = pure .null
  | .sequence kind _ => ∀ f, kind ≠ .apply f
  | .many _ _ _ sink _ => sink = .discard ∨ sink = .list
  | .anyItem | .scan .. | .integer .. | .decimal _ | .whitespace | .rest | .eof | .empty
  | .position => True
  | .choice _ | .greedyChoice _ | .attempt _ | .optional _ | .peek _ | .notFollowedBy _
  | .times .. => True
  | .measure .. | .eat _ | .defer .. | .forward _ | .named .. => True
  | _ => False

/-- What is taken as one item or as a run is looked for in both forms. -/
theorem each_take {expected : Value} (h : expected.IsRun) :
    (take expected : Parser σ).Each IsUniform := by
  rcases h.take_cases (σ := σ) with ⟨htake, hunit⟩ | htake
  · rw [htake]
    exact .node hunit fun _ hpart => by cases hpart
  · rw [htake]
    exact .node h fun _ hpart => by cases hpart

/-- To skip a stretch is to take it, and to drop it. -/
theorem each_skip {expected : Value} (h : expected.IsRun) :
    (skip expected : Parser σ).Each IsUniform := by
  refine .node trivial fun q hq => ?_
  cases hq with
  | named =>
    refine .node (fun _ => rfl) fun q hq => ?_
    cases hq with
    | map => exact each_take h

end Parser

/-! ### Runs in step -/

namespace Coupling

open Itemwise.Parser

variable {σ : Type}

/-- Both runs count their levels alike. -/
theorem nests_latin1 : latin1.Nests where
  enter := by
    rintro _ _ ⟨bs, pos, depth, limit⟩
    exact ⟨bs, pos, depth + 1, limit⟩
  reaches_enter h := h
  fails_enter h := h
  limits := by
    refine .inl ?_
    rintro _ _ ⟨bs, pos, depth, limit⟩
    exact ⟨rfl, rfl, trivial⟩

/-- Lists with related items have related items in each place. -/
theorem rel_getElem? {R : Value → Value → Prop} {vs vs' : List Value}
    (h : List.Forall₂ R vs vs') (i : Nat) :
    Option.Rel R vs[i]? vs'[i]? := by
  induction h generalizing i with
  | nil => exact .none
  | cons hv _ ih =>
    cases i with
    | zero => exact .some hv
    | succ i => exact ih i

/-- The values that a sequence keeps are at the same place among those of its parts. -/
theorem together_combine_latin1 {kind : SequenceKind σ} (hkind : ∀ f, kind ≠ .apply f)
    {vs vs' : List Value} (h : List.Forall₂ Value.EncodesAs vs vs') :
    latin1.Together latin1.value (kind.combine vs) (kind.combine vs') := by
  -- What is missing in the one is missing in the other, so that both fault.
  have hkeep (i : Nat) :
      latin1.Together latin1.value
      (Action.ofExcept (Fault.attempt .badIndex vs[i]?) : Action σ Value)
      (Action.ofExcept (Fault.attempt .badIndex vs'[i]?)) := by
    refine Tolerance.Agree.together ?_
    have hrel := rel_getElem? h i
    generalize vs[i]? = kept, vs'[i]? = kept' at hrel
    cases hrel with
    | some hv => exact Tolerance.agree_ok hv
    | none => exact Tolerance.agree_error trivial
  cases kind with
  | all => exact Tolerance.together_pure (.tuple h)
  | first =>
    simp only [SequenceKind.combine, List.head?_eq_getElem?]
    exact hkeep 0
  | middle => exact hkeep 1
  | last =>
    simp only [SequenceKind.combine, List.getLast?_eq_getElem?, h.length_eq]
    exact hkeep _
  | apply f => exact absurd rfl (hkind f)

/-- Both report the same of what they have consumed, up to the encoding. -/
theorem agree_report_latin1 (m : Measure) {c c' : Context} (hc : latin1.meets c c') {v v' : Value}
    (hv : v.EncodesAs v') {q q' : Nat} (hq : q = q') :
    latin1.Agree latin1.value (m.report c v q) (m.report c' v' q') := by
  have hpos : c.pos = c'.pos := latin1.reaches_start hc
  have hslice := Leaf.agree_slice hc hq
  obtain rfl := hq
  cases m with
  | count =>
    simp only [Measure.report, hpos]
    exact Tolerance.agree_ok (.tuple (.cons (.int _) (.cons hv .nil)))
  | stretchAndValue =>
    exact hslice.bind fun w w' hw => Tolerance.agree_ok (.tuple (.cons hw (.cons hv .nil)))
  | stretch => exact hslice
  | span =>
    simp only [Measure.report, hpos]
    cases Span.ofBounds? c'.pos q with
    | none => exact Tolerance.agree_error trivial
    | some s => exact Tolerance.agree_ok (.tuple (.cons hv (.cons (.span s) .nil)))

variable [Memory σ] {setting : Setting σ}

/-- Without a sink, nothing is collected that could differ. -/
theorem collects_discard_latin1 : latin1.Collects (.discard : Sink σ) fun _ _ => True where
  start := Tolerance.together_pure trivial
  push _ _ _ _ _ _ := Tolerance.together_pure ⟨trivial, rfl⟩
  finish _ _ _ := Tolerance.together_pure .null

/-- Lists that are collected stay item by item encoded. -/
theorem collects_list_latin1 :
    latin1.Collects (.list : Sink σ) fun (vs vs' : Array Value) =>
      List.Forall₂ Value.EncodesAs vs.toList vs'.toList where
  start := Tolerance.together_pure .nil
  push := by
    intro (vs : Array Value) (vs' : Array Value) v v' (hvs : List.Forall₂ _ vs.toList vs'.toList) hv
    have hpush : List.Forall₂ Value.EncodesAs (vs.push v).toList (vs'.push v').toList := by
      rw [Array.toList_push, Array.toList_push]
      exact List.rel_append hvs (.cons hv .nil)
    exact Tolerance.together_pure ⟨hpush, rfl⟩
  finish _ _ h := Tolerance.together_pure (.list h)

omit [Memory σ] in
/-- Every leaf that does not tell characters from bytes does the same in both. -/
theorem agree_leaf?_latin1 {p : Parser σ} {l : (Value → Value) → Leaf} (hp : p.IsUniform)
    (hl : p.leaf? = some l) {look : Value → Value}
    (hlook : ∀ v : Value, v.isPlain = true → look v = v) {c c' : Context} (hc : latin1.meets c c') :
    latin1.Agree (latin1.Ends latin1.value c c') (l look c) (l look c') := by
  cases p with
  | anyItem => cases hl; exact Leaf.agree_anyItem hc
  | item expected => cases hl; exact Leaf.agree_item hc hlook hp
  | oneOf patterns compiled =>
    cases hl
    obtain ⟨rfl, hpatterns⟩ := hp
    exact Leaf.agree_oneOf hc hlook hpatterns
  | literal expected => cases hl; exact Leaf.agree_literal hc hlook hp
  | upTo needle => cases hl; exact Leaf.agree_upTo hc hp
  | scan mode finders => cases hl; exact Leaf.agree_scan hc mode finders
  | rest => cases hl; exact Leaf.agree_rest hc
  | eof => cases hl; exact Leaf.agree_eof hc
  | empty => cases hl; exact Leaf.agree_empty hc
  | position => cases hl; exact Leaf.agree_position hc
  | integer signed kind => cases hl; exact Leaf.agree_integer hc hlook signed kind
  | decimal kind => cases hl; exact Leaf.agree_decimal hc hlook kind
  | whitespace => cases hl; exact Leaf.agree_whitespace hc
  | _ => first | exact hp.elim | cases hl

/-- So do all parsers made of such leaves, apart from their parts. -/
theorem covers_latin1 (hsetting : setting.Each IsUniform) {next next' : Parser σ → Step σ}
    (hnext : ∀ p, p.Each IsUniform → latin1.Steps (next p) (next' p)) :
    latin1.Covers IsUniform setting next next' := by
  refine {
    leaf := fun p l hp hl c c' s hc =>
      agree_leaf?_latin1 hp hl (fun v hv => Memory.whole_of_isPlain s v hv) hc
    raw := nofun
    unbuilt := nofun
    map := ?map
    mapIf := nofun
    liftToState := nofun
    filter := nofun
    notEmpty := nofun
    bind := nofun
    sequence := fun kind ps h vs vs' hvs => together_combine_latin1 h hvs
    choose := nofun
    measure := fun m p h c c' v v' q q' hc hv hq => agree_report_latin1 m hc hv hq
    many := ?many
    chain := nofun
    defer := fun rule => nests_latin1.steps_rule hsetting (Action.raisesOnly_true _) hnext
    forward := nests_latin1.steps_forward hsetting (fun _ => trivial) hnext }
  case map =>
    intro p f h v v' hv
    rw [h v, h v']
    exact Tolerance.together_pure .null
  case many =>
    rintro p separator trailing sink n (rfl | rfl)
    · exact ⟨_, collects_discard_latin1⟩
    · exact ⟨_, collects_list_latin1⟩

end Coupling

namespace Parser

variable {σ : Type} [Memory σ] {setting : Setting σ} {p : Parser σ}

/-- **Texts and their bytes.** A parser that reads both alike comes to the same on a text of code
    points below 256 and on the bytes of that text: the same fault, a failure at the same place, or
    a success at the same position whose value is the encoded one, with the same user state. -/
theorem run_encodesAs (hsetting : setting.Each IsUniform) (hp : p.Each IsUniform) {cs : List Char}
    (hcs : ∀ c ∈ cs, c.toNat < 0x100) :
    ∃ bs, Latin1.encode? cs = some bs ∧ ∀ (pos : Nat) (depth : Int) (limit : Limit) (s : σ),
      match p.run setting ⟨.sequence (.text cs.toArray), pos, depth, limit⟩ s with
      | .ok (.success v q) t => ∃ w, v.EncodesAs w ∧
        p.run setting ⟨.sequence (.octets .fixed bs.toArray), pos, depth, limit⟩ s =
          .ok (.success w q) t
      | .ok (.failure x) t =>
        p.run setting ⟨.sequence (.octets .fixed bs.toArray), pos, depth, limit⟩ s =
          .ok (.failure x) t
      | .error f t =>
        p.run setting ⟨.sequence (.octets .fixed bs.toArray), pos, depth, limit⟩ s =
          .error f t := by
  obtain ⟨bs, hbs⟩ := Latin1.exists_encode? hcs
  refine ⟨bs, hbs, fun pos depth limit s => ?_⟩
  -- Every such text is the text of its bytes, which is what the coupling speaks of.
  have htext : Items.text cs.toArray = Latin1.asText bs.toArray := by
    rw [← Latin1.encode?_eq_some_iff.mp hbs, Latin1.asText, List.map_toArray, Latin1.decode]
  rw [htext]
  have hruns := Coupling.nests_latin1.steps_run (fun _ _ => Coupling.covers_latin1 hsetting) hp _ _
    (.mk bs.toArray pos depth limit) s
  cases hrun : p.run setting ⟨.sequence (Latin1.asText bs.toArray), pos, depth, limit⟩ s with
  | ok o t =>
    rw [hrun] at hruns
    obtain ⟨o', hrun', hends⟩ := hruns
    cases hends with
    | @success v w q _ hv hq =>
      obtain rfl := hq
      exact ⟨w, hv, hrun'⟩
    | @failure x _ hx =>
      obtain rfl := hx
      exact hrun'
  | error f t =>
    rw [hrun] at hruns
    rcases hruns with hexcused | ⟨hrun', -⟩
    · exact hexcused.elim
    · exact hrun'

/-- Brackets, an equals sign, and letters with accents, as a stretch and one by one. -/
def bracketsAndLetters : Parser Unit :=
  seq [.forward "brackets", skip (.text ['=']),
    .measure .stretchAndValue (.many (charBetween 'à' 'ÿ') none false .list 1)]

/-- The letters and brackets of the example are parsers of this kind. -/
theorem each_bracketsAndLetters : bracketsAndLetters.Each IsUniform := by
  have hletter : (charBetween 'à' 'ÿ' : Parser Unit).Each IsUniform := by
    refine .node ⟨rfl, fun p hp => ?_⟩ nofun
    obtain rfl := List.mem_singleton.mp hp
    exact .chars 'à' 'ÿ'
  refine .node (fun f => nofun) fun q hq => ?_
  cases hq with
  | sequence hq =>
    simp only [List.mem_cons, List.not_mem_nil, or_false] at hq
    rcases hq with rfl | rfl | rfl
    · exact .node trivial nofun
    · exact each_skip (.text ['='])
    · refine .node trivial fun q hq => ?_
      cases hq with
      | measure =>
        refine .node (.inr rfl) fun q hq => ?_
        cases hq with
        | element => exact hletter

/-- The text `()=é` and its bytes: a stretch is read as a text in the one and as bytes in the other,
    and a single item as a character or as a number. -/
theorem run_encodesAs_letter :
    ∃ w, (Value.tuple [.null, .null, .tuple [.text ['é'], .list [.text ['é']]]]).EncodesAs w ∧
      bracketsAndLetters.run brackets ⟨.sequence (.octets .fixed #[0x28, 0x29, 0x3d, 0xe9]), 0, 0,
        { levels := 3 }⟩ () = .ok (.success w 4) () := by
  have hsetting : brackets.Each IsUniform := by
    refine each_brackets (fun c => .char c) (fun _ => trivial) ?_ fun _ => trivial
    rintro _ ps rfl
    exact fun f => nofun
  have hcs : ∀ c ∈ ['(', ')', '=', 'é'], c.toNat < 0x100 := by simp
  have htext : bracketsAndLetters.run brackets
      ⟨.sequence (.text #['(', ')', '=', 'é']), 0, 0, { levels := 3 }⟩ () =
        .ok (.success (.tuple [.null, .null, .tuple [.text ['é'], .list [.text ['é']]]]) 4) () := by
        with_unfolding_all rfl
  obtain ⟨bs, hbs, hruns⟩ := run_encodesAs hsetting each_bracketsAndLetters hcs
  have hbytes : bs = [0x28, 0x29, 0x3d, 0xe9] := Option.some.inj (hbs.symm.trans (by decide))
  have hrun := hruns 0 0 { levels := 3 } ()
  rw [hbytes, htext] at hrun
  exact hrun

end Parser

end Itemwise
