import ScriptGate.Proofs.Check.Acceptance
import ScriptGate.Proofs.Check.Findings

/-!
# Checks that do not fail

A check fails where a rule looks at a part that is absent, or reads text at an offset inside a
character. If the parts are there as far as the check looks, and all nodes stand between characters,
neither can happen: every part that a rule looks at is there, and what is visited is whole again.

## Main definitions

* `Check.Sound`: steps that do not fail and visit only nodes that satisfy a condition.

## Main results

* `Check.Suffices.sound_plan`: the steps of a node that has what a check needs do not fail.
* `Check.Suffices.outcome_eq_ok`: the check of such a node gives a list of diagnostics.
* `Script.validate_whole`: checks of whole trees give lists of diagnostics.
-/

namespace ScriptGate

namespace Check

/-- The step does not fail, and what it visits satisfies the condition. -/
def Step.Sound (P : Node → Prop) : Step → Prop
  | .report _ _ => True
  | .visit _ n => P n
  | .fail _ => False

/-- No step fails, and all visits are of nodes that satisfy the condition. -/
def Sound (P : Node → Prop) (steps : List Step) : Prop := ∀ step ∈ steps, step.Sound P

namespace Sound

variable {P : Node → Prop} {s : Scope} {n : Node}

protected theorem nil : Sound P [] := by simp [Sound]

protected theorem report {message : Text} : Sound P [.report n message] := by
  simp [Sound, Step.Sound]

protected theorem append {a b : List Step} (ha : Sound P a) (hb : Sound P b) :
    Sound P (a ++ b) := fun step hstep =>
  (List.mem_append.mp hstep).elim (ha step) (hb step)

protected theorem flatMap {α : Type} {l : List α} {f : α → List Step}
    (h : ∀ a ∈ l, Sound P (f a)) : Sound P (l.flatMap f) := by
  intro step hstep
  obtain ⟨a, ha, hmem⟩ := List.mem_flatMap.mp hstep
  exact h a ha step hmem

theorem visit (h : P n) : Sound P [.visit s n] := by
  simpa [Sound, Step.Sound] using h

theorem map_visit {ns : List Node} (h : ∀ n ∈ ns, P n) : Sound P (ns.map (.visit s)) := by
  simpa [Sound, Step.Sound] using h

theorem settled_bind {α : Type} {x : Except Fault α} {a : α} {f : α → Except Fault (List Step)}
    (hx : x = .ok a) (h : Sound P (settled (f a))) : Sound P (settled (x >>= f)) := by
  rw [hx]
  exact h

end Sound

/-! ### The steps of each form -/

theorem need_of_child? {asked : Aspect} {n : Node} {f : Field} {c : Node}
    (h : n.child? f = some c) : need asked (n.child? f) = .ok c := by
  rw [h]
  rfl

theorem Context.text_of_places {ctx : Context} {n : Node} (h : n.all ctx.source.places) :
    ∃ t, ctx.text n = .ok t := by
  obtain ⟨t, ht⟩ := Source.text_of_places (Node.all_iff.mp h).1
  exact ⟨t, by rw [Context.text, ht]; rfl⟩

namespace Suffices

variable {ctx : Context} {P : Node → Prop} {s : Scope} {n : Node} (hP : Suffices ctx.source P)

include hP

theorem text (h : P n) : ∃ t, ctx.text n = .ok t := Context.text_of_places (hP.placed h)

theorem accepts (h : P n) : ∃ b, ctx.accepts n = .ok b := by
  obtain ⟨t, ht⟩ := hP.text (hP.unwrap h)
  exact ⟨_, accepts_eq ht⟩

theorem namespaceIn (h : P n) : ∃ ns, namespaceIn ctx s (some n) = .ok ns := by
  obtain ⟨name, hname⟩ := hP.text (hP.unwrap h)
  rcases namespaceIn_cases (s := s) hname with ⟨ns, -, hns⟩ | ⟨-, hns⟩
  · exact ⟨_, hns⟩
  · exact ⟨_, hns⟩

/-- A part that a construct has by its shape is visited. -/
theorem sound_part {shape : Shape} {f : Field} (h : P n) (ho : opens n.kind)
    (hs : Shape.ofKind? n.kind = some shape) (hf : ∀ order ∈ shape.orders, f ∈ order)
    (hfield : f ≠ .operator ∧ f ≠ .key) : Sound P [.part s (n.child? f)] := by
  obtain ⟨c, hc⟩ := hP.exists_child? h hs hf hfield.2
  rw [hc]
  exact .visit (hP.child? h ho hs hc hfield.1)

theorem sound_nameSteps (h : P n) : Sound P (nameSteps ctx s n) := by
  obtain ⟨name, hname⟩ := hP.text h
  obtain ⟨accepted, haccepted⟩ := hP.accepts h
  refine .settled_bind hname ?_
  split
  · exact .nil
  split
  · exact .nil
  refine .settled_bind haccepted ?_
  cases accepted with
  | true => exact .nil
  | false => exact .report

theorem sound_objectMemberSteps (h : P n) : Sound P (objectMemberSteps ctx s n) := by
  rw [objectMemberSteps]
  split
  case isTrue hpair =>
    have hs := shape_pair hpair
    have ho : opens n.kind := by rw [hpair]; decide
    refine .append ?_ (hP.sound_part h ho hs (by simp) (by decide))
    cases hkey : n.child? .key with
    | none => exact .nil
    | some key =>
      dsimp only
      split
      case isTrue hcomputed =>
        have hopen : opens key.kind := by rw [hcomputed]; decide
        exact .map_visit fun c hc => hP.part (hP.child? h ho hs hkey (by decide)) hopen hc
      · exact .nil
  split
  · exact hP.sound_nameSteps h
  · exact .report

theorem sound_unarySteps (h : P n) (hk : n.kind = "unary_expression") :
    Sound P (unarySteps ctx s n) := by
  have hs := shape_unary hk
  obtain ⟨operator, hoperator⟩ :=
    hP.exists_child? h hs (f := .operator) (by simp) (by decide)
  refine .settled_bind (need_of_child? hoperator) ?_
  rw [settled_pure]
  split
  · exact hP.sound_part h (by rw [hk]; decide) hs (by simp) (by decide)
  · exact .report

theorem sound_accessSteps {trusted : Text → Text → Bool} {listed : List Text} (h : P n)
    (hk : n.kind = "member_expression") : Sound P (accessSteps ctx s trusted listed n) := by
  have hs := shape_member hk
  have ho : opens n.kind := by rw [hk]; decide
  obtain ⟨object, hobject⟩ := hP.exists_child? h hs (f := .object) (by simp) (by decide)
  obtain ⟨property, hproperty⟩ := hP.exists_child? h hs (f := .property) (by simp) (by decide)
  obtain ⟨name, hname⟩ := hP.text (hP.child? h ho hs hproperty (by decide))
  obtain ⟨ns, hns⟩ := hP.namespaceIn (s := s) (hP.child? h ho hs hobject (by decide))
  rw [← hobject] at hns
  refine .settled_bind (need_of_child? hproperty) (.settled_bind hname (.settled_bind hns ?_))
  rw [settled_pure]
  cases ns with
  | some ns =>
    dsimp only
    split
    · exact .nil
    · exact .report
  | none =>
    have hpart : Sound P [.part s (n.child? .object)] :=
      hP.sound_part h ho hs (by simp) (by decide)
    dsimp only
    split
    · exact hpart
    · exact .append (a := [_]) hpart .report

theorem sound_memberSteps (h : P n) (hk : n.kind = "member_expression") :
    Sound P (memberSteps ctx s n) := by
  rw [memberSteps]
  split
  · exact .report
  obtain ⟨accepted, haccepted⟩ := hP.accepts h
  refine .settled_bind haccepted ?_
  cases accepted with
  | true => exact .nil
  | false => exact hP.sound_accessSteps h hk

theorem sound_methodSteps (h : P n) (hk : n.kind = "member_expression") :
    Sound P (methodSteps ctx s n) := by
  rw [methodSteps]
  split
  · exact .report
  · exact hP.sound_accessSteps h hk

theorem sound_argumentSteps (h : P n) (hk : n.kind = "call_expression") :
    Sound P (argumentSteps s n) := by
  have hs := shape_call hk
  obtain ⟨arguments, harguments⟩ := hP.exists_child? h hs (f := .arguments) (by simp) (by decide)
  have hpart := hP.child? h (by rw [hk]; decide) hs harguments (by decide)
  refine .settled_bind (need_of_child? harguments) ?_
  rw [settled_pure]
  split
  case isTrue hlist =>
    have hopen : opens arguments.kind := by rw [hlist]; decide
    exact .map_visit fun c hc => hP.part hpart hopen hc
  · exact .visit hpart

theorem sound_callSteps (h : P n) (hk : n.kind = "call_expression") :
    Sound P (callSteps ctx s n) := by
  have hs := shape_call hk
  obtain ⟨function, hfunction⟩ := hP.exists_child? h hs (f := .function) (by simp) (by decide)
  have hcallee := hP.unwrap (hP.child? h (by rw [hk]; decide) hs hfunction (by decide))
  rw [callSteps]
  split
  · exact .report
  refine .settled_bind (need_of_child? hfunction) ?_
  dsimp only
  split
  · exact .report
  split
  case isTrue hmember =>
    exact .append (hP.sound_methodSteps hcallee hmember) (hP.sound_argumentSteps h hk)
  split
  · exact .append (a := [_]) .report (hP.sound_argumentSteps h hk)
  · exact .report

/-- The parameters of a function are only read: what is inside them is not looked at. -/
theorem sound_functionSteps (h : P n) (hk : n.kind ∈ Form.function.kinds) :
    Sound P (functionSteps ctx s n) := by
  have ho : opens n.kind := opens_of_form (Form.ofKind?_eq_some_iff.mpr hk)
  refine .settled_bind (hP.parametersOf_eq h hk) ?_
  rw [settled_pure]
  refine .append (.flatMap fun p hp => ?_)
    (hP.sound_part h ho (shape_function hk) (by simp) (by decide))
  obtain ⟨above, hpath⟩ := exists_path_parameter hp
  obtain ⟨name, hname⟩ := Context.text_of_places (hpath.all (hP.placed h))
  rw [parameterSteps, hname]
  split
  · exact .nil
  · exact .report

theorem sound_binarySteps (h : P n) (hk : n.kind = "binary_expression") :
    Sound P (binarySteps s n) := by
  obtain ⟨ops, hops, hmem⟩ := hP.exists_operands h hk
  have hsteps : binarySteps s n = ops.map (.visit s) := by simp [binarySteps, hops, Step.part]
  rw [hsteps]
  exact .map_visit fun c hc => hP.operand ((hmem c).mp hc) h hk

theorem sound_steps {form : Form} (h : P n) (hk : n.kind ∈ form.kinds) :
    Sound P (steps ctx s form n) := by
  have hkind {kind : String} (hf : form.kinds = [kind]) : n.kind = kind := by simpa [hf] using hk
  have ho : opens n.kind := opens_of_form (Form.ofKind?_eq_some_iff.mpr hk)
  cases form with
  | sequence => exact .map_visit fun c hc => hP.part h ho hc
  | literal => exact .nil
  | template =>
    refine .map_visit fun c hc => ?_
    obtain ⟨t, ht, htk, hc⟩ := mem_substitutions.mp hc
    obtain ⟨hmem, hnamed⟩ := Node.mem_namedChildren.mp ht
    exact hP.part (hP.named h ho hmem hnamed) (by rw [htk]; decide) hc
  | identifier => exact hP.sound_nameSteps h
  | parenthesized =>
    rw [steps, parenthesizedSteps]
    split
    next inner hinner => exact .visit (hP.part h ho (by simp [hinner]))
    · exact .report
  | object => exact .flatMap fun m hm => hP.sound_objectMemberSteps (hP.part h ho hm)
  | unary => exact hP.sound_unarySteps h (hkind rfl)
  | binary => exact hP.sound_binarySteps h (hkind rfl)
  | ternary =>
    have hpart {f : Field} (hf : f ∈ [Field.condition, .consequence, .alternative]) :
        Sound P [.part s (n.child? f)] :=
      hP.sound_part h ho (shape_ternary (hkind rfl)) (by simpa using hf)
        ⟨by rintro rfl; simp at hf, by rintro rfl; simp at hf⟩
    exact .append (a := [_]) (hpart (by simp))
      (.append (a := [_]) (hpart (by simp)) (hpart (by simp)))
  | member => exact hP.sound_memberSteps h (hkind rfl)
  | subscript => exact .report
  | call => exact hP.sound_callSteps h (hkind rfl)
  | function => exact hP.sound_functionSteps h hk

/-- **The steps of a node that has what a check needs do not fail**, and what is visited has it
too. -/
theorem sound_plan {room : Nat} (h : P n) : Sound P (plan ctx s room n) := by
  unfold plan
  split
  · exact .report
  cases room with
  | zero => exact .report
  | succ room =>
    dsimp only
    split
    next form hform => exact hP.sound_steps h (Form.ofKind?_eq_some_iff.mp hform)
    · exact .report

end Suffices

/-! ### The whole check -/

section Outcome

variable {ctx : Context} {P : Node → Prop} {s : Scope} {n : Node}

/-- Steps inside a node that do not fail give diagnostics, if their visits do. -/
theorem perform_eq_ok {find : Scope → Node → Except Fault (List Diagnostic)} {steps : List Step}
    (hplaced : n.all ctx.source.places) (hreach : Reach ctx s n steps) (hsound : Sound P steps)
    (hfind : ∀ t m, P m → ∃ ds, find t m = .ok ds) : ∃ ds, perform ctx find steps = .ok ds := by
  induction steps with
  | nil => exact ⟨[], rfl⟩
  | cons step rest ih =>
    obtain ⟨hstep, hrest⟩ := List.forall_mem_cons.mp hreach
    obtain ⟨hsstep, hsrest⟩ := List.forall_mem_cons.mp hsound
    obtain ⟨others, hothers⟩ := ih hrest hsrest
    have hfirst : ∃ first, step.result ctx find = .ok first := by
      cases step with
      | report m message =>
        obtain ⟨⟨above, hpath⟩, -⟩ := hstep
        exact ⟨_, report_eq (Node.all_iff.mp (hpath.all hplaced)).1⟩
      | visit t m => exact hfind t m hsstep
      | fail fault => exact absurd hsstep (by simp [Step.Sound])
    obtain ⟨first, hfirst⟩ := hfirst
    rw [perform_cons, hfirst, hothers]
    exact ⟨_, rfl⟩

/-- **The check of a node that has what a check needs gives a list of diagnostics**, at any level
and in any scope. -/
theorem Suffices.outcome_eq_ok {room : Nat} (hP : Suffices ctx.source P) (h : P n) :
    ∃ ds, outcome ctx room s n = .ok ds := by
  induction room generalizing s n with
  | zero =>
    exact perform_eq_ok (hP.placed h) reach_plan (hP.sound_plan h) fun _ _ _ => ⟨[], rfl⟩
  | succ room ih =>
    exact perform_eq_ok (hP.placed h) reach_plan (hP.sound_plan h) fun _ _ hm => ih hm

/-- The steps of a well-shaped construct do not fail. -/
theorem sound_plan {room : Nat} (h : WellShaped ctx.source n) :
    Sound (WellShaped ctx.source) (plan ctx s room n) :=
  (suffices_wellShaped ctx.source).sound_plan h

/-- The check of a well-shaped construct gives a list of diagnostics. -/
theorem outcome_eq_ok {room : Nat} (h : WellShaped ctx.source n) :
    ∃ ds, outcome ctx room s n = .ok ds :=
  (suffices_wellShaped ctx.source).outcome_eq_ok h

end Outcome

end Check

/-- **Checks of whole trees give lists of diagnostics.** If a tree is complete as far as a check
looks, and all its nodes stand between characters, then under every policy and in every scope the
check gives a list of diagnostics and restores the scope. In a tree all of whose nodes are complete,
this holds of the check of every node. -/
theorem Script.validate_whole (script : Script) (policy : Policy) (allowed : List Text)
    (scope : Scope) :
    (∀ n : Node, n.whole → n.all script.source.places →
      ∃ ds, script.validate policy allowed n scope = (.ok ds, scope)) ∧
    ∀ root : Node, root.all Node.complete → root.all script.source.places →
      ∀ above n, root.Path above n →
        ∃ ds, script.validate policy allowed n scope = (.ok ds, scope) := by
  have hwhole (n : Node) (hn : n.whole) (hplaced : n.all script.source.places) :
      ∃ ds, script.validate policy allowed n scope = (.ok ds, scope) := by
    have hchecked : ∃ ds, Check.outcome ⟨script.source, allowed, policy⟩ policy.maxDepth scope n =
        .ok ds := (Check.suffices_whole script.source).outcome_eq_ok ⟨hn, hplaced⟩
    obtain ⟨ds, hds⟩ := hchecked
    exact ⟨ds, by rw [validate, Check.validate_eq, hds]⟩
  refine ⟨hwhole, fun root hroot hplaced above n hpath => ?_⟩
  exact hwhole n (Node.whole_of_all_complete (hpath.all hroot)) (hpath.all hplaced)

/-- A sum that lacks its right part. -/
def halfSum : Node :=
  Ecma.bare "binary_expression" 4 6 [Ecma.inField (Ecma.bare "identifier" 4 5 []) .left]

/-- The negation of a name. -/
def negation : Node :=
  Ecma.bare "unary_expression" 0 3
    [{ Ecma.inField (Ecma.bare "-" 0 1 []) .operator with isNamed := false },
     Ecma.inField (Ecma.bare "identifier" 1 3 []) .argument]

/-- A check of the sum fails, but the sum may stand inside a construct that no check looks into. The
name in the negation can be checked on its own. -/
theorem halfSum_validates :
    let root := Ecma.bare "program" 0 6 [negation, Ecma.bare "do_expression" 4 6 [halfSum]]
    let script : Script := ⟨.ofChars "-é;x+".toList .utf16, root⟩
    script.validate Policy.standard [] halfSum {} = (.error (.absent .kind), {}) ∧
    (∃ ds, script.validate Policy.standard [] root {} = (.ok ds, {})) ∧
    ∃ above n, negation.Path above n ∧ n.kind = "identifier" ∧
      ∃ ds, script.validate Policy.standard [] n {} = (.ok ds, {}) := by
  intro root script
  have hvalidate := Script.validate_whole script Policy.standard [] {}
  have hpath : negation.Path [negation] (Ecma.inField (Ecma.bare "identifier" 1 3 []) .argument) :=
    .child (by simp [negation, Ecma.bare])
  exact ⟨rfl, hvalidate.1 root (by decide) (by decide), _, _, hpath, rfl,
    hvalidate.2 negation (by decide) (by decide) _ _ hpath⟩

end ScriptGate
