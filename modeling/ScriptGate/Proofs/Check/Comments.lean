import ScriptGate.Check.Script
import ScriptGate.Ecma.Parser
import ScriptGate.Proofs.Check.Reach
import ScriptGate.Proofs.Outcome
import ScriptGate.Proofs.Syntax.Comments

/-!
# Comments make no difference

Every rule passes over comments, each in its own way: among the children of a node, inside
parentheses, in search of a part, of an optional chain or of the substitutions of a template. The
steps that a node calls for are therefore those of the node without its comments, with the same
reports and visits, and a check without comments finds the same or fails in the same way. Nothing is
asked of the tree but that its comments play no part.

## Main definitions

* `Check.Step.uncommented`: a step in the tree without comments.

## Main results

* `Check.steps_uncommented`, `Check.plan_uncommented`: the steps of a node without its comments.
* `Check.outcome_uncommented`: a check gives the same without comments.
* `Script.validate_uncommented`: comments make no difference to a check.
-/

namespace ScriptGate

namespace Check

/-- What a step does in the tree without comments. -/
def Step.uncommented : Step → Step
  | .report n message => .report n.uncommented message
  | .visit s n => .visit s n.uncommented
  | .fail fault => .fail fault

variable {ctx : Context} {s : Scope} {n : Node}

theorem text_uncommented (n : Node) : ctx.text n.uncommented = ctx.text n :=
  Context.text_of_span n.uncommented_start n.uncommented_stop

theorem accepts_uncommented (n : Node) : ctx.accepts n.uncommented = ctx.accepts n := by
  rw [Context.accepts, Context.accepts, Node.unwrap_uncommented, text_uncommented]

/-- Steps without comments give the same, if the visited nodes do. -/
theorem perform_uncommented {find : Scope → Node → Except Fault (List Diagnostic)}
    {steps : List Step} (hfind : ∀ t c, .visit t c ∈ steps → find t c.uncommented = find t c) :
    perform ctx find (steps.map Step.uncommented) = perform ctx find steps := by
  induction steps with
  | nil => rfl
  | cons step rest ih =>
    have hstep : step.uncommented.result ctx find = step.result ctx find := by
      cases step with
      | report m message => exact Context.report_of_span m.uncommented_start m.uncommented_stop
      | visit t c => exact hfind t c (List.mem_cons_self ..)
      | fail fault => rfl
    rw [List.map_cons, perform_cons, perform_cons, hstep,
      ih fun t c hc => hfind t c (List.mem_cons_of_mem _ hc)]

/-! ### Steps that depend on what is read -/

theorem part_uncommented (s : Scope) (o : Option Node) :
    Step.part s (o.map Node.uncommented) = (Step.part s o).uncommented := by
  cases o with
  | none => rfl
  | some c => rfl

theorem map_part_uncommented (s : Scope) (os : List (Option Node)) :
    (os.map (Option.map Node.uncommented)).map (.part s) =
      (os.map (.part s)).map Step.uncommented := by
  rw [List.map_map, List.map_map]
  exact List.map_congr_left fun o _ => part_uncommented s o

theorem map_visit_uncommented (s : Scope) (ns : List Node) :
    (ns.map Node.uncommented).map (.visit s) = (ns.map (.visit s)).map Step.uncommented := by
  rw [List.map_map, List.map_map]
  rfl

theorem flatMap_uncommented {f : Node → List Step} {ns : List Node}
    (h : ∀ c ∈ ns, f c.uncommented = (f c).map Step.uncommented) :
    (ns.map Node.uncommented).flatMap f = (ns.flatMap f).map Step.uncommented := by
  induction ns with
  | nil => rfl
  | cons c ns ih =>
    obtain ⟨hc, hns⟩ := List.forall_mem_cons.mp h
    rw [List.map_cons, List.flatMap_cons, List.flatMap_cons, List.map_append, hc, ih hns]

/-- What is read of both nodes is the same, and so is what follows. -/
theorem settled_bind_uncommented {α : Type} {r : Except Fault α}
    {f g : α → Except Fault (List Step)}
    (h : ∀ a, settled (g a) = (settled (f a)).map Step.uncommented) :
    settled (r >>= g) = (settled (r >>= f)).map Step.uncommented := by
  cases r with
  | ok a => exact h a
  | error fault => rfl

/-- A part that a rule looks at is there with and without comments, or in neither case. -/
theorem need_bind_uncommented {asked : Aspect} {o : Option Node}
    {f g : Node → Except Fault (List Step)}
    (h : ∀ c, o = some c → settled (g c.uncommented) = (settled (f c)).map Step.uncommented) :
    settled (need asked (o.map Node.uncommented) >>= g) =
      (settled (need asked o >>= f)).map Step.uncommented := by
  cases o with
  | none => rfl
  | some c => exact h c rfl

/-! ### The steps of each form -/

theorem nameSteps_uncommented (n : Node) :
    nameSteps ctx s n.uncommented = (nameSteps ctx s n).map Step.uncommented := by
  rw [nameSteps, nameSteps, text_uncommented, accepts_uncommented]
  refine settled_bind_uncommented fun name => ?_
  split
  · rfl
  split
  · rfl
  refine settled_bind_uncommented fun accepted => ?_
  cases accepted with
  | true => rfl
  | false => rfl

theorem substitutions_uncommented (n : Node) :
    substitutions n.uncommented = (substitutions n).map Node.uncommented := by
  rw [substitutions, substitutions, n.namedChildren_uncommented (by decide)]
  induction n.namedChildren.filter fun c => c.kind = "template_substitution" with
  | nil => rfl
  | cons c cs ih =>
    rw [List.map_cons, List.flatMap_cons, List.flatMap_cons, List.map_append, ih,
      c.parts_uncommented]

theorem parenthesizedSteps_uncommented (n : Node) :
    parenthesizedSteps s n.uncommented = (parenthesizedSteps s n).map Step.uncommented := by
  rw [parenthesizedSteps, parenthesizedSteps, n.parts_uncommented, n.uncommented_kind]
  rcases n.parts with _ | ⟨c, _ | ⟨d, rest⟩⟩
  · rfl
  · rfl
  · rfl

/-- A namespace is recognized without comments, too. -/
theorem namespaceIn_uncommented (o : Option Node) :
    namespaceIn ctx s (o.map Node.uncommented) = namespaceIn ctx s o := by
  cases o with
  | none => rfl
  | some c =>
    simp only [Option.map_some, namespaceIn, need, pure_bind, Node.unwrap_uncommented,
      Node.uncommented_kind, text_uncommented]

theorem boundNames_uncommented (ps : List Node) :
    boundNames ctx (ps.map Node.uncommented) = boundNames ctx ps := by
  rw [boundNames, boundNames, List.filterMap_map]
  refine List.filterMap_congr fun p _ => ?_
  rw [Function.comp_apply, Node.uncommented_kind, text_uncommented]

theorem parameterSteps_uncommented (p : Node) :
    parameterSteps ctx p.uncommented = (parameterSteps ctx p).map Step.uncommented := by
  rw [parameterSteps, parameterSteps, p.uncommented_kind, text_uncommented]
  split
  · cases ctx.text p with
    | ok name => rfl
    | error fault => rfl
  · rfl

section Loose

variable (hn : n.all Node.commentLoose)

include hn

theorem objectMemberSteps_uncommented :
    objectMemberSteps ctx s n.uncommented = (objectMemberSteps ctx s n).map Step.uncommented := by
  rw [objectMemberSteps, objectMemberSteps, n.uncommented_kind]
  split
  · rw [Node.child?_uncommented hn, Node.child?_uncommented hn, List.map_append,
      List.map_singleton, part_uncommented]
    congr 1
    cases n.child? .key with
    | none => rfl
    | some key =>
      rw [Option.map_some]
      dsimp only
      rw [key.uncommented_kind]
      split
      · rw [key.parts_uncommented]
        exact map_visit_uncommented s key.parts
      · rfl
  split
  · exact nameSteps_uncommented n
  · rw [List.map_singleton]
    rfl

theorem unarySteps_uncommented :
    unarySteps ctx s n.uncommented = (unarySteps ctx s n).map Step.uncommented := by
  rw [unarySteps, unarySteps, Node.child?_uncommented hn, Node.child?_uncommented hn]
  refine need_bind_uncommented fun operator _ => ?_
  simp only [operator.uncommented_kind, settled_pure, part_uncommented]
  split
  · rfl
  · rfl

theorem binarySteps_uncommented :
    binarySteps s n.uncommented = (binarySteps s n).map Step.uncommented := by
  rw [binarySteps, binarySteps, Node.operands_uncommented hn]
  cases n.operands with
  | none => rfl
  | some ops => exact map_part_uncommented s ops

theorem accessSteps_uncommented (trusted : Text → Text → Bool) (listed : List Text) :
    accessSteps ctx s trusted listed n.uncommented =
      (accessSteps ctx s trusted listed n).map Step.uncommented := by
  rw [accessSteps, accessSteps, Node.child?_uncommented hn, Node.child?_uncommented hn]
  refine need_bind_uncommented fun property _ => ?_
  rw [text_uncommented, namespaceIn_uncommented, part_uncommented]
  refine settled_bind_uncommented fun name => settled_bind_uncommented fun ns => ?_
  cases ns with
  | some ns =>
    dsimp only [settled_pure]
    split
    · rfl
    · rfl
  | none =>
    dsimp only [settled_pure]
    split
    · rfl
    · rfl

theorem memberSteps_uncommented :
    memberSteps ctx s n.uncommented = (memberSteps ctx s n).map Step.uncommented := by
  rw [memberSteps, memberSteps, n.hasOptionalChain_uncommented, accepts_uncommented]
  split
  · rfl
  refine settled_bind_uncommented fun accepted => ?_
  cases accepted with
  | true => rfl
  | false => exact accessSteps_uncommented hn _ _

theorem methodSteps_uncommented :
    methodSteps ctx s n.uncommented = (methodSteps ctx s n).map Step.uncommented := by
  rw [methodSteps, methodSteps, n.hasOptionalChain_uncommented]
  split
  · rfl
  · exact accessSteps_uncommented hn _ _

theorem argumentSteps_uncommented :
    argumentSteps s n.uncommented = (argumentSteps s n).map Step.uncommented := by
  rw [argumentSteps, argumentSteps, Node.child?_uncommented hn]
  refine need_bind_uncommented fun arguments _ => ?_
  rw [arguments.uncommented_kind, arguments.parts_uncommented, settled_pure, settled_pure]
  split
  · exact map_visit_uncommented s arguments.parts
  · rfl

theorem callSteps_uncommented :
    callSteps ctx s n.uncommented = (callSteps ctx s n).map Step.uncommented := by
  rw [callSteps, callSteps, n.hasOptionalChain_uncommented, Node.child?_uncommented hn]
  split
  · rfl
  refine need_bind_uncommented fun function hfunction => ?_
  have hcallee : function.unwrap.all Node.commentLoose :=
    Node.unwrap_induction (motive := fun c => c.all Node.commentLoose)
      (fun _ c h _ hc _ => (Node.all_iff.mp h).2 c hc)
      ((Node.all_iff.mp hn).2 function (Node.child?_eq_some hfunction).1)
  simp only [Node.unwrap_uncommented, Node.uncommented_kind, settled_pure,
    argumentSteps_uncommented hn, methodSteps_uncommented hcallee]
  split
  · rfl
  split
  · exact List.map_append.symm
  split
  · rfl
  · rfl

theorem parametersOf_uncommented :
    parametersOf n.uncommented = (parametersOf n).map (List.map Node.uncommented) := by
  rw [parametersOf, parametersOf, Node.child?_uncommented hn, Node.child?_uncommented hn]
  cases n.child? .parameter with
  | some p => rfl
  | none =>
    cases n.child? .parameters with
    | none => rfl
    | some list => exact congrArg Except.ok list.parts_uncommented

theorem functionSteps_uncommented :
    functionSteps ctx s n.uncommented = (functionSteps ctx s n).map Step.uncommented := by
  rw [functionSteps, functionSteps, parametersOf_uncommented hn, Node.child?_uncommented hn]
  cases parametersOf n with
  | error fault => rfl
  | ok ps =>
    have hparameters : (ps.map Node.uncommented).flatMap (parameterSteps ctx) =
        (ps.flatMap (parameterSteps ctx)).map Step.uncommented :=
      flatMap_uncommented fun p _ => parameterSteps_uncommented p
    change (ps.map Node.uncommented).flatMap (parameterSteps ctx) ++
        [Step.part (s.enter (boundNames ctx (ps.map Node.uncommented))) _] =
      (ps.flatMap (parameterSteps ctx) ++ [Step.part (s.enter (boundNames ctx ps)) _]).map _
    rw [hparameters, boundNames_uncommented, List.map_append, List.map_singleton,
      part_uncommented]

/-- **The steps of a form are those of the node without its comments.** -/
theorem steps_uncommented (form : Form) :
    steps ctx s form n.uncommented = (steps ctx s form n).map Step.uncommented := by
  cases form with
  | sequence =>
    rw [steps, steps, n.parts_uncommented]
    exact map_visit_uncommented s n.parts
  | literal => rfl
  | template =>
    rw [steps, steps, substitutions_uncommented]
    exact map_visit_uncommented s (substitutions n)
  | identifier => exact nameSteps_uncommented n
  | parenthesized => exact parenthesizedSteps_uncommented n
  | object =>
    rw [steps, steps, n.parts_uncommented]
    refine flatMap_uncommented fun c hc => ?_
    exact objectMemberSteps_uncommented ((Node.all_iff.mp hn).2 c (Node.mem_parts.mp hc).1)
  | unary => exact unarySteps_uncommented hn
  | binary => exact binarySteps_uncommented hn
  | ternary =>
    rw [steps, steps, Node.child?_uncommented hn, Node.child?_uncommented hn,
      Node.child?_uncommented hn]
    exact map_part_uncommented s [n.child? .condition, n.child? .consequence, n.child? .alternative]
  | member => exact memberSteps_uncommented hn
  | subscript => rfl
  | call => exact callSteps_uncommented hn
  | function => exact functionSteps_uncommented hn

theorem plan_uncommented (room : Nat) :
    plan ctx s room n.uncommented = (plan ctx s room n).map Step.uncommented := by
  unfold plan
  rw [n.uncommented_kind]
  split
  · rfl
  cases room with
  | zero => rfl
  | succ room =>
    dsimp only
    split
    · exact steps_uncommented hn _
    · rfl

/-! ### The whole check -/

/-- **A check gives the same without comments**, at any level: the same diagnostics, or the same
fault. -/
theorem outcome_uncommented {room : Nat} :
    outcome ctx room s n.uncommented = outcome ctx room s n := by
  induction room generalizing s n with
  | zero =>
    rw [outcome, outcome, plan_uncommented hn]
    exact perform_uncommented fun _ _ _ => rfl
  | succ room ih =>
    rw [outcome, outcome, plan_uncommented hn]
    refine perform_uncommented fun t c hc => ?_
    obtain ⟨above, hroute, -⟩ := reach_plan _ hc
    exact ih (hroute.path.all hn)

end Loose

end Check

/-- **Comments make no difference.** Take any tree, well-shaped or not, in which no comment plays a
part, and any node of it that is not a comment. Without its comments, of which none are left at any
level, a check of it gives the same diagnostics, or fails with the same fault, in every scope and
under every policy. -/
theorem Script.validate_uncommented (script : Script) (policy : Policy) (allowed : List Text)
    {n : Node} (hloose : n.all Node.commentLoose) (hn : n.isComment = false) (scope : Scope) :
    n.uncommented.all (!·.isComment) ∧
      script.validate policy allowed n.uncommented scope =
        script.validate policy allowed n scope := by
  refine ⟨Node.all_uncommented hn, ?_⟩
  rw [validate, validate, Check.validate_eq, Check.validate_eq, Check.outcome_uncommented hloose]

section Notes

open Ecma

/-- The tree of `(/*m*/Math)/*d*/.max(/*a*/y)`. -/
def notedCall : Node :=
  let object := bare "parenthesized_expression" 0 11
    [bare "comment" 1 6 [], bare "identifier" 6 10 []]
  let member := bare "member_expression" 0 20
    [inField object .object, bare "comment" 11 16 [],
     inField (bare "property_identifier" 17 20 []) .property]
  let arguments := bare "arguments" 20 28 [bare "comment" 21 26 [], bare "identifier" 26 27 []]
  bare "program" 0 28 [bare "expression_statement" 0 28
    [bare "call_expression" 0 28 [inField member .function, inField arguments .arguments]]]

/-- An operator of which only a comment is left. -/
def notedOperator : Node := bare "unary_expression" 0 6 [bare "comment" 1 6 []]

/-- The namespace is recognized beside its comment, the name `y` is reported, and the operator that
is absent is missed, with the comments and without them. -/
theorem notedCall_uncommented :
    let script : Script := ⟨.ofChars "(/*m*/Math)/*d*/.max(/*a*/y)".toList .utf16, notedCall⟩
    let check (n : Node) := (script.validate Policy.standard [] n {}).1
    check notedCall = .ok [⟨26, 27, "unidetified: y"⟩] ∧
      check notedCall.uncommented = .ok [⟨26, 27, "unidetified: y"⟩] ∧
      check notedOperator = .error (.absent .kind) ∧
      check notedOperator.uncommented = .error (.absent .kind) ∧
      notedOperator.uncommented.children = [] := by
  intro script check
  have hname : check notedCall = .ok [⟨26, 27, "unidetified: y"⟩] :=
    eq_ok_of_toOption (by decide +kernel)
  have hfault : check notedOperator = .error (.absent .kind) := rfl
  have hcall := (script.validate_uncommented Policy.standard [] (n := notedCall) (by decide)
    (by decide) {}).2
  have hoperator := (script.validate_uncommented Policy.standard [] (n := notedOperator)
    (by decide) (by decide) {}).2
  exact ⟨hname, (congrArg Prod.fst hcall).trans hname, hfault,
    (congrArg Prod.fst hoperator).trans hfault, rfl⟩

end Notes

end ScriptGate
