import ScriptGate.Proofs.Check.Totality
import ScriptGate.Proofs.Check.Unbounded
import ScriptGate.Proofs.Outcome
import ScriptGate.Proofs.Syntax.Parentheses

/-!
# Parentheses make no difference

A script means the same without its redundant parentheses, and a check of it finds the same. The
steps that a node calls for are matched, one by one, by those of the node whose children have lost
their parentheses: reports stand at the same place and say the same, and visits go to the same
expressions. Parentheses themselves only pass a check on to what stands in them.

Three rules look through parentheses by themselves, at the object of a member, at what is called and
at an expression that may be accepted as it is written. A chain of binary operators ends at
parentheses in its left part; without them it goes on, and its operands are the same
(`Check.verdict_of_binary`). The nesting limit counts parentheses as a level of their own, so it
must lie above the height of the tree.

## Main definitions

* `Check.Step.Bared`: a step that is matched by one of the tree without parentheses.

## Main results

* `Check.matched_steps`: the steps of a form are matched.
* `Check.verdict_eq_of_bared`: a check gives what a check without parentheses gives.
* `Check.validate_unparenthesized`: parentheses make no difference to a check.
-/

namespace ScriptGate.Check

variable {ctx : Context} {s : Scope} {n m : Node}

/-! ### Matched steps -/

/-- The second step does on a tree without parentheses what the first one does. -/
inductive Step.Bared : Step → Step → Prop
  | report {n m : Node} (start : m.start = n.start) (stop : m.stop = n.stop) (message : Text) :
      Bared (.report n message) (.report m message)
  | visit (s : Scope) (n : Node) : Bared (.visit s n) (.visit s n.unparenthesized)
  | fail (fault : Fault) : Bared (.fail fault) (.fail fault)

theorem Step.Bared.part (s : Scope) (o : Option Node) :
    (Step.part s o).Bared (.part s (o.map Node.unparenthesized)) := by
  cases o with
  | none => exact .fail _
  | some c => exact .visit s c

/-- Steps that are matched one by one. -/
abbrev Matched : List Step → List Step → Prop := List.Forall₂ Step.Bared

/-- **Matched steps give the same** if the visited nodes do. -/
theorem perform_of_matched {find : Scope → Node → Except Fault (List Diagnostic)}
    {first second : List Step} (h : Matched first second)
    (hfind : ∀ t c, .visit t c ∈ first → find t c = find t c.unparenthesized) :
    perform ctx find first = perform ctx find second := by
  induction h with
  | nil => rfl
  | @cons a b rest rest' hab _ ih =>
    have hstep : a.result ctx find = b.result ctx find := by
      cases hab with
      | report hstart hstop message => exact (Context.report_of_span hstart hstop).symm
      | visit t c => exact hfind t c (List.mem_cons_self ..)
      | fail fault => rfl
    rw [perform_cons, perform_cons, hstep, ih fun t c hc => hfind t c (List.mem_cons_of_mem _ hc)]

namespace Matched

theorem report (h : n.Bared m) (message : Text) :
    Matched [.report n message] [.report m message] :=
  .cons (.report h.start h.stop message) .nil

theorem visits (s : Scope) (ns : List Node) :
    Matched (ns.map (.visit s)) ((ns.map Node.unparenthesized).map (.visit s)) := by
  rw [Matched, List.map_map, List.forall₂_map_left_iff, List.forall₂_map_right_iff]
  exact List.forall₂_same.mpr fun c _ => .visit s c

theorem parts (s : Scope) (os : List (Option Node)) :
    Matched (os.map (.part s)) ((os.map (·.map Node.unparenthesized)).map (.part s)) := by
  rw [Matched, List.map_map, List.forall₂_map_left_iff, List.forall₂_map_right_iff]
  exact List.forall₂_same.mpr fun o _ => .part s o

theorem part (s : Scope) (o : Option Node) :
    Matched [.part s o] [.part s (o.map Node.unparenthesized)] :=
  parts s [o]

theorem append {first rest first' rest' : List Step} (hfirst : Matched first first')
    (hrest : Matched rest rest') : Matched (first ++ rest) (first' ++ rest') :=
  List.rel_append hfirst hrest

theorem flatMap {ns : List Node} {f : Node → List Step}
    (h : ∀ c ∈ ns, Matched (f c) (f c.unparenthesized)) :
    Matched (ns.flatMap f) ((ns.map Node.unparenthesized).flatMap f) := by
  induction ns with
  | nil => exact .nil
  | cons c ns ih =>
    exact append (h c (List.mem_cons_self ..)) (ih fun d hd => h d (List.mem_cons_of_mem _ hd))

/-- What is read of both nodes is the same, and so is what follows. -/
theorem settled_bind {α : Type} {r : Except Fault α} {f g : α → Except Fault (List Step)}
    (h : ∀ a, Matched (settled (f a)) (settled (g a))) :
    Matched (settled (r >>= f)) (settled (r >>= g)) := by
  cases r with
  | ok a => exact h a
  | error fault => exact .cons (.fail fault) .nil

/-- A part that a rule looks at is there in both nodes, or in none of them. -/
theorem need_bind {asked : Aspect} {o : Option Node} {f g : Node → Except Fault (List Step)}
    (h : ∀ c, o = some c → Matched (settled (f c)) (settled (g c.unparenthesized))) :
    Matched (settled (need asked o >>= f))
      (settled (need asked (o.map Node.unparenthesized) >>= g)) := by
  cases o with
  | none => exact .cons (.fail _) .nil
  | some c => exact h c rfl

end Matched

/-! ### The steps of each form -/

section Forms

variable (h : n.Bared m)

include h

theorem accepts_of_bared (hk : n.kind ≠ "parenthesized_expression") :
    ctx.accepts m = ctx.accepts n := by
  rw [Context.accepts, Context.accepts, Node.unwrap_of_kind hk, Node.unwrap_of_kind (h.kind ▸ hk),
    Context.text_of_span h.start h.stop]

theorem matched_nameSteps (hk : n.kind ≠ "parenthesized_expression") :
    Matched (nameSteps ctx s n) (nameSteps ctx s m) := by
  rw [nameSteps, nameSteps, Context.text_of_span h.start h.stop, accepts_of_bared h hk]
  refine .settled_bind fun name => ?_
  split
  · exact .nil
  split
  · exact .nil
  refine .settled_bind fun accepted => ?_
  cases accepted with
  | true => exact .nil
  | false => exact .report h _

variable (hp : n.all Node.parenthesesPlaced)

include hp

theorem matched_substitutions (hk : n.kind = "template_string") :
    substitutions m = (substitutions n).map Node.unparenthesized := by
  -- A piece of a template is no parentheses, so it keeps its kind.
  have hpiece (c : Node) (hc : c ∈ n.namedChildren) : c.Bared c.unparenthesized :=
    Node.bared_of_kind
      (Node.kind_ne_of_mem hp (by simp [hk, Node.memberListKinds]) (Node.mem_namedChildren.mp hc).1)
  have hall (c : Node) (hc : c ∈ n.namedChildren) : c.all Node.parenthesesPlaced :=
    (Node.all_iff.mp hp).2 c (Node.mem_namedChildren.mp hc).1
  rw [substitutions, substitutions, h.namedChildren hp]
  generalize n.namedChildren = cs at hpiece hall
  induction cs with
  | nil => rfl
  | cons c cs ih =>
    obtain ⟨hc, hcs⟩ := List.forall_mem_cons.mp hpiece
    obtain ⟨hpc, hpcs⟩ := List.forall_mem_cons.mp hall
    have ih := ih hcs hpcs
    by_cases hsub : c.kind = "template_substitution"
    · simp [hc.kind, hsub, hc.parts hpc, ih]
    · simp [hc.kind, hsub, ih]

theorem matched_parenthesizedSteps :
    Matched (parenthesizedSteps s n) (parenthesizedSteps s m) := by
  rw [parenthesizedSteps, parenthesizedSteps, h.parts hp, h.kind]
  rcases n.parts with _ | ⟨c, _ | ⟨d, rest⟩⟩
  · exact .report h _
  · exact .visits s [c]
  · exact .report h _

theorem matched_objectMemberSteps (hk : n.kind ≠ "parenthesized_expression") :
    Matched (objectMemberSteps ctx s n) (objectMemberSteps ctx s m) := by
  rw [objectMemberSteps, objectMemberSteps, h.kind]
  split
  · rw [h.child?, h.child?]
    refine .append ?_ (.part s _)
    cases hkey : n.child? .key with
    | none => exact .nil
    | some key =>
      have hbared := Node.bared_of_kind (Node.kind_ne_of_child? hp hkey rfl)
      simp only [Option.map_some, hbared.kind, hbared.parts (Node.all_child? hp hkey)]
      split
      · exact .visits s key.parts
      · exact .nil
  split
  · exact matched_nameSteps h hk
  · exact .report h _

theorem matched_objectSteps (hk : n.kind = "object") :
    Matched (n.parts.flatMap (objectMemberSteps ctx s))
      (m.parts.flatMap (objectMemberSteps ctx s)) := by
  rw [h.parts hp]
  refine .flatMap fun c hc => ?_
  have hmem := (Node.mem_parts.mp hc).1
  have hne := Node.kind_ne_of_mem hp (by simp [hk, Node.memberListKinds]) hmem
  exact matched_objectMemberSteps (Node.bared_of_kind hne) ((Node.all_iff.mp hp).2 c hmem) hne

theorem matched_unarySteps : Matched (unarySteps ctx s n) (unarySteps ctx s m) := by
  rw [unarySteps, unarySteps, h.child?, h.child?]
  refine .need_bind fun operator hoperator => ?_
  rw [(Node.bared_of_kind (Node.kind_ne_of_child? hp hoperator rfl)).kind]
  simp only [settled_pure]
  split
  · exact .part s _
  · exact .report h _

omit h hp in
/-- A namespace is recognized through parentheses. -/
theorem namespaceIn_unparenthesized {object : Option Node}
    (hp : ∀ c, object = some c → c.all Node.parenthesesPlaced) :
    namespaceIn ctx s (object.map Node.unparenthesized) = namespaceIn ctx s object := by
  cases object with
  | none => rfl
  | some c =>
    have hbared := Node.bared_unparenthesized c
    have hread : ctx.text c.unparenthesized = ctx.text c.unwrap :=
      Context.text_of_span hbared.start hbared.stop
    simp only [Option.map_some, namespaceIn, need, pure_bind,
      Node.unwrap_unparenthesized (hp c rfl), hbared.kind, hread]

theorem matched_accessSteps (trusted : Text → Text → Bool) (listed : List Text) :
    Matched (accessSteps ctx s trusted listed n) (accessSteps ctx s trusted listed m) := by
  rw [accessSteps, accessSteps, h.child?, h.child?]
  refine .need_bind fun property hproperty => ?_
  have hbared := Node.bared_of_kind (Node.kind_ne_of_child? hp hproperty rfl)
  rw [Context.text_of_span hbared.start hbared.stop]
  refine .settled_bind fun name => ?_
  rw [namespaceIn_unparenthesized fun c hc => Node.all_child? hp hc]
  refine .settled_bind fun ns => ?_
  have hreport := Matched.report hbared memberMessage
  cases ns with
  | some ns =>
    dsimp only [settled_pure]
    split
    · exact .nil
    · exact hreport
  | none =>
    refine .cons (.part s _) ?_
    split
    · exact .nil
    · exact hreport

theorem matched_memberSteps (hk : n.kind ≠ "parenthesized_expression") :
    Matched (memberSteps ctx s n) (memberSteps ctx s m) := by
  rw [memberSteps, memberSteps, h.hasOptionalChain hp, accepts_of_bared h hk]
  split
  · exact .report h _
  refine .settled_bind fun accepted => ?_
  cases accepted with
  | true => exact .nil
  | false => exact matched_accessSteps h hp _ _

theorem matched_methodSteps : Matched (methodSteps ctx s n) (methodSteps ctx s m) := by
  rw [methodSteps, methodSteps, h.hasOptionalChain hp]
  split
  · exact .report h _
  · exact matched_accessSteps h hp _ _

theorem matched_argumentSteps : Matched (argumentSteps s n) (argumentSteps s m) := by
  rw [argumentSteps, argumentSteps, h.child?]
  refine .need_bind fun arguments harguments => ?_
  have hbared := Node.bared_of_kind (Node.kind_ne_of_child? hp harguments rfl)
  rw [hbared.kind, hbared.parts (Node.all_child? hp harguments)]
  simp only [settled_pure]
  split
  · exact .visits s arguments.parts
  · exact .visits s [arguments]

theorem matched_callSteps : Matched (callSteps ctx s n) (callSteps ctx s m) := by
  rw [callSteps, callSteps, h.hasOptionalChain hp, h.child?]
  split
  · exact .report h _
  refine .need_bind fun function hfunction => ?_
  -- What is called is the same node, but for its children, however it is parenthesized.
  have hpf := Node.all_child? hp hfunction
  have hbared := Node.bared_unparenthesized function
  have hargs : Matched (argumentSteps s n) (argumentSteps s m) := matched_argumentSteps h hp
  simp only [settled_pure, Node.unwrap_unparenthesized hpf, hbared.kind]
  split
  · exact .report h _
  split
  · exact .append (matched_methodSteps hbared (Node.all_unwrap hpf)) hargs
  split
  · exact .append (.report hbared _) hargs
  · exact .report h _

omit hp in
theorem matched_parameterSteps : Matched (parameterSteps ctx n) (parameterSteps ctx m) := by
  rw [parameterSteps, parameterSteps, h.kind, Context.text_of_span h.start h.stop]
  split
  · cases ctx.text n with
    | ok name => exact .nil
    | error fault => exact .cons (.fail fault) .nil
  · exact .report h _

omit h hp in
theorem boundNames_unparenthesized {ps : List Node}
    (hps : ∀ p ∈ ps, p.Bared p.unparenthesized) :
    boundNames ctx (ps.map Node.unparenthesized) = boundNames ctx ps := by
  rw [boundNames, boundNames, List.filterMap_map]
  refine List.filterMap_congr fun p hp => ?_
  have hbared := hps p hp
  simp only [Function.comp_apply, hbared.kind, Context.text_of_span hbared.start hbared.stop]

omit h in
/-- Parameters are no parentheses. -/
theorem bared_parameter (hn : WellShaped ctx.source n) (hk : n.kind ∈ functionKinds)
    {ps : List Node} (hps : parametersOf n = .ok ps) (p : Node) (hmem : p ∈ ps) :
    p.Bared p.unparenthesized := by
  rw [parametersOf] at hps
  cases hparameter : n.child? .parameter with
  | some q =>
    rw [hparameter] at hps
    cases hps
    rw [List.mem_singleton.mp hmem]
    exact Node.bared_of_kind (Node.kind_ne_of_child? hp hparameter rfl)
  | none =>
    cases hparameters : n.child? .parameters with
    | none => simp [hparameter, hparameters, need, bind, Except.bind] at hps
    | some list =>
      rw [hparameter, hparameters] at hps
      cases hps
      have hadmits := hn.admits (shape_function hk) hparameters
      have hlist : list.kind = "formal_parameters" := by
        simpa using (Bool.and_eq_true_iff.mp hadmits).2
      refine Node.bared_of_kind (Node.kind_ne_of_mem (Node.all_child? hp hparameters) ?_
        (Node.mem_parts.mp hmem).1)
      simp [hlist, Node.memberListKinds]

theorem parametersOf_of_bared :
    parametersOf m = (parametersOf n).map (List.map Node.unparenthesized) := by
  rw [parametersOf, parametersOf, h.child?, h.child?]
  cases n.child? .parameter with
  | some p => rfl
  | none =>
    cases hparameters : n.child? .parameters with
    | none => rfl
    | some list =>
      have hbared := Node.bared_of_kind (Node.kind_ne_of_child? hp hparameters rfl)
      exact congrArg Except.ok (hbared.parts (Node.all_child? hp hparameters))

theorem matched_functionSteps (hn : WellShaped ctx.source n) (hk : n.kind ∈ functionKinds) :
    Matched (functionSteps ctx s n) (functionSteps ctx s m) := by
  rw [functionSteps, functionSteps, parametersOf_of_bared h hp, h.child?]
  cases hps : parametersOf n with
  | error fault => exact .cons (.fail fault) .nil
  | ok ps =>
    have hbared := bared_parameter hp hn hk hps
    have hbound : boundNames ctx (ps.map Node.unparenthesized) = boundNames ctx ps :=
      boundNames_unparenthesized hbared
    refine Matched.append (.flatMap fun p hmem => matched_parameterSteps (hbared p hmem)) ?_
    rw [hbound]
    exact .part _ _

/-- **The steps of a form are matched** by those of the node whose children have lost their
parentheses. A chain of binary operators has other steps. -/
theorem matched_steps (hn : WellShaped ctx.source n) {form : Form} (hk : n.kind ∈ form.kinds)
    (hform : form ≠ .binary) : Matched (steps ctx s form n) (steps ctx s form m) := by
  cases form with
  | sequence =>
    rw [steps, steps, h.parts hp]
    exact .visits s n.parts
  | literal => exact .nil
  | template =>
    rw [steps, steps, matched_substitutions h hp (by simpa [Form.kinds] using hk)]
    exact .visits s (substitutions n)
  | identifier =>
    have hk : n.kind = "identifier" := by simpa [Form.kinds] using hk
    exact matched_nameSteps h (by simp [hk])
  | parenthesized => exact matched_parenthesizedSteps h hp
  | object => exact matched_objectSteps h hp (by simpa [Form.kinds] using hk)
  | unary => exact matched_unarySteps h hp
  | binary => exact absurd rfl hform
  | ternary =>
    rw [steps, steps, h.child?, h.child?, h.child?]
    exact .parts s [n.child? .condition, n.child? .consequence, n.child? .alternative]
  | member =>
    have hk : n.kind = "member_expression" := by simpa [Form.kinds] using hk
    exact matched_memberSteps h hp (by simp [hk])
  | subscript => exact .report h _
  | call => exact matched_callSteps h hp
  | function => exact matched_functionSteps h hp hn hk

end Forms

/-! ### The whole check -/

/-- A visit of a check stays inside the parentheses and shapes of its tree, and goes down. -/
theorem inside_of_visit {room : Nat} {t : Scope} {c : Node} (hn : WellShaped ctx.source n)
    (hp : n.all Node.parenthesesPlaced) (hc : .visit t c ∈ plan ctx s room n) :
    WellShaped ctx.source c ∧ c.all Node.parenthesesPlaced ∧ c.height < n.height := by
  obtain ⟨above, hroute, -⟩ := reach_plan _ hc
  exact ⟨sound_plan hn _ hc, hroute.path.all hp, height_lt_of_visit hc⟩

/-- Parentheses pass a check on to what stands in them. -/
theorem verdict_of_contents {c : Node} (hp : n.all Node.parenthesesPlaced)
    (hk : n.kind = "parenthesized_expression") (hc : n.contents = [c]) :
    verdict ctx s n = verdict ctx s c := by
  have hmark := (Node.parenthesesPlaced_self (Node.all_iff.mp hp).1 hk).2 c
    (hc ▸ List.mem_singleton_self c)
  have hline : c.unwrap.kind ≠ "hash_bang_line" := by
    rw [← (Node.bared_unparenthesized c).kind, Ne, Node.kind_unparenthesized_iff
      ((Node.all_iff.mp hp).2 c (Node.mem_children_of_contents hc).1) (by decide)]
    rintro heq
    simp [heq, Node.markKinds] at hmark
  have hform : n.kind ∈ Form.parenthesized.kinds := by simp [Form.kinds, hk]
  rw [verdict_of_form hform, steps, parenthesizedSteps, Node.parts_of_contents hc hline]
  exact perform_singleton ctx _ _

/-- A check of a chain gives what a check without parentheses gives, if checks of its left part and
its right part do. -/
theorem verdict_of_binary_bared (h : n.Bared m) (hk : n.kind = "binary_expression")
    (hfind : ∀ f c, n.child? f = some c → f ≠ .operator →
      verdict ctx s c = verdict ctx s c.unparenthesized) :
    verdict ctx s n = verdict ctx s m := by
  rw [verdict_of_binary hk, verdict_of_binary (h.kind.trans hk), h.child?, h.child?]
  refine perform_of_matched (.parts s [n.child? .left, n.child? .right]) fun t c hc => ?_
  simp only [List.mem_cons, List.not_mem_nil, or_false] at hc
  rcases hc with hc | hc
  · obtain ⟨rfl, hleft⟩ := eq_of_part_eq_visit hc.symm
    exact hfind .left c hleft (by decide)
  · obtain ⟨rfl, hright⟩ := eq_of_part_eq_visit hc.symm
    exact hfind .right c hright (by decide)

/-- **A check gives what a check without parentheses gives.** The induction is on the height of the
tree, because a chain goes on through parentheses. -/
theorem verdict_eq_of_bared (hn : WellShaped ctx.source n) (hp : n.all Node.parenthesesPlaced)
    (h : n.unwrap.Bared m) : verdict ctx s n = verdict ctx s m := by
  induction hheight : n.height using Nat.strongRecOn generalizing n m s with
  | ind height ih =>
    have hvisit {t : Scope} {c : Node} (hwell : WellShaped ctx.source c)
        (hpc : c.all Node.parenthesesPlaced) (hlt : c.height < n.height) :
        verdict ctx t c = verdict ctx t c.unparenthesized :=
      ih c.height (hheight ▸ hlt) hwell hpc (Node.bared_unparenthesized c) rfl
    rcases Node.unwrap_cases n with hunwrap | ⟨hk, c, hc, hunwrap⟩
    · rw [hunwrap] at h
      by_cases hform : ∃ form : Form, n.kind ∈ form.kinds
      · obtain ⟨form, hk⟩ := hform
        have hkm : m.kind ∈ form.kinds := h.kind ▸ hk
        by_cases hbinary : form = .binary
        · have hk : n.kind = "binary_expression" := by simpa [hbinary, Form.kinds] using hk
          exact verdict_of_binary_bared h hk fun f c hc hf =>
            hvisit (hn.child? (shape_binary hk) hc hf) (Node.all_child? hp hc)
              (Node.height_lt_of_mem_children (Node.child?_eq_some hc).1)
        · rw [verdict_of_form hk, verdict_of_form hkm]
          refine perform_of_matched (matched_steps h hp hn hk hbinary) fun t c hc => ?_
          have hplan : plan ctx s (0 + 1) n = steps ctx s form n := plan_of_form hk
          obtain ⟨hwell, hpc, hlt⟩ := inside_of_visit hn hp (hplan ▸ hc)
          exact hvisit hwell hpc hlt
      · have hform : ∀ form : Form, n.kind ∉ form.kinds := fun form hk => hform ⟨form, hk⟩
        rw [verdict_of_no_form hform, verdict_of_no_form (h.kind ▸ hform), h.kind,
          Context.report_of_span h.start h.stop]
    · have hmem := Node.mem_children_of_contents hc
      rw [verdict_of_contents hp hk hc]
      exact ih c.height (hheight ▸ Node.height_lt_of_mem_children hmem.1)
        (hn.content hmem.1 hmem.2) ((Node.all_iff.mp hp).2 c hmem.1) (hunwrap ▸ h) rfl

/-- **Parentheses make no difference.** A check of a tree that the nesting limit does not cut short
finds the same, in the same order, on the tree without its parentheses, in which none are left that
hold exactly one expression. -/
theorem validate_unparenthesized (hn : WellShaped ctx.source n)
    (hp : n.all Node.parenthesesPlaced) (hheight : n.height < ctx.policy.maxDepth) (s : Scope) :
    (n.unparenthesized.all fun m =>
      m.kind ≠ "parenthesized_expression" || m.contents.length ≠ 1) ∧
    ∃ ds, validate ctx n s = (.ok ds, s) ∧ validate ctx n.unparenthesized s = (.ok ds, s) := by
  refine ⟨Node.all_unparenthesized hp, ?_⟩
  obtain ⟨ds, hds⟩ : ∃ ds, outcome ctx ctx.policy.maxDepth s n = .ok ds := outcome_eq_ok hn
  have hverdict : verdict ctx s n = verdict ctx s n.unparenthesized :=
    verdict_eq_of_bared hn hp (Node.bared_unparenthesized n)
  refine ⟨ds, by rw [validate_eq, hds], ?_⟩
  have hlower := Nat.lt_of_le_of_lt n.height_unparenthesized_le hheight
  rw [validate_eq, outcome_eq_verdict hlower, ← hverdict, ← outcome_eq_verdict hheight, hds]

open Ecma in
/-- The tree of `((Math).max)((1 + 2) + y)`. -/
def groupedCall : Node :=
  let object := bare "parenthesized_expression" 1 7 [bare "identifier" 2 6 []]
  let member := bare "member_expression" 1 11
    [inField object .object, inField (bare "property_identifier" 8 11 []) .property]
  let sum := bare "binary_expression" 14 19
    [inField (bare "number" 14 15 []) .left, inField (bare "number" 18 19 []) .right]
  let chain := bare "binary_expression" 13 24
    [inField (bare "parenthesized_expression" 13 20 [sum]) .left,
     inField (bare "identifier" 23 24 []) .right]
  let call := bare "call_expression" 0 25
    [inField (bare "parenthesized_expression" 0 12 [member]) .function,
     inField (bare "arguments" 12 25 [chain]) .arguments]
  bare "program" 0 25 [bare "expression_statement" 0 25 [call]]

/-- The name `y` is reported in the same way without the parentheses. -/
theorem groupedCall_unparenthesized :
    let ctx := standardContext "((Math).max)((1 + 2) + y)" []
    (validate ctx groupedCall {}).1 = .ok [⟨23, 24, "unidetified: y"⟩] ∧
      (validate ctx groupedCall.unparenthesized {}).1 = .ok [⟨23, 24, "unidetified: y"⟩] ∧
      groupedCall.unparenthesized.all fun m =>
        m.kind ≠ "parenthesized_expression" || m.contents.length ≠ 1 := by
  intro ctx
  have hfound : (validate ctx groupedCall {}).1 = .ok [⟨23, 24, "unidetified: y"⟩] :=
    eq_ok_of_toOption (by decide +kernel)
  obtain ⟨hnone, ds, hds, hsame⟩ : _ ∧ ∃ ds, validate ctx groupedCall {} = (.ok ds, {}) ∧
      validate ctx groupedCall.unparenthesized {} = (.ok ds, {}) :=
    validate_unparenthesized (by decide) (by decide) (by decide) {}
  refine ⟨hfound, ?_, hnone⟩
  rw [hsame, ← hfound, hds]

end ScriptGate.Check
