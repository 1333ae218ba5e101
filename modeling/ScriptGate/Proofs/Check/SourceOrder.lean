import ScriptGate.Check.Script
import ScriptGate.Ecma.Parser
import ScriptGate.Proofs.Check.Steps
import ScriptGate.Proofs.Syntax.Layout

/-!
# Diagnostics in source order

The steps of a check of a node meet nodes that stand one after the other inside it: the object of a
member before its name, the callee of a call before the arguments, parameters before the body, and
the operands of a chain from left to right. A node that is reported is not looked into. Hence no two
diagnostics overlap, and they come in the order of the script. The same holds of syntax errors,
which are the outermost error regions of a tree.

## Main definitions

* `Check.nodes`: the nodes that steps report or visit.
* `InOrder`: diagnostics that do not overlap and come in source order; `Ordered`: those between two
  places.

## Main results

* `Check.inRow_plan`: the steps of a node meet nodes in a row inside it.
* `Check.orderedIn_outcome`: what a check finds in a node stands in order inside it.
* `Script.ordered_syntaxErrors`: so do syntax errors.
* `diagnostics_inOrder`: diagnostics do not overlap and come in source order.
-/

namespace ScriptGate

/-! ### Nodes that steps meet -/

namespace Check

/-- The node that a step reports or visits. -/
def Step.node? : Step → Option Node
  | .report n _ => some n
  | .visit _ n => some n
  | .fail _ => none

/-- The nodes that steps report or visit. -/
def nodes (steps : List Step) : List Node := steps.filterMap Step.node?

section Nodes

variable {s : Scope} {n : Node} {rest : List Step}

@[simp] theorem nodes_nil : nodes [] = [] := rfl

@[simp] theorem nodes_report_cons {message : Text} :
    nodes (.report n message :: rest) = n :: nodes rest := rfl

@[simp] theorem nodes_visit_cons : nodes (.visit s n :: rest) = n :: nodes rest := rfl

@[simp] theorem nodes_fail_cons {fault : Fault} : nodes (.fail fault :: rest) = nodes rest := rfl

@[simp] theorem nodes_part_cons {o : Option Node} :
    nodes (.part s o :: rest) = o.toList ++ nodes rest := by
  cases o <;> rfl

@[simp] theorem nodes_append {first : List Step} :
    nodes (first ++ rest) = nodes first ++ nodes rest := List.filterMap_append

@[simp] theorem nodes_map_visit {ns : List Node} : nodes (ns.map (.visit s)) = ns := by
  induction ns with
  | nil => rfl
  | cons n ns ih => simp [ih]

@[simp] theorem nodes_map_part {os : List (Option Node)} :
    nodes (os.map (.part s)) = os.filterMap id := by
  induction os with
  | nil => rfl
  | cons o os ih => cases o <;> simp [ih]

@[simp] theorem nodes_flatMap {α : Type} {l : List α} {f : α → List Step} :
    nodes (l.flatMap f) = l.flatMap fun a => nodes (f a) := by
  induction l with
  | nil => rfl
  | cons a l ih => simp [List.flatMap_cons, ih]

end Nodes

/-! ### The steps of each form -/

section Rows

variable {ctx : Context} {s : Scope} {n : Node}

/-- Steps that depend on something that may fail: where it fails, no node is met. -/
theorem inRow_settled_bind {α : Type} {src : Source} {lo hi : Nat} {x : Except Fault α}
    {f : α → Except Fault (List Step)}
    (h : ∀ a, x = .ok a → InRow src lo hi (nodes (settled (f a)))) :
    InRow src lo hi (nodes (settled (x >>= f))) := by
  cases x with
  | error fault => exact .nil
  | ok a => exact h a rfl

/-- A node that is reported is alone in its row. -/
theorem inRow_report {message : Text} (h : Laid ctx.source n) :
    InRow ctx.source n.start n.stop (nodes [.report n message]) := .singleton h

theorem inRow_parts (h : Laid ctx.source n) : InRow ctx.source n.start n.stop n.parts :=
  h.inRow_children.sublist (List.filter_sublist.trans List.filter_sublist)

theorem inRow_nameSteps (h : Laid ctx.source n) :
    InRow ctx.source n.start n.stop (nodes (nameSteps ctx s n)) := by
  refine inRow_settled_bind fun name _ => ?_
  split
  · exact .nil
  split
  · exact .nil
  refine inRow_settled_bind fun accepted _ => ?_
  cases accepted with
  | true => exact .nil
  | false => exact inRow_report h

theorem inRow_objectMemberSteps (h : Laid ctx.source n) :
    InRow ctx.source n.start n.stop (nodes (objectMemberSteps ctx s n)) := by
  rw [objectMemberSteps]
  split
  · rw [nodes_append, nodes_part_cons, nodes_nil, List.append_nil]
    refine h.inRow_append (f := .key) (g := .value) (by decide) ?_ (.self h)
    cases hkey : n.child? .key with
    | none => exact .nil
    | some key =>
      by_cases hcomputed : key.kind = "computed_property_name"
      · simpa [hcomputed, InPart] using inRow_parts (h.child? hkey)
      · simp [hcomputed]
  split
  · exact inRow_nameSteps h
  · exact inRow_report h

theorem inRow_unarySteps (h : Laid ctx.source n) :
    InRow ctx.source n.start n.stop (nodes (unarySteps ctx s n)) := by
  refine inRow_settled_bind fun operator _ => ?_
  by_cases hlisted : Text.ofString operator.kind ∈ ctx.policy.unaryOperators
  · simpa [hlisted, settled_pure] using h.inRow_of_inPart (.self h)
  · simpa [hlisted, settled_pure] using InRow.singleton h

theorem inRow_accessSteps {lends : Text → Text → Bool} {listed : List Text}
    (h : Laid ctx.source n) :
    InRow ctx.source n.start n.stop (nodes (accessSteps ctx s lends listed n)) := by
  refine inRow_settled_bind fun property hproperty => inRow_settled_bind fun name _ =>
    inRow_settled_bind fun ns _ => ?_
  have hself : InPart ctx.source (n.child? .property) [property] := by
    rw [need_eq_ok hproperty]
    exact .singleton (h.child? (need_eq_ok hproperty))
  cases ns with
  | some ns =>
    by_cases hlends : lends ns name
    · simp [hlends, settled_pure]
    · simpa [hlends, settled_pure] using h.inRow_of_inPart hself
  | none =>
    have hobject : InPart ctx.source (n.child? .object) (n.child? .object).toList := .self h
    by_cases hlisted : name ∈ listed
    · simpa [hlisted, settled_pure] using h.inRow_of_inPart hobject
    · simpa [hlisted, settled_pure] using h.inRow_append (by decide) hobject hself

theorem inRow_memberSteps (h : Laid ctx.source n) :
    InRow ctx.source n.start n.stop (nodes (memberSteps ctx s n)) := by
  rw [memberSteps]
  split
  · exact inRow_report h
  refine inRow_settled_bind fun accepted _ => ?_
  cases accepted with
  | true => exact .nil
  | false => exact inRow_accessSteps h

theorem inRow_methodSteps (h : Laid ctx.source n) :
    InRow ctx.source n.start n.stop (nodes (methodSteps ctx s n)) := by
  rw [methodSteps]
  split
  · exact inRow_report h
  · exact inRow_accessSteps h

theorem inPart_argumentSteps (h : Laid ctx.source n) :
    InPart ctx.source (n.child? .arguments) (nodes (argumentSteps s n)) := by
  cases ha : n.child? .arguments with
  | none => simp [argumentSteps, ha, need, settled, bind, Except.bind, throw, throwThe,
      MonadExceptOf.throw]
  | some a =>
    have hlaid := h.child? ha
    by_cases hk : a.kind = "arguments"
    · simpa [argumentSteps, ha, need, settled, bind, Except.bind, pure, Except.pure, hk, InPart]
        using inRow_parts hlaid
    · simpa [argumentSteps, ha, need, settled, bind, Except.bind, pure, Except.pure, hk, InPart]
        using InRow.singleton hlaid

/-- A callee is looked at without its parentheses, but it stands inside them. -/
theorem inPart_unwrap {f c : Node} {ns : List Node} (h : Laid ctx.source n)
    (hf : n.child? .function = some f) (hc : f.unwrap = c)
    (hrow : Laid ctx.source c → InRow ctx.source c.start c.stop ns) :
    InPart ctx.source (n.child? .function) ns := by
  obtain ⟨hlaid, hstart, hstop⟩ := (h.child? hf).unwrap
  rw [hc] at hlaid hstart hstop
  rw [hf]
  exact (hrow hlaid).mono hstart hstop

theorem inRow_callSteps (h : Laid ctx.source n) :
    InRow ctx.source n.start n.stop (nodes (callSteps ctx s n)) := by
  rw [callSteps]
  split
  · exact inRow_report h
  refine inRow_settled_bind fun function hfunction => ?_
  have hf := need_eq_ok hfunction
  dsimp only
  split
  · exact inRow_report h
  split
  · rw [settled_pure, nodes_append]
    exact h.inRow_append (by decide) (inPart_unwrap h hf rfl inRow_methodSteps)
      (inPart_argumentSteps h)
  split
  · exact h.inRow_append (by decide) (inPart_unwrap h hf rfl .singleton) (inPart_argumentSteps h)
  · exact inRow_report h

theorem inRow_parameterSteps {p : Node} (h : Laid ctx.source p) :
    InRow ctx.source p.start p.stop (nodes (parameterSteps ctx p)) := by
  rw [parameterSteps]
  split
  · cases ctx.text p with
    | ok name => exact .nil
    | error fault => exact .nil
  · exact inRow_report h

theorem inRow_functionSteps (h : Laid ctx.source n) :
    InRow ctx.source n.start n.stop (nodes (functionSteps ctx s n)) := by
  refine inRow_settled_bind fun ps hps => ?_
  rw [settled_pure, nodes_append, nodes_flatMap,
    nodes_part_cons, nodes_nil, List.append_nil]
  rw [parametersOf] at hps
  cases hsingle : n.child? .parameter with
  | some p =>
    obtain rfl : [p] = ps := by simpa [hsingle, pure, Except.pure] using hps
    refine h.inRow_append (f := .parameter) (by decide) ?_ (.self h)
    rw [hsingle]
    exact (InRow.singleton (h.child? hsingle)).flatMap fun q hq =>
      inRow_parameterSteps (by simpa [List.mem_singleton.mp hq] using h.child? hsingle)
  | none =>
    cases hlist : n.child? .parameters with
    | none =>
      rw [hsingle, hlist] at hps
      cases hps
    | some list =>
      obtain rfl : list.parts = ps := by
        simpa [hsingle, hlist, need, pure, Except.pure, bind, Except.bind] using hps
      refine h.inRow_append (f := .parameters) (by decide) ?_ (.self h)
      have hrow := inRow_parts (h.child? hlist)
      rw [hlist]
      exact hrow.flatMap fun q hq => inRow_parameterSteps (hrow.laid q hq)

/-- The operands of a chain stand in a row from left to right. -/
theorem inRow_operands {ops : List (Option Node)} (h : Laid ctx.source n)
    (hops : n.operands = some ops) : InRow ctx.source n.start n.stop (ops.filterMap id) := by
  induction n using Node.tree_induction generalizing ops with
  | step n ih =>
    by_cases hk : n.kind = "binary_expression"
    · rw [Node.operands_of_binary hk] at hops
      cases hl : n.child? .left with
      | none => simp [hl] at hops
      | some l =>
        cases hlops : l.operands with
        | none => simp [hl, hlops] at hops
        | some lops =>
          obtain rfl : lops ++ [n.child? .right] = ops := by simpa [hl, hlops] using hops
          have hleft : InPart ctx.source (n.child? .left) (lops.filterMap id) := by
            rw [hl]
            exact ih l (Node.child?_eq_some hl).1 (h.child? hl) hlops
          have hright : InPart ctx.source (n.child? .right) ([n.child? .right].filterMap id) := by
            cases hr : n.child? .right with
            | none => rfl
            | some r => exact .singleton (h.child? hr)
          rw [List.filterMap_append]
          exact h.inRow_append (by decide) hleft hright
    · rw [Node.operands_of_not_binary hk] at hops
      cases hops
      exact .singleton h

theorem inRow_substitutions (h : Laid ctx.source n) :
    InRow ctx.source n.start n.stop (substitutions n) := by
  refine (h.inRow_children.sublist ?_).flatMap fun t ht => ?_
  · exact List.filter_sublist.trans List.filter_sublist
  · exact inRow_parts (h.child (List.mem_filter.mp (List.mem_filter.mp ht).1).1)

theorem inRow_steps {form : Form} (h : Laid ctx.source n) :
    InRow ctx.source n.start n.stop (nodes (steps ctx s form n)) := by
  cases form with
  | sequence => simpa [steps] using inRow_parts h
  | literal => exact .nil
  | template => simpa [steps] using inRow_substitutions h
  | identifier => exact inRow_nameSteps h
  | parenthesized =>
    rw [steps, parenthesizedSteps]
    have hrow := inRow_parts h
    split
    next inner hinner => simpa [hinner] using hrow
    · exact inRow_report h
  | object =>
    rw [steps, nodes_flatMap]
    have hrow := inRow_parts h
    exact hrow.flatMap fun m hm => inRow_objectMemberSteps (hrow.laid m hm)
  | unary => exact inRow_unarySteps h
  | binary =>
    rw [steps, binarySteps]
    cases hops : n.operands with
    | none => exact .nil
    | some ops => simpa using inRow_operands h hops
  | ternary =>
    have hnodes : nodes (steps ctx s .ternary n) =
        [.condition, .consequence, .alternative].filterMap n.child? := by
      rw [steps, nodes_map_part]
      rfl
    rw [hnodes]
    exact h.inRow_parts _ (by decide)
  | member => exact inRow_memberSteps h
  | subscript => exact inRow_report h
  | call => exact inRow_callSteps h
  | function => exact inRow_functionSteps h

/-- **The steps of a node meet nodes in a row inside it.** -/
theorem inRow_plan {room : Nat} (h : Laid ctx.source n) :
    InRow ctx.source n.start n.stop (nodes (plan ctx s room n)) := by
  unfold plan
  split
  · exact inRow_report h
  cases room with
  | zero => exact inRow_report h
  | succ room =>
    dsimp only
    split
    · exact inRow_steps h
    · exact inRow_report h

end Rows

end Check

/-! ### Diagnostics between two places -/

/-- Diagnostics that do not overlap and come in source order. -/
def InOrder (ds : List Diagnostic) : Prop :=
  (∀ d ∈ ds, d.start ≤ d.stop) ∧ ds.Pairwise fun d e => d.stop ≤ e.start

/-- Diagnostics in order between two places. -/
structure Ordered (x y : Int) (ds : List Diagnostic) : Prop where
  within : ∀ d ∈ ds, x ≤ d.start ∧ d.stop ≤ y
  inOrder : InOrder ds

namespace Ordered

variable {x y x' y' m : Int} {ds es : List Diagnostic}

protected theorem nil : Ordered x y [] := ⟨by simp, by simp, .nil⟩

protected theorem singleton {message : Text} (hxy : x ≤ y) : Ordered x y [⟨x, y, message⟩] :=
  ⟨by simp, by simpa using hxy, List.pairwise_singleton _ _⟩

theorem mono (h : Ordered x y ds) (hx : x' ≤ x) (hy : y ≤ y') : Ordered x' y' ds := by
  refine ⟨fun d hd => ?_, h.inOrder⟩
  have hwithin := h.within d hd
  omega

theorem append (hd : Ordered x m ds) (he : Ordered m y es) (hx : x ≤ m) (hy : m ≤ y) :
    Ordered x y (ds ++ es) := by
  have hspans : ∀ d ∈ ds ++ es, d.start ≤ d.stop := fun d hmem =>
    (List.mem_append.mp hmem).elim (hd.inOrder.1 d) (he.inOrder.1 d)
  refine ⟨fun d hmem => ?_, hspans,
    List.pairwise_append.mpr ⟨hd.inOrder.2, he.inOrder.2, fun a ha b hb => ?_⟩⟩
  · rcases List.mem_append.mp hmem with hmem | hmem
    · have hwithin := hd.within d hmem
      omega
    · have hwithin := he.within d hmem
      omega
  · have hleft := hd.within a ha
    have hright := he.within b hb
    omega

end Ordered

theorem Laid.place_le {s : Source} {n : Node} (h : Laid s n) : s.place n.start ≤ s.place n.stop :=
  Source.place_mono h.isBoundary.1 h.isBoundary.2 h.node.1

/-! ### What a check finds -/

namespace Check

section Outcome

variable {ctx : Context} {s : Scope} {n : Node} {ds : List Diagnostic}

/-- Diagnostics that stand in order inside a node. -/
def OrderedIn (src : Source) (n : Node) (ds : List Diagnostic) : Prop :=
  Ordered (src.place n.start) (src.place n.stop) ds

theorem ofSource_ok {α : Type} (a : α) : ofSource (.ok a) = .ok a := rfl

theorem orderedIn_report {message : Text} (h : Laid ctx.source n)
    (hds : ctx.report n message = .ok ds) : OrderedIn ctx.source n ds := by
  simp only [Context.report, diagnostic, Source.span_of_places h.places, ofSource_ok, bind,
    Except.bind, pure, Except.pure, Except.ok.injEq] at hds
  subst hds
  exact .singleton (Int.ofNat_le.mpr h.place_le)

/-- Steps that meet nodes in a row give diagnostics in order, if visits do. -/
theorem ordered_perform {find : Scope → Node → Except Fault (List Diagnostic)}
    (hfind : ∀ s n ds, Laid ctx.source n → find s n = .ok ds → OrderedIn ctx.source n ds)
    {steps : List Step} {lo hi : Nat} (hlo : ctx.source.IsBoundary lo)
    (hhi : ctx.source.IsBoundary hi) (hrow : InRow ctx.source lo hi (nodes steps))
    (hds : perform ctx find steps = .ok ds) :
    Ordered (ctx.source.place lo) (ctx.source.place hi) ds := by
  induction steps generalizing lo ds with
  | nil =>
    cases hds
    exact .nil
  | cons step rest ih =>
    obtain ⟨first, others, hfirst, hothers, rfl⟩ := perform_cons_eq_ok hds
    -- What a step finds in its node stands before what the later steps find.
    have hcons (m : Node) (hnodes : nodes (step :: rest) = m :: nodes rest)
        (hm : Laid ctx.source m → OrderedIn ctx.source m first) :
        Ordered (ctx.source.place lo) (ctx.source.place hi) (first ++ others) := by
      rw [hnodes] at hrow
      have hlaid := hrow.laid m (by simp)
      have hwithin := hrow.within m (by simp)
      have hstart := Source.place_mono hlo hlaid.isBoundary.1 hwithin.1
      have hstop := Source.place_mono hlaid.isBoundary.2 hhi hwithin.2
      have hspan := hlaid.place_le
      have hleft := (hm hlaid).mono (Int.ofNat_le.mpr hstart) (Int.le_refl _)
      exact hleft.append (ih hlaid.isBoundary.2 hrow.tail hothers) (by omega) (by omega)
    cases step with
    | report m message => exact hcons m rfl fun hlaid => orderedIn_report hlaid hfirst
    | visit t m => exact hcons m rfl fun hlaid => hfind t m first hlaid hfirst
    | fail fault => cases hfirst

/-- **What a check finds in a node stands in order inside it.** -/
theorem orderedIn_outcome {room : Nat} (h : Laid ctx.source n)
    (hds : outcome ctx room s n = .ok ds) : OrderedIn ctx.source n ds := by
  induction room generalizing s n ds with
  | zero =>
    refine ordered_perform ?_ h.isBoundary.1 h.isBoundary.2 (inRow_plan h) hds
    rintro t m _ - ⟨⟩
    exact .nil
  | succ room ih =>
    exact ordered_perform (fun t m es hm hes => ih hm hes) h.isBoundary.1 h.isBoundary.2
      (inRow_plan h) hds

theorem inOrder_validate (h : Laid ctx.source n) (hds : (validate ctx n s).1 = .ok ds) :
    InOrder ds := by
  rw [validate_eq] at hds
  exact (orderedIn_outcome h hds).inOrder

end Outcome

end Check

/-! ### Syntax errors -/

/-- The outermost error regions of a tree stand in a row inside it. -/
theorem Laid.inRow_errorRegions {s : Source} {n : Node} (h : Laid s n) :
    InRow s n.start n.stop n.errorRegions := by
  induction n using Node.tree_induction with
  | step n ih =>
    rw [Node.errorRegions_eq]
    split
    · exact .singleton h
    · refine (h.inRow_children.sublist List.filter_sublist).flatMap fun c hc => ?_
      have hmem := (List.mem_filter.mp hc).1
      exact ih c hmem (h.child hmem)

namespace Script

variable {s : Source} {n : Node}

theorem diagnostic_eq (h : s.places n) (message : Text) :
    Check.diagnostic s n message = .ok ⟨s.place n.start, s.place n.stop, message⟩ := by
  rw [Check.diagnostic, Source.span_of_places h]
  rfl

theorem errorMessage_eq_ok (h : s.places n) : ∃ message, errorMessage s n = .ok message := by
  obtain ⟨t, ht⟩ := Source.text_of_places h
  rw [errorMessage]
  split
  · exact ⟨_, rfl⟩
  · simp only [ht, Check.ofSource_ok, bind, Except.bind]
    split
    · exact ⟨_, rfl⟩
    · exact ⟨_, rfl⟩

/-- Error regions in a row have syntax errors in order. -/
theorem ordered_mapM {ns : List Node} {lo hi : Nat} (hlo : s.IsBoundary lo) (hhi : s.IsBoundary hi)
    (hrow : InRow s lo hi ns) :
    ∃ ds,
      ns.mapM (fun n => do let message ← errorMessage s n; Check.diagnostic s n message) = .ok ds ∧
      Ordered (s.place lo) (s.place hi) ds := by
  induction ns generalizing lo with
  | nil => exact ⟨[], rfl, .nil⟩
  | cons n ns ih =>
    have hlaid := hrow.laid n (by simp)
    have hwithin := hrow.within n (by simp)
    obtain ⟨message, hmessage⟩ := errorMessage_eq_ok hlaid.places
    obtain ⟨ds, hds, hordered⟩ := ih hlaid.isBoundary.2 hrow.tail
    have hstart := Source.place_mono hlo hlaid.isBoundary.1 hwithin.1
    have hstop := Source.place_mono hlaid.isBoundary.2 hhi hwithin.2
    have hspan := hlaid.place_le
    have hfirst : Ordered (s.place lo) (s.place n.stop)
        [⟨s.place n.start, s.place n.stop, message⟩] :=
      (Ordered.singleton (Int.ofNat_le.mpr hspan)).mono (Int.ofNat_le.mpr hstart) (Int.le_refl _)
    refine ⟨_ :: ds, ?_, hfirst.append hordered (by omega) (by omega)⟩
    rw [List.mapM_cons, hmessage, hds]
    simp only [bind, Except.bind, pure, Except.pure, diagnostic_eq hlaid.places]

/-- **The syntax errors of a tree can be told, and stand in order inside it.** -/
theorem ordered_syntaxErrors (h : Laid s n) : ∃ ds, syntaxErrors s n = .ok ds ∧
    Ordered (s.place n.start) (s.place n.stop) ds := by
  have hrow := h.inRow_errorRegions
  rw [syntaxErrors]
  split
  · rw [diagnostic_eq h.places]
    exact ⟨_, rfl, .singleton (Int.ofNat_le.mpr h.place_le)⟩
  · exact ordered_mapM h.isBoundary.1 h.isBoundary.2 hrow

end Script

/-- **Diagnostics never overlap and come in source order.** This holds of all that is found in a
node that is laid out in order, whatever the policy, the accepted expressions and the scope are;
and a script whose tree has errors and is laid out in order has syntax errors of which it holds
as well. -/
theorem diagnostics_inOrder :
    (∀ (script : Script) (policy : Policy) (allowed : List Text) (n : Node) (scope : Scope)
        (ds : List Diagnostic), Laid script.source n →
      (script.validate policy allowed n scope).1 = .ok ds → InOrder ds) ∧
    ∀ (grammar : Grammar) (chars : List Char) (unit : OffsetUnit),
      Laid (Source.ofChars chars unit) (grammar chars) → (grammar chars).hasError →
      ∃ failure, Script.parse grammar chars unit = .error (.syntaxError failure) ∧
        InOrder failure.diagnostics := by
  refine ⟨fun script policy allowed n scope ds h hds => Check.inOrder_validate h hds, ?_⟩
  intro grammar chars unit h herror
  obtain ⟨ds, hds, hordered⟩ := Script.ordered_syntaxErrors h
  refine ⟨⟨ds⟩, ?_, hordered.inOrder⟩
  simp only [Script.parse, herror, if_true, hds]

section Scripts

open Ecma

/-- The tree of `"😀"+a.b`, whose first character in the string takes four bytes and two units. -/
def sumTree : Node :=
  let text := inField (bare "string" 0 6 [bare "string_fragment" 1 5 []]) .left
  let plus := { inField (bare "+" 6 7 []) .operator with isNamed := false }
  let member := bare "member_expression" 7 10
    [inField (bare "identifier" 7 8 []) .object,
     inField (bare "property_identifier" 9 10 []) .property]
  let sum := bare "binary_expression" 0 10 [text, plus, inField member .right]
  bare "program" 0 10 [bare "expression_statement" 0 10 [sum]]

/-- The tree of `)(`, which is nothing but errors. -/
def errorTree : Node :=
  let error := fun start stop =>
    { bare "ERROR" start stop [] with isError := true, hasError := true }
  { bare "program" 0 2 [error 0 1, error 1 2] with hasError := true }

/-- A name and its member are both reported, the name first; and both errors of the other script. -/
theorem sumTree_errorTree_inOrder :
    (∃ a b : Text, (Script.validate ⟨.ofChars "\"😀\"+a.b".toList .utf16, sumTree⟩ Policy.standard []
        sumTree {}).1 = .ok [⟨5, 6, a⟩, ⟨7, 8, b⟩] ∧ InOrder [⟨5, 6, a⟩, ⟨7, 8, b⟩]) ∧
    ∃ failure, Script.parse (fun _ => errorTree) ")(".toList .utf16 =
        .error (.syntaxError failure) ∧
      failure.diagnostics.length = 2 ∧ InOrder failure.diagnostics := by
  constructor
  · exact ⟨_, _, rfl, diagnostics_inOrder.1 ⟨.ofChars "\"😀\"+a.b".toList .utf16, sumTree⟩
      Policy.standard [] sumTree {} _ (by decide) rfl⟩
  · obtain ⟨failure, hfailure, hordered⟩ :=
      diagnostics_inOrder.2 (fun _ => errorTree) ")(".toList .utf16 (by decide) rfl
    refine ⟨failure, hfailure, ?_, hordered⟩
    cases hfailure
    rfl

end Scripts

end ScriptGate
