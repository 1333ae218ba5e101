import ScriptGate.Proofs.Check.Totality
import ScriptGate.Proofs.Check.Widening
import ScriptGate.Proofs.Outcome

/-!
# Granting more removes diagnostics

A policy grants all that another does if it lists at least the same names, constants, methods and
properties. The namespaces, the operators and the nesting limit are the same, so that a construct is
judged by the same rules. A check under the wider policy, with at least the same accepted
expressions, takes the same steps, except that some are left out: a single report, or the visit of
an object whose member is accepted as it is written. What it finds is therefore found under the
first policy, too, in the same order. In particular it matters which expressions are accepted, but
not in which order or how often they are listed.

## Main definitions

* `Policy.GrantedBy`: a policy whose names are all granted by another one with the same rules.
* `Context.GrantedBy`: the same for contexts over one script.

## Main results

* `Check.steps_sublist`, `Check.plan_sublist`: the steps of a well-shaped construct under a wider
  policy are among its steps.
* `Check.sublist_of_perform`: steps that are left out only remove diagnostics.
* `Check.outcome_sublist`: a check under a wider policy finds a part of what was found.
* `Script.validate_sublist_of_grantedBy`: granting more only removes diagnostics.
-/

namespace ScriptGate

/-- Every name that the first policy lists is granted by the second one. Both have the same
namespaces and operators and look equally deep. -/
structure Policy.GrantedBy (p q : Policy) : Prop where
  identifiers : p.safeIdentifiers ⊆ q.safeIdentifiers
  constants : p.staticProperties.Within q.staticProperties
  methods : p.instanceMethods ⊆ q.instanceMethods
  properties : p.instanceProperties ⊆ q.instanceProperties
  trusted : NameTable.TrustedWithin p.namespaceMethods q.namespaceMethods
  namespaces : ∀ ns, ns ∈ p.safeNamespaces ↔ ns ∈ q.safeNamespaces
  operators : ∀ operator, operator ∈ p.unaryOperators ↔ operator ∈ q.unaryOperators
  depth : p.maxDepth = q.maxDepth

namespace Policy.GrantedBy

variable {p q : Policy}

theorem within (h : p.GrantedBy q) : p.Within q where
  identifiers := h.identifiers
  constants := h.constants
  methods := h.methods
  properties := h.properties
  operators _ hop := (h.operators _).mp hop
  trusted := h.trusted
  namespaces := .inl h.namespaces
  depth := Nat.le_of_eq h.depth

protected theorem refl (p : Policy) : p.GrantedBy p where
  identifiers := List.Subset.refl _
  constants := (Within.refl p).constants
  methods := List.Subset.refl _
  properties := List.Subset.refl _
  trusted := (Within.refl p).trusted
  namespaces _ := .rfl
  operators _ := .rfl
  depth := rfl

end Policy.GrantedBy

namespace Check

/-- The contexts have the same script, and what the first allows is granted by the second. -/
structure Context.GrantedBy (ctx wide : Context) : Prop where
  source : wide.source = ctx.source
  allowed : ctx.allowed ⊆ wide.allowed
  policy : ctx.policy.GrantedBy wide.policy

theorem Context.GrantedBy.within {ctx wide : Context} (h : ctx.GrantedBy wide) :
    ctx.Within wide :=
  ⟨h.source, h.allowed, h.policy.within⟩

/-! ### Steps that are left out -/

/-- A step that is taken under a weaker condition is left out under a stronger one. -/
theorem sublist_of_imp {c d : Prop} [Decidable c] [Decidable d] (h : c → d) (steps : List Step) :
    (if d then [] else steps).Sublist (if c then [] else steps) := by
  by_cases hd : d
  · rw [if_pos hd]
    exact List.nil_sublist _
  · rw [if_neg hd, if_neg fun hc => hd (h hc)]

theorem sublist_settled_bind {α : Type} {r : Except Fault α} {f g : α → Except Fault (List Step)}
    (h : ∀ a, (settled (f a)).Sublist (settled (g a))) :
    (settled (r >>= f)).Sublist (settled (r >>= g)) := by
  cases r with
  | ok a => exact h a
  | error fault => exact .refl _

theorem sublist_flatMap {ns : List Node} {f g : Node → List Step}
    (h : ∀ c ∈ ns, (f c).Sublist (g c)) : (ns.flatMap f).Sublist (ns.flatMap g) := by
  induction ns with
  | nil => exact .refl _
  | cons c ns ih =>
    obtain ⟨hc, hns⟩ := List.forall_mem_cons.mp h
    exact hc.append (ih hns)

/-! ### The steps of each form -/

section Forms

variable {ctx wide : Context} {s : Scope} {n : Node} (h : ctx.GrantedBy wide)

include h

/-- What is accepted as it is written stays accepted. -/
theorem Context.GrantedBy.accepts (hn : WellShaped ctx.source n) :
    ∃ before after, ctx.accepts n = .ok before ∧ wide.accepts n = .ok after ∧
      (before = true → after = true) := by
  obtain ⟨t, ht⟩ := text_of_wellShaped hn.unwrap
  refine ⟨_, _, accepts_eq ht, accepts_eq (h.within.text.trans ht), fun hbefore => ?_⟩
  exact decide_eq_true (h.allowed (of_decide_eq_true hbefore))

theorem nameSteps_sublist (hn : WellShaped ctx.source n) :
    (nameSteps wide s n).Sublist (nameSteps ctx s n) := by
  obtain ⟨before, after, hbefore, hafter, haccepted⟩ := h.accepts hn
  rw [nameSteps, nameSteps, h.within.text]
  refine sublist_settled_bind fun name => ?_
  by_cases hlisted : name ∈ wide.policy.safeIdentifiers
  · rw [if_pos hlisted]
    exact List.nil_sublist _
  rw [if_neg hlisted, if_neg fun hname => hlisted (h.policy.identifiers hname)]
  split
  · exact .refl _
  rw [hbefore, hafter]
  exact sublist_of_imp haccepted _

/-- The same objects are namespaces. -/
theorem Context.GrantedBy.namespaceIn (object : Option Node) :
    namespaceIn wide s object = namespaceIn ctx s object := by
  simp only [Check.namespaceIn, h.within.text, h.policy.namespaces]

/-- A member of an object is reported less often, if more is lent and listed. Its object is visited
as before. -/
theorem accessSteps_sublist {trusted trusted' : Text → Text → Bool} {listed listed' : List Text}
    (htrusted : ∀ ns name, trusted ns name → trusted' ns name) (hlisted : listed ⊆ listed') :
    (accessSteps wide s trusted' listed' n).Sublist (accessSteps ctx s trusted listed n) := by
  rw [accessSteps, accessSteps]
  refine sublist_settled_bind fun property => ?_
  rw [h.within.text, h.namespaceIn]
  refine sublist_settled_bind fun name => sublist_settled_bind fun ns => ?_
  cases ns with
  | some ns => exact sublist_of_imp (htrusted ns name) _
  | none => exact (sublist_of_imp (fun hname => hlisted hname) _).cons_cons _

theorem memberSteps_sublist (hn : WellShaped ctx.source n) :
    (memberSteps wide s n).Sublist (memberSteps ctx s n) := by
  obtain ⟨before, after, hbefore, hafter, haccepted⟩ := h.accepts hn
  rw [memberSteps, memberSteps, hbefore, hafter]
  split
  · exact .refl _
  have hreadable (ns name : Text) (hread : readable ctx ns name) : readable wide ns name := by
    rw [readable, decide_eq_true_iff] at hread ⊢
    exact hread.imp h.policy.within.isStaticProperty fun hname => h.policy.properties hname
  have haccess : (accessSteps wide s (readable wide) wide.policy.instanceProperties n).Sublist
      (accessSteps ctx s (readable ctx) ctx.policy.instanceProperties n) :=
    accessSteps_sublist h hreadable h.policy.properties
  -- A member that is accepted only now drops all that was found in its object.
  cases after with
  | true => exact List.nil_sublist _
  | false =>
    cases before with
    | true => cases haccepted rfl
    | false => exact haccess

theorem methodSteps_sublist : (methodSteps wide s n).Sublist (methodSteps ctx s n) := by
  rw [methodSteps, methodSteps]
  split
  · exact .refl _
  · exact accessSteps_sublist h (fun _ _ hname => h.policy.within.isNamespaceMethod hname)
      h.policy.methods

theorem callSteps_sublist : (callSteps wide s n).Sublist (callSteps ctx s n) := by
  rw [callSteps, callSteps]
  split
  · exact .refl _
  refine sublist_settled_bind fun function => ?_
  dsimp only [settled_pure]
  split
  · exact .refl _
  split
  · exact (methodSteps_sublist h).append (.refl _)
  · exact .refl _

theorem objectMemberSteps_sublist (hn : WellShaped ctx.source n) :
    (objectMemberSteps wide s n).Sublist (objectMemberSteps ctx s n) := by
  rw [objectMemberSteps, objectMemberSteps]
  split
  · exact .refl _
  split
  · exact nameSteps_sublist h hn
  · exact .refl _

theorem unarySteps_of_grantedBy : unarySteps wide s n = unarySteps ctx s n := by
  simp only [unarySteps, h.policy.operators]

/-- Parameters are read in the same way. -/
theorem functionSteps_of_grantedBy : functionSteps wide s n = functionSteps ctx s n := by
  have hparameter : parameterSteps wide = parameterSteps ctx := by
    funext p
    rw [parameterSteps, parameterSteps, h.within.text]
  simp only [functionSteps, h.within.boundNames, hparameter]

/-- **The steps under a wider policy are among the steps of a well-shaped construct.** -/
theorem steps_sublist (hn : WellShaped ctx.source n) (form : Form) :
    (steps wide s form n).Sublist (steps ctx s form n) := by
  cases form with
  | identifier => exact nameSteps_sublist h hn
  | object => exact sublist_flatMap fun m hm => objectMemberSteps_sublist h (hn.part hm)
  | unary => rw [steps, steps, unarySteps_of_grantedBy h]
  | member => exact memberSteps_sublist h hn
  | call => exact callSteps_sublist h
  | function => rw [steps, steps, functionSteps_of_grantedBy h]
  | sequence | literal | template | parenthesized | binary | ternary | subscript => exact .refl _

theorem plan_sublist {room : Nat} (hn : WellShaped ctx.source n) :
    (plan wide s room n).Sublist (plan ctx s room n) := by
  unfold plan
  split
  · exact .refl _
  cases room with
  | zero => exact .refl _
  | succ room =>
    dsimp only
    split
    · exact steps_sublist h hn _
    · exact .refl _

/-! ### What is found -/

/-- **Steps that are left out only remove diagnostics**, if the visits that are left find no more
than before. -/
theorem sublist_of_perform {find find' : Scope → Node → Except Fault (List Diagnostic)}
    {steps steps' : List Step} {ds es : List Diagnostic} (hsteps : steps'.Sublist steps)
    (hfind : ∀ t m xs ys, .visit t m ∈ steps' → find t m = .ok xs → find' t m = .ok ys →
      ys.Sublist xs)
    (hds : perform ctx find steps = .ok ds) (hes : perform wide find' steps' = .ok es) :
    es.Sublist ds := by
  induction hsteps generalizing ds es with
  | slnil =>
    cases hes
    exact List.nil_sublist _
  | cons step _ ih =>
    obtain ⟨first, others, -, hothers, rfl⟩ := perform_cons_eq_ok hds
    exact (ih hfind hothers hes).trans (List.sublist_append_right first others)
  | cons_cons step _ ih =>
    obtain ⟨first, others, hfirst, hothers, rfl⟩ := perform_cons_eq_ok hds
    obtain ⟨first', others', hfirst', hothers', rfl⟩ := perform_cons_eq_ok hes
    have hrest := ih (fun t m xs ys hm => hfind t m xs ys (List.mem_cons_of_mem _ hm)) hothers
      hothers'
    refine List.Sublist.append ?_ hrest
    cases step with
    | report m message =>
      have hsame : wide.report m message = ctx.report m message := by
        rw [Context.report, Context.report, h.source]
      have heq : first' = first := Except.ok.inj (hfirst'.symm.trans (hsame.trans hfirst))
      rw [heq]
    | visit t m => exact hfind t m first first' (List.mem_cons_self ..) hfirst hfirst'
    | fail fault => cases hfirst

/-- **A check under a wider policy finds a part of what was found**, in the same order. -/
theorem outcome_sublist {room : Nat} {ds es : List Diagnostic} (hn : WellShaped ctx.source n)
    (hds : outcome ctx room s n = .ok ds) (hes : outcome wide room s n = .ok es) :
    es.Sublist ds := by
  induction room generalizing s n ds es with
  | zero =>
    refine sublist_of_perform h (plan_sublist h hn) (fun t m xs ys _ _ hys => ?_) hds hes
    cases hys
    exact List.nil_sublist _
  | succ room ih =>
    refine sublist_of_perform h (plan_sublist h hn) (fun t m xs ys hm hxs hys => ?_) hds hes
    have hvisit : .visit t m ∈ plan ctx s (room + 1) n := (plan_sublist h hn).subset hm
    exact ih (sound_plan hn _ hvisit) hxs hys

end Forms

end Check

/-- **Granting more only removes diagnostics.** A check of a well-shaped construct under a policy
that grants more, with more expressions that are accepted as they are written, finds a subsequence
of what is found under the first policy. Which expressions are accepted matters only as a set:
lists with the same members give the same diagnostics. -/
theorem Script.validate_sublist_of_grantedBy (script : Script) {p q : Policy}
    {allowed more : List Text} (hpolicy : p.GrantedBy q) (hallowed : allowed ⊆ more) {n : Node}
    (hn : WellShaped script.source n) (scope : Scope) :
    ∃ ds es, script.validate p allowed n scope = (.ok ds, scope) ∧
      script.validate q more n scope = (.ok es, scope) ∧ es.Sublist ds ∧
      (more ⊆ allowed → script.validate p more n scope = (.ok ds, scope)) := by
  have hgranted : Check.Context.GrantedBy ⟨script.source, allowed, p⟩ ⟨script.source, more, q⟩ :=
    ⟨rfl, hallowed, hpolicy⟩
  simp only [Script.validate, Check.validate_eq, ← hpolicy.depth]
  obtain ⟨ds, hds⟩ : ∃ ds, Check.outcome ⟨script.source, allowed, p⟩ p.maxDepth scope n = .ok ds :=
    Check.outcome_eq_ok hn
  obtain ⟨es, hes⟩ : ∃ es, Check.outcome ⟨script.source, more, q⟩ p.maxDepth scope n = .ok es :=
    Check.outcome_eq_ok hn
  refine ⟨ds, es, by rw [hds], by rw [hes], Check.outcome_sublist hgranted hn hds hes, ?_⟩
  intro hmore
  obtain ⟨xs, hxs⟩ : ∃ xs, Check.outcome ⟨script.source, more, p⟩ p.maxDepth scope n = .ok xs :=
    Check.outcome_eq_ok hn
  have hforth : Check.Context.GrantedBy ⟨script.source, allowed, p⟩ ⟨script.source, more, p⟩ :=
    ⟨rfl, hallowed, .refl p⟩
  have hback : Check.Context.GrantedBy ⟨script.source, more, p⟩ ⟨script.source, allowed, p⟩ :=
    ⟨rfl, hmore, .refl p⟩
  have hsame : xs = ds := (Check.outcome_sublist hforth hn hds hxs).eq_of_length_le
    (Check.outcome_sublist hback hn hxs hds).length_le
  rw [hxs, hsame]

section Row

open Ecma

/-- The tree of `[a.b,x,y]`. -/
def memberRow : Node :=
  let member := bare "member_expression" 1 4
    [inField (bare "identifier" 1 2 []) .object,
     inField (bare "property_identifier" 3 4 []) .property]
  bare "program" 0 9 [bare "expression_statement" 0 9
    [bare "array" 0 9 [member, bare "identifier" 5 6 [], bare "identifier" 7 8 []]]]

/-- The standard policy with one more name. -/
def namedPolicy : Policy :=
  { Policy.standard with safeIdentifiers := "x" :: Policy.standardIdentifiers }

theorem standard_grantedBy_namedPolicy : Policy.standard.GrantedBy namedPolicy :=
  { Policy.GrantedBy.refl Policy.standard with identifiers := List.subset_cons_self .. }

/-- Of four diagnostics one is left, if the name `x` is granted and `a.b` is accepted as it is
written. It makes no difference that `a.b` is listed twice. -/
theorem memberRow_granted :
    let script : Script := ⟨.ofChars "[a.b,x,y]".toList .utf16, memberRow⟩
    let found : List Diagnostic := [⟨1, 2, "unidetified: a"⟩,
      ⟨3, 4, "unIdentified member property"⟩, ⟨5, 6, "unidetified: x"⟩, ⟨7, 8, "unidetified: y"⟩]
    (script.validate Policy.standard [] memberRow {}).1 = .ok found ∧
      (script.validate namedPolicy ["a.b"] memberRow {}).1 = .ok [⟨7, 8, "unidetified: y"⟩] ∧
      List.Sublist [⟨7, 8, "unidetified: y"⟩] found ∧
      script.validate namedPolicy ["a.b", "a.b"] memberRow {} =
        script.validate namedPolicy ["a.b"] memberRow {} := by
  intro script found
  have hfound : (script.validate Policy.standard [] memberRow {}).1 = .ok found :=
    eq_ok_of_toOption (by decide +kernel)
  have hleft : (script.validate namedPolicy ["a.b"] memberRow {}).1 =
      .ok [⟨7, 8, "unidetified: y"⟩] := eq_ok_of_toOption (by decide +kernel)
  have hn : WellShaped script.source memberRow := by decide
  have hone : ([] : List Text) ⊆ ["a.b"] := List.nil_subset _
  have htwo : (["a.b"] : List Text) ⊆ ["a.b", "a.b"] := by decide
  obtain ⟨ds, es, hds, hes, hsub, -⟩ := script.validate_sublist_of_grantedBy
    standard_grantedBy_namedPolicy hone hn {}
  obtain ⟨xs, -, hxs, -, -, htwice⟩ := script.validate_sublist_of_grantedBy
    (.refl namedPolicy) htwo hn {}
  rw [hds] at hfound
  rw [hes] at hleft
  cases hfound
  cases hleft
  rw [hes]
  exact ⟨by rw [hds], rfl, hsub, (htwice (by decide)).trans (hxs.symm.trans hes)⟩

end Row

end ScriptGate
