import ScriptGate.Check.Script
import ScriptGate.Proofs.Check.Acceptance

/-!
# Wider policies accept more

A policy is within another if it lists no name or operator that the other does not list, and looks
no deeper. Namespaces need care: a name that becomes a namespace is judged by other rules than
before, because its object is no longer looked at and its methods are those of the namespace. Hence
the namespaces of both policies are the same, or the wider policy trusts every method of its
namespaces. What is accepted under a policy is then accepted under every wider one, with at least
the same accepted expressions.

## Main definitions

* `Policy.Within`: a policy that allows no more than another.
* `Context.Within`: a context with the same script that allows no more than another.

## Main results

* `Policy.Within.refl`, `Policy.Within.trans`: policies are ordered by what they allow.
* `Check.permits_of_within`: what is permitted stays permitted.
* `Check.evaluatedIn_of_within`: no part is evaluated that was not evaluated before.
* `Script.validate_eq_nil_of_within`: a script that is accepted stays accepted.
-/

namespace ScriptGate

/-! ### The order of policies -/

/-- Every name of the first table stands in the second, under the same name. -/
def NameTable.Within (t u : NameTable) : Prop := ∀ ns, t.get ns ⊆ u.get ns

/-- The methods of namespaces, of which `none` trusts every one: if the second is a table, the first
is one that holds no more. -/
def NameTable.TrustedWithin (trusted more : Option NameTable) : Prop :=
  ∀ u, more = some u → ∃ t, trusted = some t ∧ t.Within u

/-- The first policy allows no more than the second. -/
structure Policy.Within (p q : Policy) : Prop where
  identifiers : p.safeIdentifiers ⊆ q.safeIdentifiers
  constants : p.staticProperties.Within q.staticProperties
  methods : p.instanceMethods ⊆ q.instanceMethods
  properties : p.instanceProperties ⊆ q.instanceProperties
  operators : p.unaryOperators ⊆ q.unaryOperators
  trusted : NameTable.TrustedWithin p.namespaceMethods q.namespaceMethods
  namespaces : (∀ ns, ns ∈ p.safeNamespaces ↔ ns ∈ q.safeNamespaces) ∨
    p.safeNamespaces ⊆ q.safeNamespaces ∧ q.namespaceMethods = none
  depth : p.maxDepth ≤ q.maxDepth

namespace Policy.Within

variable {p q r : Policy}

theorem isStaticProperty (h : p.Within q) {ns name : Text} (hname : p.isStaticProperty ns name) :
    q.isStaticProperty ns name := by
  rw [Policy.isStaticProperty, decide_eq_true_iff] at hname ⊢
  exact h.constants ns hname

theorem isNamespaceMethod (h : p.Within q) {ns name : Text}
    (hname : p.isNamespaceMethod ns name) : q.isNamespaceMethod ns name := by
  rw [Policy.isNamespaceMethod] at hname ⊢
  cases hq : q.namespaceMethods with
  | none => rfl
  | some u =>
    obtain ⟨t, ht, hsub⟩ := h.trusted u hq
    rw [ht] at hname
    exact decide_eq_true (hsub ns (of_decide_eq_true hname))

theorem safeNamespaces (h : p.Within q) : p.safeNamespaces ⊆ q.safeNamespaces := by
  rcases h.namespaces with hsame | ⟨hsub, -⟩
  · exact fun ns hns => (hsame ns).mp hns
  · exact hsub

protected theorem refl (p : Policy) : p.Within p where
  identifiers := List.Subset.refl _
  constants _ := List.Subset.refl _
  methods := List.Subset.refl _
  properties := List.Subset.refl _
  operators := List.Subset.refl _
  trusted u hu := ⟨u, hu, fun _ => List.Subset.refl _⟩
  namespaces := .inl fun _ => .rfl
  depth := Nat.le_refl _

/-- A policy that trusts every method is within such policies only. -/
theorem namespaceMethods_eq_none (h : p.Within q) (hp : p.namespaceMethods = none) :
    q.namespaceMethods = none := by
  cases hq : q.namespaceMethods with
  | none => rfl
  | some u =>
    obtain ⟨t, ht, -⟩ := h.trusted u hq
    rw [hp] at ht
    cases ht

protected theorem trans (h : p.Within q) (h' : q.Within r) : p.Within r where
  identifiers := List.Subset.trans h.identifiers h'.identifiers
  constants ns := List.Subset.trans (h.constants ns) (h'.constants ns)
  methods := List.Subset.trans h.methods h'.methods
  properties := List.Subset.trans h.properties h'.properties
  operators := List.Subset.trans h.operators h'.operators
  trusted v hv := by
    obtain ⟨u, hu, huv⟩ := h'.trusted v hv
    obtain ⟨t, ht, htu⟩ := h.trusted u hu
    exact ⟨t, ht, fun ns => List.Subset.trans (htu ns) (huv ns)⟩
  namespaces := by
    -- Once every method is trusted, it stays so in every wider policy.
    rcases h.namespaces with hsame | ⟨hsub, hnone⟩
    · rcases h'.namespaces with hsame' | ⟨hsub', hnone'⟩
      · exact .inl fun ns => (hsame ns).trans (hsame' ns)
      · exact .inr ⟨List.Subset.trans h.safeNamespaces hsub', hnone'⟩
    · exact .inr ⟨List.Subset.trans hsub h'.safeNamespaces, h'.namespaceMethods_eq_none hnone⟩
  depth := Nat.le_trans h.depth h'.depth

end Policy.Within

namespace Check

/-- The contexts have the same script, and the first allows no more than the second. -/
structure Context.Within (ctx wide : Context) : Prop where
  source : wide.source = ctx.source
  allowed : ctx.allowed ⊆ wide.allowed
  policy : ctx.policy.Within wide.policy

/-! ### Names and members -/

section Widening

variable {ctx wide : Context} {s s' : Scope} {n c : Node}

theorem Context.Within.text (h : ctx.Within wide) : wide.text n = ctx.text n := by
  rw [Context.text, Context.text, h.source]

theorem Context.Within.boundNames (h : ctx.Within wide) (ps : List Node) :
    boundNames wide ps = boundNames ctx ps := by
  simp only [Check.boundNames, h.text]

theorem Context.Within.permitsName (h : ctx.Within wide) (hn : ctx.PermitsName s n) :
    wide.PermitsName s n := by
  obtain ⟨name, hname, hlisted | hbound | hallowed⟩ := hn
  · exact ⟨name, h.text.trans hname, .inl (h.policy.identifiers hlisted)⟩
  · exact ⟨name, h.text.trans hname, .inr (.inl hbound)⟩
  · exact ⟨name, h.text.trans hname, .inr (.inr (h.allowed hallowed))⟩

theorem Context.Within.isOpaque (h : ctx.Within wide) (hn : ctx.IsOpaque n) : wide.IsOpaque n := by
  obtain ⟨hkind, hchain, t, ht, hallowed⟩ := hn
  exact ⟨hkind, hchain, t, h.text.trans ht, h.allowed hallowed⟩

theorem Context.Within.isNamespace (h : ctx.Within wide) {ns : Text}
    (hn : ctx.IsNamespace s n ns) : wide.IsNamespace s n ns := by
  obtain ⟨hkind, ht, hne, hsafe, hbound⟩ := hn
  exact ⟨hkind, h.text.trans ht, hne, h.policy.safeNamespaces hsafe, hbound⟩

/-- A name that becomes a namespace lends every method. -/
theorem Context.Within.isNamespaceMethod_of_new (h : ctx.Within wide) {ns name : Text}
    (hn : wide.IsNamespace s n ns) (hnew : ¬ctx.IsNamespace s n ns) :
    wide.policy.isNamespaceMethod ns name := by
  rcases h.policy.namespaces with hsame | ⟨-, hnone⟩
  · obtain ⟨hkind, ht, hne, hsafe, hbound⟩ := hn
    exact absurd ⟨hkind, h.text.symm.trans ht, hne, (hsame ns).mpr hsafe, hbound⟩ hnew
  · rw [Policy.isNamespaceMethod, hnone]

/-- A member stays permitted, if a name that becomes a namespace lends what every value has. -/
theorem Context.Within.permitsAccess (h : ctx.Within wide) {lends lends' : Text → Text → Prop}
    {listed listed' : List Text} (hlends : ∀ ns name, lends ns name → lends' ns name)
    (hlisted : listed ⊆ listed')
    (hnew : ∀ (o : Node) ns name, wide.IsNamespace s o ns → ¬ctx.IsNamespace s o ns →
      name ∈ listed → lends' ns name)
    (hn : ctx.PermitsAccess s lends listed n) : wide.PermitsAccess s lends' listed' n := by
  obtain ⟨object, property, name, hobject, hproperty, hname, hcases⟩ := hn
  refine ⟨object, property, name, hobject, hproperty, h.text.trans hname, ?_⟩
  rcases hcases with ⟨ns, hns, hlent⟩ | ⟨hno, hmem⟩
  · exact .inl ⟨ns, h.isNamespace hns, hlends ns name hlent⟩
  · by_cases hwide : ∃ ns, wide.IsNamespace s object ns
    · obtain ⟨ns, hns⟩ := hwide
      exact .inl ⟨ns, hns, hnew object ns name hns (hno ns) hmem⟩
    · exact .inr ⟨fun ns hns => hwide ⟨ns, hns⟩, hlisted hmem⟩

theorem Context.Within.permitsRead (h : ctx.Within wide) (hn : ctx.PermitsRead s n) :
    wide.PermitsRead s n :=
  h.permitsAccess (fun _ _ hlent => hlent.imp h.policy.isStaticProperty (h.policy.properties ·))
    h.policy.properties (fun _ _ _ _ _ hmem => .inr (h.policy.properties hmem)) hn

theorem Context.Within.permitsCall (h : ctx.Within wide) (hn : ctx.PermitsCall s n) :
    wide.PermitsCall s n :=
  h.permitsAccess (fun _ _ hlent => h.policy.isNamespaceMethod hlent) h.policy.methods
    (fun _ _ _ hns hnot _ => h.isNamespaceMethod_of_new hns hnot) hn

/-! ### Constructs and their evaluated parts -/

/-- **What is permitted stays permitted.** -/
theorem permits_of_within (h : ctx.Within wide) {form : Form} (hn : ctx.Permits s form n) :
    wide.Permits s form n := by
  cases form with
  | identifier => exact h.permitsName hn
  | unary =>
    obtain ⟨operator, hoperator, hlisted⟩ := hn
    exact ⟨operator, hoperator, h.policy.operators hlisted⟩
  | member => exact ⟨hn.1, hn.2.imp h.isOpaque h.permitsRead⟩
  | call =>
    obtain ⟨hchain, function, hfunction, hkind, hcallee, hcall⟩ := hn
    exact ⟨hchain, function, hfunction, hkind, hcallee, h.permitsCall hcall⟩
  | sequence | literal | template | parenthesized | object | binary | ternary | subscript
  | function => exact hn

/-- **No part is evaluated that was not evaluated before**: more members are accepted as they are
written, and more objects are namespaces, but nothing else changes what is looked at. -/
theorem evaluatedIn_of_within (h : ctx.Within wide) {form : Form} {manner : Manner}
    (hc : EvaluatedIn wide s n form s' manner c) : EvaluatedIn ctx s n form s' manner c := by
  cases hc with
  | object hopaque hobject hns =>
    exact .object (fun hn => hopaque (h.isOpaque hn)) hobject fun ns hn => hns ns (h.isNamespace hn)
  | methodObject hf hk hobject hns =>
    exact .methodObject hf hk hobject fun ns hn => hns ns (h.isNamespace hn)
  | body hbody =>
    rw [h.boundNames]
    exact .body hbody
  | element hc => exact .element hc
  | substitution ht hk hc => exact .substitution ht hk hc
  | inner hc => exact .inner hc
  | computedKey hm hp hkey hk hc => exact .computedKey hm hp hkey hk hc
  | pairValue hm hp hc => exact .pairValue hm hp hc
  | shorthand hm hk => exact .shorthand hm hk
  | argument hc => exact .argument hc
  | operand hc => exact .operand hc
  | branch hf hc => exact .branch hf hc
  | callArgument ha hk hc => exact .callArgument ha hk hc
  | taggedTemplate ha hk => exact .taggedTemplate ha hk

/-! ### All levels -/

/-- Where nothing is found, nothing is found in a wider context with at least as many levels. -/
theorem outcome_eq_nil_of_within (h : ctx.Within wide) {room room' : Nat} (hroom : room ≤ room')
    (hn : WellShaped ctx.source n) (hnil : outcome ctx room s n = .ok []) :
    outcome wide room' s n = .ok [] := by
  -- Both checks go down together; what the wider one looks at the other has looked at, too.
  induction room generalizing room' s n with
  | zero => exact absurd hnil outcome_zero_ne_nil
  | succ room ih =>
    obtain ⟨room', rfl⟩ : ∃ k, room' = k + 1 := ⟨room' - 1, by omega⟩
    obtain ⟨hkind, form, hk, hpermits, hparts, hnames⟩ := (outcome_succ_eq_nil_iff hn).mp hnil
    refine (outcome_succ_eq_nil_iff (h.source ▸ hn)).mpr
      ⟨hkind, form, hk, permits_of_within h hpermits, fun s' c hc => ?_, fun s' m hm => ?_⟩
    · have hc := evaluatedIn_of_within h hc
      exact ih (by omega) (hc.wellShaped hn hk) (hparts s' c hc)
    · exact h.permitsName (hnames s' m (evaluatedIn_of_within h hm))

end Widening

end Check

/-- **A script that is accepted stays accepted under a wider policy**, and with more expressions
that are accepted as they are written: if nothing is found in a well-shaped construct, nothing is
found in it then. -/
theorem Script.validate_eq_nil_of_within (script : Script) {p q : Policy} {allowed more : List Text}
    (hpolicy : p.Within q) (hallowed : allowed ⊆ more) {n : Node} {scope : Scope}
    (hn : WellShaped script.source n) (hnil : (script.validate p allowed n scope).1 = .ok []) :
    (script.validate q more n scope).1 = .ok [] := by
  rw [Script.validate, Check.validate_eq] at hnil ⊢
  have hwithin : Check.Context.Within ⟨script.source, allowed, p⟩ ⟨script.source, more, q⟩ :=
    ⟨rfl, hallowed, hpolicy⟩
  exact Check.outcome_eq_nil_of_within hwithin hpolicy.depth hn hnil

section Callback

open Check

/-- A policy without namespaces, for which `Math` is a name and `max` a method like any other. -/
def plainPolicy : Policy where
  safeIdentifiers := ["Math"]
  safeNamespaces := []
  staticProperties := []
  instanceMethods := ["max"]
  instanceProperties := []
  unaryOperators := []
  namespaceMethods := some []
  offsetUnit := .utf16
  maxDepth := 5
  maxDepth_pos := by decide

/-- The standard policy with that name and that method. -/
def mathPolicy : Policy :=
  { Policy.standard with
    safeIdentifiers := "Math" :: Policy.standardIdentifiers
    instanceMethods := "max" :: Policy.standardMethods }

theorem plainPolicy_within : plainPolicy.Within mathPolicy where
  identifiers := by decide
  constants _ := List.nil_subset _
  methods := by decide
  properties := List.nil_subset _
  operators := List.nil_subset _
  trusted _ h := nomatch h
  namespaces := .inr ⟨List.nil_subset _, rfl⟩
  depth := by decide

/-- `x => Math.max(x, a.b)` is accepted under the first policy, where `Math` is looked at as a name,
and under the second, where it is a namespace; with `x` among the accepted expressions, too. -/
theorem limitCallback_stays_accepted :
    let script : Script := ⟨limitContext.source, limitCallback⟩
    (script.validate plainPolicy ["a.b"] limitCallback {}).1 = .ok [] ∧
      (script.validate mathPolicy ["x", "a.b"] limitCallback {}).1 = .ok [] := by
  intro script
  have hnil : (script.validate plainPolicy ["a.b"] limitCallback {}).1 = .ok [] := rfl
  exact ⟨hnil, script.validate_eq_nil_of_within plainPolicy_within (by decide) (by decide) hnil⟩

end Callback

end ScriptGate
