import ScriptGate.Proofs.Check.Steps
import ScriptGate.Proofs.Syntax.Wholeness

/-!
# What is evaluated and what is permitted

The rules of the checker, told without the checker. `EvaluatedIn` says which nodes below a construct
are evaluated as its immediate parts and which names are bound there; `Context.Permits` says what is
asked of a construct alone. The steps of a well-shaped construct are exactly these: it finds nothing
if and only if the construct is permitted and nothing is found in what it evaluates.

## Main definitions

* `Check.Form.kinds`: the kinds of nodes of a form.
* `Context.PermitsName`, `Context.IsNamespace`, `Context.IsOpaque`, `Context.PermitsRead`,
  `Context.PermitsCall`: the rules for names and members.
* `Context.Permits`: the rule of a form.
* `Check.EvaluatedIn`: the immediate evaluated parts of a construct.

## Main results

* `Check.Form.ofKind?_eq_some_iff`: every kind has the form whose table lists it.
* `Check.clean_steps_iff`: the steps of a well-shaped construct find nothing if and only if it is
  permitted and nothing is found in its evaluated parts.
-/

namespace ScriptGate.Check

/-! ### The kinds of a form -/

/-- The kinds of nodes of a form. -/
def Form.kinds : Form → List String
  | sequence => ["program", "array", "expression_statement", "return_statement", "statement_block"]
  | literal => ["number", "string", "regex", "true", "false", "null", "undefined"]
  | template => ["template_string"]
  | identifier => ["identifier"]
  | parenthesized => ["parenthesized_expression"]
  | object => ["object"]
  | unary => ["unary_expression"]
  | binary => ["binary_expression"]
  | ternary => ["ternary_expression"]
  | member => ["member_expression"]
  | subscript => ["subscript_expression"]
  | call => ["call_expression"]
  | function => ["function_expression", "function", "arrow_function"]

theorem Form.mem_kinds_of_ofKind? {kind : String} {form : Form} (h : ofKind? kind = some form) :
    kind ∈ form.kinds := by
  unfold ofKind? at h
  split at h
  case isTrue hkind =>
    cases h
    exact hkind
  split at h
  case isTrue hkind =>
    cases h
    exact hkind
  split at h
  case isTrue hkind =>
    cases h
    exact .tail _ (.tail _ hkind)
  split at h
  all_goals first | (cases h; decide) | cases h

/-- **Every kind has the form whose table lists it**, and no other kind has a form. -/
theorem Form.ofKind?_eq_some_iff {kind : String} {form : Form} :
    ofKind? kind = some form ↔ kind ∈ form.kinds := by
  refine ⟨mem_kinds_of_ofKind?, fun h => ?_⟩
  have hall : ∀ kind ∈ form.kinds, ofKind? kind = some form := by cases form <;> decide
  exact hall kind h

/-- No kind has two forms. -/
theorem Form.eq_of_mem_kinds {kind : String} {form other : Form} (h : kind ∈ form.kinds)
    (h' : kind ∈ other.kinds) : form = other :=
  Option.some.inj ((ofKind?_eq_some_iff.mpr h).symm.trans (ofKind?_eq_some_iff.mpr h'))

/-! ### Rules for names and members -/

/-- The parameters of a function. -/
def parameters (n : Node) : List Node :=
  match n.child? .parameter with
  | some p => [p]
  | none => ((n.child? .parameters).map Node.parts).getD []

namespace Context

variable (ctx : Context) (s : Scope)

/-- A name that may stand alone: listed by the policy, bound, or accepted as it is written. -/
def PermitsName (n : Node) : Prop :=
  ∃ name, ctx.text n = .ok name ∧
    (name ∈ ctx.policy.safeIdentifiers ∨ s.isBound name ∨ name ∈ ctx.allowed)

/-- The expression, without the parentheses around it, is the name of a safe namespace that is not
bound. -/
def IsNamespace (n : Node) (ns : Text) : Prop :=
  n.unwrap.kind = "identifier" ∧ ctx.text n.unwrap = .ok ns ∧ ns ≠ [] ∧
    ns ∈ ctx.policy.safeNamespaces ∧ s.isBound ns = false

/-- A member that is written as one of the accepted expressions. -/
def IsOpaque (n : Node) : Prop :=
  n.kind = "member_expression" ∧ n.hasOptionalChain = false ∧
    ∃ t, ctx.text n = .ok t ∧ t ∈ ctx.allowed

/-- A member that may be used: its object is a namespace that lends it, or an ordinary value, and
the member is one that every value may have. -/
def PermitsAccess (lends : Text → Text → Prop) (listed : List Text) (n : Node) : Prop :=
  ∃ object property name, n.child? .object = some object ∧ n.child? .property = some property ∧
    ctx.text property = .ok name ∧
      ((∃ ns, ctx.IsNamespace s object ns ∧ lends ns name) ∨
        (∀ ns, ¬ctx.IsNamespace s object ns) ∧ name ∈ listed)

/-- A member that may be read: a constant of a namespace, or a property that every value may
have. -/
def PermitsRead (n : Node) : Prop :=
  ctx.PermitsAccess s
    (fun ns name => ctx.policy.isStaticProperty ns name ∨ name ∈ ctx.policy.instanceProperties)
    ctx.policy.instanceProperties n

/-- A member that may be called: a method of a namespace, or a method that every value may have. -/
def PermitsCall (n : Node) : Prop :=
  ctx.PermitsAccess s (fun ns name => ctx.policy.isNamespaceMethod ns name)
    ctx.policy.instanceMethods n

/-- What is asked of a construct alone. -/
def Permits : Form → Node → Prop
  | .identifier, n => ctx.PermitsName s n
  | .parenthesized, n => ∃ inner, n.parts = [inner]
  | .object, n => ∀ m ∈ n.parts, m.kind = "pair" ∨ m.kind = "shorthand_property_identifier"
  | .unary, n => ∃ operator, n.child? .operator = some operator ∧
      Text.ofString operator.kind ∈ ctx.policy.unaryOperators
  | .member, n => n.hasOptionalChain = false ∧ (ctx.IsOpaque n ∨ ctx.PermitsRead s n)
  | .subscript, _ => False
  | .call, n => n.hasOptionalChain = false ∧ ∃ function, n.child? .function = some function ∧
      function.unwrap.kind = "member_expression" ∧ function.unwrap.hasOptionalChain = false ∧
        ctx.PermitsCall s function.unwrap
  | .function, n => ∀ p ∈ parameters n, p.kind = "identifier"
  | _, _ => True

end Context

/-! ### Evaluated parts -/

/-- How a node is judged: as a construct, by its kind, or as a bare name. -/
inductive Manner where
  | construct
  | name
  deriving DecidableEq

/-- An operand of a chain of binary operators that is nested to the left. -/
inductive Operand : Node → Node → Prop
  | right {n c : Node} (hc : n.child? .right = some c) : Operand n c
  | left {n c : Node} (hc : n.child? .left = some c) (hk : c.kind ≠ "binary_expression") :
      Operand n c
  | spine {n l c : Node} (hl : n.child? .left = some l) (hk : l.kind = "binary_expression")
      (hc : Operand l c) : Operand n c

/-- The immediate evaluated parts of a construct of a form, each with its scope and the manner in
which it is judged. -/
inductive EvaluatedIn (ctx : Context) (s : Scope) (n : Node) :
    Form → Scope → Manner → Node → Prop
  | element {c : Node} (hc : c ∈ n.parts) : EvaluatedIn ctx s n .sequence s .construct c
  | substitution {t c : Node} (ht : t ∈ n.namedChildren) (hk : t.kind = "template_substitution")
      (hc : c ∈ t.parts) : EvaluatedIn ctx s n .template s .construct c
  | inner {c : Node} (hc : n.parts = [c]) : EvaluatedIn ctx s n .parenthesized s .construct c
  | computedKey {m key c : Node} (hm : m ∈ n.parts) (hp : m.kind = "pair")
      (hkey : m.child? .key = some key) (hk : key.kind = "computed_property_name")
      (hc : c ∈ key.parts) : EvaluatedIn ctx s n .object s .construct c
  | pairValue {m c : Node} (hm : m ∈ n.parts) (hp : m.kind = "pair")
      (hc : m.child? .value = some c) : EvaluatedIn ctx s n .object s .construct c
  | shorthand {m : Node} (hm : m ∈ n.parts) (hk : m.kind = "shorthand_property_identifier") :
      EvaluatedIn ctx s n .object s .name m
  | argument {c : Node} (hc : n.child? .argument = some c) :
      EvaluatedIn ctx s n .unary s .construct c
  | operand {c : Node} (hc : Operand n c) : EvaluatedIn ctx s n .binary s .construct c
  | branch {f : Field} {c : Node} (hf : f ∈ [Field.condition, .consequence, .alternative])
      (hc : n.child? f = some c) : EvaluatedIn ctx s n .ternary s .construct c
  | object {c : Node} (hn : ¬ctx.IsOpaque n) (hc : n.child? .object = some c)
      (hns : ∀ ns, ¬ctx.IsNamespace s c ns) : EvaluatedIn ctx s n .member s .construct c
  | methodObject {f c : Node} (hf : n.child? .function = some f)
      (hk : f.unwrap.kind = "member_expression") (hc : f.unwrap.child? .object = some c)
      (hns : ∀ ns, ¬ctx.IsNamespace s c ns) : EvaluatedIn ctx s n .call s .construct c
  | callArgument {a c : Node} (ha : n.child? .arguments = some a) (hk : a.kind = "arguments")
      (hc : c ∈ a.parts) : EvaluatedIn ctx s n .call s .construct c
  | taggedTemplate {a : Node} (ha : n.child? .arguments = some a) (hk : a.kind ≠ "arguments") :
      EvaluatedIn ctx s n .call s .construct a
  | body {c : Node} (hc : n.child? .body = some c) :
      EvaluatedIn ctx s n .function (s.enter (boundNames ctx (parameters n))) .construct c

/-! ### Names and members that find nothing -/

section Clean

variable {ctx : Context} {s : Scope} {P : Scope → Node → Prop} {n : Node}

theorem text_of_wellShaped (h : WellShaped ctx.source n) : ∃ t, ctx.text n = .ok t := by
  obtain ⟨t, ht⟩ := h.text
  exact ⟨t, by rw [Context.text, ht]; rfl⟩

theorem accepts_eq {t : Text} (h : ctx.text n.unwrap = .ok t) :
    ctx.accepts n = .ok (decide (t ∈ ctx.allowed)) := by
  rw [Context.accepts]
  split
  case isTrue hempty =>
    obtain hnil : ctx.allowed = [] := by simpa using hempty
    simp [hnil, pure, Except.pure]
  case isFalse =>
    rw [h]
    rfl

/-- A name finds nothing if and only if it is permitted. -/
theorem clean_nameSteps_iff (h : WellShaped ctx.source n)
    (hk : n.kind ≠ "parenthesized_expression") :
    Clean P (nameSteps ctx s n) ↔ ctx.PermitsName s n := by
  obtain ⟨name, hname⟩ := text_of_wellShaped h
  have haccepts : ctx.accepts n = .ok (decide (name ∈ ctx.allowed)) :=
    accepts_eq (by rw [Node.unwrap_of_kind hk, hname])
  simp only [nameSteps, hname, haccepts, Context.PermitsName, bind, Except.bind, pure, Except.pure,
    Except.ok.injEq, exists_eq_left']
  by_cases hsafe : name ∈ ctx.policy.safeIdentifiers
  · simp [hsafe]
  by_cases hbound : s.isBound name
  · simp [hsafe, hbound]
  by_cases hallowed : name ∈ ctx.allowed
  · simp [hsafe, hbound, hallowed]
  · simp [hsafe, hbound, hallowed]

/-- The object of a member either names a namespace, which is then found, or it does not. -/
theorem namespaceIn_cases {name : Text} (hname : ctx.text n.unwrap = .ok name) :
    (∃ ns, ctx.IsNamespace s n ns ∧ namespaceIn ctx s (some n) = .ok (some ns)) ∨
      (∀ ns, ¬ctx.IsNamespace s n ns) ∧ namespaceIn ctx s (some n) = .ok none := by
  simp only [namespaceIn, need, Context.IsNamespace, hname, bind, Except.bind, pure, Except.pure,
    Except.ok.injEq]
  by_cases hkind : n.unwrap.kind = "identifier"
  · by_cases hns : name ≠ [] ∧ name ∈ ctx.policy.safeNamespaces ∧ !s.isBound name
    · exact .inl ⟨name, ⟨hkind, rfl, hns.1, hns.2.1, by simpa using hns.2.2⟩, by simp [hkind, hns]⟩
    · refine .inr ⟨?_, by simp only [if_pos hkind, if_neg hns]⟩
      rintro ns ⟨-, rfl, hne, hsafe, hbound⟩
      exact hns ⟨hne, hsafe, by simp [hbound]⟩
  · exact .inr ⟨fun ns hns => hkind hns.1, by simp [hkind]⟩

theorem permitsAccess_iff {object property : Node} {name : Text}
    (hobject : n.child? .object = some object) (hproperty : n.child? .property = some property)
    (hname : ctx.text property = .ok name) {lends : Text → Text → Prop} {listed : List Text} :
    ctx.PermitsAccess s lends listed n ↔
      (∃ ns, ctx.IsNamespace s object ns ∧ lends ns name) ∨
        (∀ ns, ¬ctx.IsNamespace s object ns) ∧ name ∈ listed := by
  constructor
  · rintro ⟨object', property', name', hobject', hproperty', hname', h⟩
    obtain rfl := Option.some.inj (hobject.symm.trans hobject')
    obtain rfl := Option.some.inj (hproperty.symm.trans hproperty')
    obtain rfl := Except.ok.inj (hname.symm.trans hname')
    exact h
  · exact fun h => ⟨object, property, name, hobject, hproperty, hname, h⟩

/-- A member finds nothing if and only if it is permitted and nothing is found in its object, unless
that names a namespace. -/
theorem clean_accessSteps_iff (h : WellShaped ctx.source n) (hk : n.kind = "member_expression")
    {lends : Text → Text → Bool} {listed : List Text} :
    Clean P (accessSteps ctx s lends listed n) ↔
      ctx.PermitsAccess s (fun ns name => lends ns name) listed n ∧
        ∀ c, n.child? .object = some c → (∀ ns, ¬ctx.IsNamespace s c ns) → P s c := by
  have hs := shape_member hk
  obtain ⟨object, hobject⟩ := h.exists_child? hs (f := .object) (by simp)
  obtain ⟨property, hproperty⟩ := h.exists_child? hs (f := .property) (by simp)
  obtain ⟨name, hname⟩ := text_of_wellShaped (h.child? hs hproperty (by decide))
  rw [permitsAccess_iff hobject hproperty hname]
  simp only [accessSteps, hobject, hproperty, need, hname, bind, Except.bind, pure, Except.pure,
    Option.some.injEq, forall_eq']
  obtain ⟨called, hcalled⟩ := text_of_wellShaped (h.child? hs hobject (by decide)).unwrap
  -- A namespace lends the name or does not; an ordinary object is visited, and the name is listed.
  rcases namespaceIn_cases (s := s) hcalled with ⟨ns, hns, hfound⟩ | ⟨hnone, hfound⟩
  · have huniq : ∀ other, ctx.IsNamespace s object other → other = ns := fun other hother =>
      Except.ok.inj (hother.2.1.symm.trans hns.2.1)
    simp only [hfound, Clean.settled_ok]
    constructor
    · intro hclean
      refine ⟨.inl ⟨ns, hns, ?_⟩, fun hno => absurd hns (hno ns)⟩
      by_cases hlends : lends ns name
      · exact hlends
      · simp [hlends] at hclean
    · rintro ⟨⟨other, hother, hlends⟩ | ⟨hno, -⟩, -⟩
      · obtain rfl := huniq other hother
        simp [hlends]
      · exact absurd hns (hno ns)
  · simp only [hfound, Clean.settled_ok, Clean.part_cons, Option.some.injEq, exists_eq_left']
    constructor
    · rintro ⟨hobj, hrest⟩
      refine ⟨.inr ⟨hnone, ?_⟩, fun _ => hobj⟩
      by_cases hlisted : name ∈ listed
      · exact hlisted
      · simp [hlisted] at hrest
    · rintro ⟨⟨ns, hns, -⟩ | ⟨-, hlisted⟩, hobj⟩
      · exact absurd hns (hnone ns)
      · exact ⟨hobj hnone, by simp [hlisted]⟩

/-! ### Forms that find nothing -/

theorem clean_memberSteps_iff (h : WellShaped ctx.source n) (hk : n.kind = "member_expression") :
    Clean P (memberSteps ctx s n) ↔ ctx.Permits s .member n ∧
      (¬ctx.IsOpaque n → ∀ c, n.child? .object = some c → (∀ ns, ¬ctx.IsNamespace s c ns) →
        P s c) := by
  obtain ⟨t, ht⟩ := text_of_wellShaped h
  have haccepts : ctx.accepts n = .ok (decide (t ∈ ctx.allowed)) :=
    accepts_eq (by rw [Node.unwrap_of_kind (by simp [hk]), ht])
  rw [memberSteps, Context.Permits]
  by_cases hchain : n.hasOptionalChain
  · simp [hchain]
  have hopaque : ctx.IsOpaque n ↔ t ∈ ctx.allowed := by
    simp [Context.IsOpaque, hk, hchain, ht]
  simp only [if_neg hchain, haccepts, hopaque, bind, Except.bind, pure, Except.pure,
    Clean.settled_ok, decide_eq_true_eq]
  by_cases hallowed : t ∈ ctx.allowed
  · simp [hchain, hallowed]
  · rw [if_neg hallowed, clean_accessSteps_iff h hk]
    simp [hchain, hallowed, Context.PermitsRead, readable]

theorem clean_methodSteps_iff (h : WellShaped ctx.source n) (hk : n.kind = "member_expression") :
    Clean P (methodSteps ctx s n) ↔ n.hasOptionalChain = false ∧ ctx.PermitsCall s n ∧
      ∀ c, n.child? .object = some c → (∀ ns, ¬ctx.IsNamespace s c ns) → P s c := by
  rw [methodSteps, Context.PermitsCall]
  by_cases hchain : n.hasOptionalChain
  · simp [hchain]
  · rw [if_neg hchain, clean_accessSteps_iff h hk]
    simp [hchain]

theorem clean_argumentSteps_iff (h : WellShaped ctx.source n) (hk : n.kind = "call_expression") :
    Clean P (argumentSteps s n) ↔ ∀ a, n.child? .arguments = some a →
      (a.kind = "arguments" → ∀ c ∈ a.parts, P s c) ∧ (a.kind ≠ "arguments" → P s a) := by
  obtain ⟨a, ha⟩ := h.exists_child? (shape_call hk) (f := .arguments) (by simp)
  simp only [argumentSteps, ha, need, bind, Except.bind, pure, Except.pure, Clean.settled_ok,
    Option.some.injEq, forall_eq']
  by_cases hargs : a.kind = "arguments" <;> simp [hargs]

theorem clean_callSteps_iff (h : WellShaped ctx.source n) (hk : n.kind = "call_expression") :
    Clean P (callSteps ctx s n) ↔ ctx.Permits s .call n ∧
      (∀ f c, n.child? .function = some f → f.unwrap.kind = "member_expression" →
        f.unwrap.child? .object = some c → (∀ ns, ¬ctx.IsNamespace s c ns) → P s c) ∧
      ∀ a, n.child? .arguments = some a →
        (a.kind = "arguments" → ∀ c ∈ a.parts, P s c) ∧ (a.kind ≠ "arguments" → P s a) := by
  obtain ⟨f, hf⟩ := h.exists_child? (shape_call hk) (f := .function) (by simp)
  have hcallee := (h.child? (shape_call hk) hf (by decide)).unwrap
  rw [callSteps, Context.Permits]
  by_cases hchain : n.hasOptionalChain
  · simp [hchain]
  simp only [if_neg hchain, hf, need, bind, Except.bind, pure, Except.pure, Clean.settled_ok]
  by_cases hmember : f.unwrap.kind = "member_expression"
  · rw [if_neg (by simp [hmember]), if_pos hmember, Clean.append,
      clean_methodSteps_iff hcallee hmember, clean_argumentSteps_iff h hk]
    simp only [Option.some.injEq, exists_eq_left', hmember, hchain, true_and]
    constructor
    · rintro ⟨⟨hcallee, hcall, hobject⟩, hargs⟩
      refine ⟨⟨hcallee, hcall⟩, ?_, hargs⟩
      rintro _ c rfl -
      exact hobject c
    · rintro ⟨⟨hcallee, hcall⟩, hobject, hargs⟩
      exact ⟨⟨hcallee, hcall, fun c => hobject f c rfl hmember⟩, hargs⟩
  · by_cases hname : f.unwrap.kind = "identifier" <;>
      by_cases hsub : f.unwrap.kind = "subscript_expression" <;> simp [hname, hsub, hmember]

/-- A function has a single parameter or a list of them. -/
theorem Suffices.parametersOf_eq {src : Source} {Q : Node → Prop} (hQ : Suffices src Q) (h : Q n)
    (hk : n.kind ∈ functionKinds) : parametersOf n = .ok (parameters n) := by
  have hcomplete := hQ.complete h
  rw [Node.complete, shape_function hk] at hcomplete
  rw [parametersOf, parameters]
  cases hsingle : n.child? .parameter with
  | some p => rfl
  | none =>
    obtain ⟨hsome, -⟩ : (n.child? .parameters).isSome ∧ (n.child? .body).isSome := by
      simpa [hsingle] using hcomplete
    obtain ⟨list, hlist⟩ := Option.isSome_iff_exists.mp hsome
    rw [hlist]
    rfl

theorem parametersOf_eq (h : WellShaped ctx.source n) (hk : n.kind ∈ Form.function.kinds) :
    parametersOf n = .ok (parameters n) ∧ ∀ p ∈ parameters n, WellShaped ctx.source p := by
  refine ⟨(suffices_wellShaped ctx.source).parametersOf_eq h hk, ?_⟩
  have hs := shape_function hk
  rw [parameters]
  cases hsingle : n.child? .parameter with
  | some p => simpa using h.child? hs hsingle (by decide)
  | none =>
    cases hlist : n.child? .parameters with
    | none => simp
    | some list => exact fun p hp => (h.child? hs hlist (by decide)).part hp

theorem clean_parameterSteps_iff (h : WellShaped ctx.source n) :
    Clean P (parameterSteps ctx n) ↔ n.kind = "identifier" := by
  obtain ⟨t, ht⟩ := text_of_wellShaped h
  by_cases hk : n.kind = "identifier" <;> simp [parameterSteps, hk, ht]

theorem clean_functionSteps_iff (h : WellShaped ctx.source n) (hk : n.kind ∈ Form.function.kinds) :
    Clean P (functionSteps ctx s n) ↔ ctx.Permits s .function n ∧
      ∀ c, n.child? .body = some c → P (s.enter (boundNames ctx (parameters n))) c := by
  obtain ⟨body, hbody⟩ := h.exists_child? (shape_function hk) (f := .body) (by simp)
  obtain ⟨hparams, hwell⟩ := parametersOf_eq h hk
  simp only [functionSteps, hparams, bind, Except.bind, pure, Except.pure, Clean.settled_ok,
    Clean.append, Clean.flatMap, Clean.part_cons, Clean.nil, hbody, Option.some.injEq,
    exists_eq_left', forall_eq', and_true, Context.Permits]
  exact and_congr_left' (forall₂_congr fun p hp => clean_parameterSteps_iff (hwell p hp))

theorem clean_objectMemberSteps_iff (h : WellShaped ctx.source n) :
    Clean P (objectMemberSteps ctx s n) ↔
      (n.kind = "pair" ∨ n.kind = "shorthand_property_identifier") ∧
      (n.kind = "pair" →
        (∀ key, n.child? .key = some key → key.kind = "computed_property_name" →
          ∀ c ∈ key.parts, P s c) ∧
        ∀ c, n.child? .value = some c → P s c) ∧
      (n.kind = "shorthand_property_identifier" → ctx.PermitsName s n) := by
  rw [objectMemberSteps]
  by_cases hpair : n.kind = "pair"
  · obtain ⟨key, hkey⟩ := h.exists_child? (shape_pair hpair) (f := .key) (by simp)
    obtain ⟨value, hvalue⟩ := h.exists_child? (shape_pair hpair) (f := .value) (by simp)
    by_cases hcomputed : key.kind = "computed_property_name" <;>
      simp [hpair, hkey, hvalue, hcomputed]
  · by_cases hshort : n.kind = "shorthand_property_identifier"
    · simp [hshort, clean_nameSteps_iff h (by simp [hshort])]
    · simp [hpair, hshort]

theorem clean_unarySteps_iff (h : WellShaped ctx.source n) (hk : n.kind = "unary_expression") :
    Clean P (unarySteps ctx s n) ↔ ctx.Permits s .unary n ∧
      ∀ c, n.child? .argument = some c → P s c := by
  have hs := shape_unary hk
  obtain ⟨operator, hoperator⟩ := h.exists_child? hs (f := .operator) (by simp)
  obtain ⟨argument, hargument⟩ := h.exists_child? hs (f := .argument) (by simp)
  simp only [unarySteps, Context.Permits, hoperator, hargument, need, bind, Except.bind, pure,
    Except.pure, Clean.settled_ok, Option.some.injEq, exists_eq_left', forall_eq']
  by_cases hlisted : Text.ofString operator.kind ∈ ctx.policy.unaryOperators <;> simp [hlisted]

/-- The operands of a chain are all there. -/
theorem Suffices.exists_operands {src : Source} {Q : Node → Prop} (hQ : Suffices src Q) (h : Q n)
    (hk : n.kind = "binary_expression") :
    ∃ ops : List Node, n.operands = some (ops.map some) ∧ ∀ c, c ∈ ops ↔ Operand n c := by
  induction n using Node.tree_induction with
  | step n ih =>
    obtain ⟨l, hl⟩ := hQ.exists_child? h (shape_binary hk) (f := .left) (by simp) (by decide)
    obtain ⟨r, hr⟩ := hQ.exists_child? h (shape_binary hk) (f := .right) (by simp) (by decide)
    rw [Node.operands_of_binary hk, hl, hr, Option.bind_some]
    by_cases hleft : l.kind = "binary_expression"
    · obtain ⟨ops, hops, hmem⟩ := ih l (Node.child?_eq_some hl).1
        (hQ.child? h (by rw [hk]; decide) (shape_binary hk) hl (by decide)) hleft
      refine ⟨ops ++ [r], by simp [hops], fun c => ?_⟩
      rw [List.mem_append, hmem, List.mem_singleton]
      constructor
      · rintro (hc | rfl)
        · exact .spine hl hleft hc
        · exact .right hr
      · rintro (hc | ⟨hc, hnot⟩ | ⟨hc, -, hop⟩)
        · exact .inr (Option.some.inj (hc.symm.trans hr))
        · obtain rfl := Option.some.inj (hl.symm.trans hc)
          exact absurd hleft hnot
        · obtain rfl := Option.some.inj (hl.symm.trans hc)
          exact .inl hop
    · refine ⟨[l, r], by simp [Node.operands_of_not_binary hleft], fun c => ?_⟩
      rw [List.mem_cons, List.mem_singleton]
      constructor
      · rintro (rfl | rfl)
        · exact .left hl hleft
        · exact .right hr
      · rintro (hc | ⟨hc, -⟩ | ⟨hc, hbin, -⟩)
        · exact .inr (Option.some.inj (hc.symm.trans hr))
        · exact .inl (Option.some.inj (hc.symm.trans hl))
        · obtain rfl := Option.some.inj (hl.symm.trans hc)
          exact absurd hbin hleft

theorem clean_binarySteps_iff (h : WellShaped ctx.source n) (hk : n.kind = "binary_expression") :
    Clean P (binarySteps s n) ↔ ∀ c, Operand n c → P s c := by
  obtain ⟨ops, hops, hmem⟩ := (suffices_wellShaped ctx.source).exists_operands h hk
  have hsteps : binarySteps s n = ops.map (.visit s) := by
    simp [binarySteps, hops, Step.part]
  rw [hsteps, Clean.map_visit]
  exact forall_congr' fun c => by rw [hmem]

theorem clean_ternarySteps_iff (h : WellShaped ctx.source n) (hk : n.kind = "ternary_expression") :
    Clean P (steps ctx s .ternary n) ↔
      ∀ f ∈ [Field.condition, .consequence, .alternative], ∀ c, n.child? f = some c → P s c := by
  have hs := shape_ternary hk
  obtain ⟨a, ha⟩ := h.exists_child? hs (f := .condition) (by simp)
  obtain ⟨b, hb⟩ := h.exists_child? hs (f := .consequence) (by simp)
  obtain ⟨c, hc⟩ := h.exists_child? hs (f := .alternative) (by simp)
  simp [steps, ha, hb, hc]

theorem clean_parenthesizedSteps_iff :
    Clean P (steps ctx s .parenthesized n) ↔ ctx.Permits s .parenthesized n ∧
      ∀ c, n.parts = [c] → P s c := by
  rw [steps, parenthesizedSteps, Context.Permits]
  rcases n.parts with _ | ⟨inner, _ | ⟨second, rest⟩⟩
  · simp
  · simp
  · simp

theorem mem_substitutions {c : Node} : c ∈ substitutions n ↔
    ∃ t ∈ n.namedChildren, t.kind = "template_substitution" ∧ c ∈ t.parts := by
  simp [substitutions, and_assoc]

/-- **The steps of a well-shaped construct find nothing if and only if the construct is permitted
and nothing is found in its evaluated parts.** -/
theorem clean_steps_iff {form : Form} (h : WellShaped ctx.source n) (hk : n.kind ∈ form.kinds) :
    Clean P (steps ctx s form n) ↔ ctx.Permits s form n ∧
      (∀ s' c, EvaluatedIn ctx s n form s' .construct c → P s' c) ∧
      ∀ s' m, EvaluatedIn ctx s n form s' .name m → ctx.PermitsName s' m := by
  cases form with
  | sequence =>
    rw [steps, Clean.map_visit]
    constructor
    · intro hc
      refine ⟨trivial, ?_, by rintro s' m ⟨⟩⟩
      rintro s' c ⟨hmem⟩
      exact hc c hmem
    · rintro ⟨-, he, -⟩ c hmem
      exact he s c (.element hmem)
  | literal =>
    exact ⟨fun _ => ⟨trivial, by rintro s' c ⟨⟩, by rintro s' m ⟨⟩⟩, fun _ => Clean.nil⟩
  | template =>
    rw [steps, Clean.map_visit]
    constructor
    · intro hc
      refine ⟨trivial, ?_, by rintro s' m ⟨⟩⟩
      intro s' c hev
      cases hev with
      | substitution ht hk hmem => exact hc c (mem_substitutions.mpr ⟨_, ht, hk, hmem⟩)
    · rintro ⟨-, he, -⟩ c hmem
      obtain ⟨t, ht, htk, hmem⟩ := mem_substitutions.mp hmem
      exact he s c (.substitution ht htk hmem)
  | identifier =>
    have hk : n.kind = "identifier" := by simpa [Form.kinds] using hk
    rw [steps, clean_nameSteps_iff h (by simp [hk])]
    exact ⟨fun hname => ⟨hname, by rintro s' c ⟨⟩, by rintro s' m ⟨⟩⟩, fun hall => hall.1⟩
  | parenthesized =>
    rw [clean_parenthesizedSteps_iff]
    constructor
    · rintro ⟨hp, hc⟩
      refine ⟨hp, ?_, by rintro s' m ⟨⟩⟩
      intro s' c hev
      cases hev with
      | inner hinner => exact hc c hinner
    · rintro ⟨hp, he, -⟩
      exact ⟨hp, fun c hinner => he s c (.inner hinner)⟩
  | object =>
    rw [steps, Clean.flatMap]
    constructor
    · intro hc
      have hm := fun m hm => (clean_objectMemberSteps_iff (h.part hm)).mp (hc m hm)
      refine ⟨fun m hmem => (hm m hmem).1, ?_, ?_⟩
      · intro s' c hev
        cases hev with
        | computedKey hmem hp hkey hcomp hc => exact ((hm _ hmem).2.1 hp).1 _ hkey hcomp c hc
        | pairValue hmem hp hvalue => exact ((hm _ hmem).2.1 hp).2 c hvalue
      · intro s' m hev
        cases hev with
        | shorthand hmem hshort => exact (hm m hmem).2.2 hshort
    · rintro ⟨hp, he, hn⟩ m hmem
      refine (clean_objectMemberSteps_iff (h.part hmem)).mpr ⟨hp m hmem, fun hpair => ⟨?_, ?_⟩, ?_⟩
      · exact fun key hkey hcomp c hc => he s c (.computedKey hmem hpair hkey hcomp hc)
      · exact fun c hc => he s c (.pairValue hmem hpair hc)
      · exact fun hshort => hn s m (.shorthand hmem hshort)
  | unary =>
    rw [steps, clean_unarySteps_iff h (by simpa [Form.kinds] using hk)]
    constructor
    · rintro ⟨hp, hc⟩
      refine ⟨hp, ?_, by rintro s' m ⟨⟩⟩
      intro s' c hev
      cases hev with
      | argument hargument => exact hc c hargument
    · rintro ⟨hp, he, -⟩
      exact ⟨hp, fun c hargument => he s c (.argument hargument)⟩
  | binary =>
    rw [steps, clean_binarySteps_iff h (by simpa [Form.kinds] using hk)]
    constructor
    · intro hc
      refine ⟨trivial, ?_, by rintro s' m ⟨⟩⟩
      intro s' c hev
      cases hev with
      | operand hop => exact hc c hop
    · rintro ⟨-, he, -⟩ c hop
      exact he s c (.operand hop)
  | ternary =>
    rw [clean_ternarySteps_iff h (by simpa [Form.kinds] using hk)]
    constructor
    · intro hc
      refine ⟨trivial, ?_, by rintro s' m ⟨⟩⟩
      intro s' c hev
      cases hev with
      | branch hf hbranch => exact hc _ hf c hbranch
    · rintro ⟨-, he, -⟩ f hf c hbranch
      exact he s c (.branch hf hbranch)
  | member =>
    rw [steps, clean_memberSteps_iff h (by simpa [Form.kinds] using hk)]
    constructor
    · rintro ⟨hp, hc⟩
      refine ⟨hp, ?_, by rintro s' m ⟨⟩⟩
      intro s' c hev
      cases hev with
      | object hopaque hobject hns => exact hc hopaque c hobject hns
    · rintro ⟨hp, he, -⟩
      exact ⟨hp, fun hopaque c hobject hns => he s c (.object hopaque hobject hns)⟩
  | subscript => simp [steps, Context.Permits]
  | call =>
    rw [steps, clean_callSteps_iff h (by simpa [Form.kinds] using hk)]
    constructor
    · rintro ⟨hp, hobject, hargs⟩
      refine ⟨hp, ?_, by rintro s' m ⟨⟩⟩
      intro s' c hev
      cases hev with
      | methodObject hf hmember hc hns => exact hobject _ c hf hmember hc hns
      | callArgument ha hk hc => exact (hargs _ ha).1 hk c hc
      | taggedTemplate ha hk => exact (hargs _ ha).2 hk
    · rintro ⟨hp, he, -⟩
      refine ⟨hp, fun f c hf hmember hc hns => he s c (.methodObject hf hmember hc hns), ?_⟩
      exact fun a ha => ⟨fun hk c hc => he s c (.callArgument ha hk hc),
        fun hk => he s a (.taggedTemplate ha hk)⟩
  | function =>
    rw [steps, clean_functionSteps_iff h hk]
    constructor
    · rintro ⟨hp, hc⟩
      refine ⟨hp, ?_, by rintro s' m ⟨⟩⟩
      intro s' c hev
      cases hev with
      | body hbody => exact hc c hbody
    · rintro ⟨hp, he, -⟩
      exact ⟨hp, fun c hbody => he _ c (.body hbody)⟩

end Clean

end ScriptGate.Check
