import ScriptGate.Proofs.Check.Acceptance
import ScriptGate.Proofs.Check.Exposure

/-!
# No construct escapes a check

The checker looks at some children of a node and passes over others: names of members, keys of
pairs, parameters, callees and namespaces are not checked as values are. Nevertheless, if nothing is
found, then every node of the whole tree is permitted in the role that it has, except inside members
that are taken as they are. The proof hands an invariant down from each node to all of its children:
a node was accepted by a check, or it was passed over for one of a few reasons.

## Main definitions

* `Context.RuleAt`: the rule of a form for a node in a role.
* `Context.Permitted`: what holds of every exposed node of an accepted tree.
* `Check.Cleared`: why a node need not be looked at again.

## Main results

* `Check.Cleared.permitted`: a cleared node is permitted.
* `Check.Cleared.child`: the children of a cleared node are cleared.
* `Check.permitted_of_validate_eq_nil`: in an accepted tree every exposed node is permitted.
-/

namespace ScriptGate.Check

/-! ### Permitted nodes -/

/-- What holds no expression: comments, the pieces of literals and the names of members. -/
def passiveKinds : List String := Node.commentKinds ++ Node.fragmentKinds ++ Node.propertyKinds

/-- What holds a list of expressions, but is no expression itself. -/
def listKinds : List String := ["arguments", "template_substitution", "computed_property_name"]

/-- The kinds of constructs that have no form of their own, but stand inside one that has. -/
def partKinds : List String :=
  passiveKinds ++ listKinds ++ ["pair", "shorthand_property_identifier", "formal_parameters"]

/-- The rule of a form for a node in a role. A name that is bound is no use of a name, the object of
a member may name a namespace, and what is called has to be a member that may be called. -/
def Context.RuleAt (ctx : Context) (s : Scope) : Role → Form → Node → Prop
  | .binder, .identifier, _ => True
  | .object, .identifier, n => ctx.PermitsName s n ∨ ∃ ns, ctx.IsNamespace s n ns
  | .callee, .member, n => n.hasOptionalChain = false ∧ ctx.PermitsCall s n
  | _, form, n => ctx.Permits s form n

/-- What holds of a node that may stand in the scope `s` and have the given role: its kind is not
rejected, and if it is a construct, then its kind is known and the rule of its form holds. -/
structure Context.Permitted (ctx : Context) (s : Scope) (role : Role) (n : Node) : Prop where
  not_rejected : Rejection.ofKind? n.kind = none
  not_computed : n.kind ≠ "subscript_expression"
  not_optional : n.kind ≠ "optional_chain"
  known : n.isNamed → (∃ form : Form, n.kind ∈ form.kinds) ∨ n.kind ∈ partKinds
  rule : n.isNamed → ∀ form : Form, n.kind ∈ form.kinds → ctx.RuleAt s role form n
  name : n.kind = "shorthand_property_identifier" → ctx.PermitsName s n

theorem Context.ruleAt_of_permits {ctx : Context} {s : Scope} {role : Role} {form : Form} {n : Node}
    (hrole : role ≠ .callee) (h : ctx.Permits s form n) : ctx.RuleAt s role form n := by
  cases role with
  | value => exact h
  | callee => exact absurd rfl hrole
  | object =>
    cases form with
    | identifier => exact .inl h
    | _ => exact h
  | binder =>
    cases form with
    | identifier => exact trivial
    | _ => exact h

/-! ### Accepted nodes -/

/-- Nothing is found in the node, if enough levels of nesting are looked into. -/
def Accepted (ctx : Context) (s : Scope) (n : Node) : Prop := ∃ room, outcome ctx room s n = .ok []

section Coverage

variable {ctx : Context} {s : Scope} {role : Role} {n c : Node}

/-- An accepted node is of a known kind and permitted, and its evaluated parts are accepted. -/
theorem Accepted.inversion (ha : Accepted ctx s n) (h : WellShaped ctx.source n) :
    Rejection.ofKind? n.kind = none ∧ ∃ form : Form, n.kind ∈ form.kinds ∧ ctx.Permits s form n ∧
      (∀ s' c, EvaluatedIn ctx s n form s' .construct c → Accepted ctx s' c) ∧
      ∀ s' m, EvaluatedIn ctx s n form s' .name m → ctx.PermitsName s' m := by
  obtain ⟨room, hroom⟩ := ha
  cases room with
  | zero => exact absurd hroom outcome_zero_ne_nil
  | succ room =>
    obtain ⟨hr, form, hk, hp, hparts, hnames⟩ := (outcome_succ_eq_nil_iff h).mp hroom
    exact ⟨hr, form, hk, hp, fun s' c hc => ⟨room, hparts s' c hc⟩, hnames⟩

/-- The left part of an accepted chain of operators is accepted: its operands are operands of the
chain, and all operands stand at one level of nesting. -/
theorem Accepted.left (ha : Accepted ctx s n) (h : WellShaped ctx.source n)
    (hk : n.kind = "binary_expression") (hc : n.child? .left = some c) : Accepted ctx s c := by
  obtain ⟨room, hroom⟩ := ha
  cases room with
  | zero => exact absurd hroom outcome_zero_ne_nil
  | succ room =>
    obtain ⟨-, form, hform, -, hparts, -⟩ := (outcome_succ_eq_nil_iff h).mp hroom
    obtain rfl : form = .binary := Form.eq_of_mem_kinds hform (by simp [hk, Form.kinds])
    -- A chain inside the left part was never visited itself, but it would find nothing.
    by_cases hleft : c.kind = "binary_expression"
    · have hwell := h.child? (shape_binary hk) hc (by decide)
      refine ⟨room + 1, (outcome_succ_eq_nil_iff hwell).mpr ?_⟩
      refine ⟨by rw [hleft]; rfl, .binary, by simp [hleft, Form.kinds], trivial, ?_, ?_⟩
      · intro s' m hev
        cases hev with
        | operand hm => exact hparts s m (.operand (.spine hc hleft hm))
      · rintro s' m ⟨⟩
    · exact ⟨room, hparts s c (.operand (.left hc hleft))⟩

/-! ### Cleared nodes -/

/-- Why a node of a tree need not be looked at again, in its scope and role: it is a token, or
nothing is found in it, or the rule of what it stands in has settled what it may be. -/
inductive Cleared (ctx : Context) (s : Scope) : Role → Node → Prop
  | token {role : Role} {n : Node} (hn : n.isNamed = false) (hc : n.children = [])
      (hk : '_' ∉ n.kind.toList) : Cleared ctx s role n
  | value {role : Role} {n : Node} (h : WellShaped ctx.source n) (hrole : role ≠ .callee)
      (ha : Accepted ctx s n) : Cleared ctx s role n
  | passive {role : Role} {n : Node} (h : WellShaped ctx.source n) (hk : n.kind ∈ passiveKinds) :
      Cleared ctx s role n
  | literal {role : Role} {n : Node} (h : WellShaped ctx.source n)
      (hk : n.kind ∈ Form.literal.kinds) : Cleared ctx s role n
  | binder {n : Node} (h : WellShaped ctx.source n) (hk : n.kind = "identifier") :
      Cleared ctx s .binder n
  | shorthand {role : Role} {n : Node} (h : WellShaped ctx.source n)
      (hk : n.kind = "shorthand_property_identifier") (hp : ctx.PermitsName s n) :
      Cleared ctx s role n
  | safeNamespace {n : Node} {ns : Text} (h : WellShaped ctx.source n)
      (hns : ctx.IsNamespace s n ns) : Cleared ctx s .object n
  | callee {n : Node} (h : WellShaped ctx.source n) (hk : n.unwrap.kind = "member_expression")
      (hchain : n.unwrap.hasOptionalChain = false) (hp : ctx.PermitsCall s n.unwrap)
      (ho : ∀ c, n.unwrap.child? .object = some c → (∀ ns, ¬ctx.IsNamespace s c ns) →
        Accepted ctx s c) : Cleared ctx s .callee n
  | list {role : Role} {n : Node} (h : WellShaped ctx.source n) (hk : n.kind ∈ listKinds)
      (hp : ∀ c ∈ n.parts, Accepted ctx s c) : Cleared ctx s role n
  | pair {role : Role} {n : Node} (h : WellShaped ctx.source n) (hk : n.kind = "pair")
      (hkey : ∀ key, n.child? .key = some key → key.kind = "computed_property_name" →
        ∀ c ∈ key.parts, Accepted ctx s c)
      (hvalue : ∀ c, n.child? .value = some c → Accepted ctx s c) : Cleared ctx s role n
  | parameters {role : Role} {n : Node} (h : WellShaped ctx.source n)
      (hk : n.kind = "formal_parameters") (hp : ∀ p ∈ n.parts, p.kind = "identifier") :
      Cleared ctx s role n

/-! ### Cleared nodes are permitted -/

theorem Context.permitted_of_form (form : Form) (hk : n.kind ∈ form.kinds)
    (hform : form ≠ .subscript) (hr : ctx.RuleAt s role form n) : ctx.Permitted s role n := by
  have hall : ∀ kind ∈ form.kinds, Rejection.ofKind? kind = none ∧ kind ≠ "optional_chain" ∧
      kind ≠ "shorthand_property_identifier" := by cases form <;> decide
  obtain ⟨hrejected, hoptional, hshort⟩ := hall n.kind hk
  refine ⟨hrejected, fun hsub => hform ?_, hoptional, fun _ => .inl ⟨form, hk⟩,
    fun _ other ho => ?_, fun hname => absurd hname hshort⟩
  · exact Form.eq_of_mem_kinds hk (by simp [hsub, Form.kinds])
  · obtain rfl := Form.eq_of_mem_kinds hk ho
    exact hr

theorem Context.permitted_of_mem_partKinds (hk : n.kind ∈ partKinds)
    (hname : n.kind = "shorthand_property_identifier" → ctx.PermitsName s n) :
    ctx.Permitted s role n := by
  have hall : ∀ kind ∈ partKinds, Rejection.ofKind? kind = none ∧ kind ≠ "subscript_expression" ∧
      kind ≠ "optional_chain" ∧ Form.ofKind? kind = none := by decide
  obtain ⟨hrejected, hcomputed, hoptional, hform⟩ := hall n.kind hk
  refine ⟨hrejected, hcomputed, hoptional, fun _ => .inr hk, fun _ form hform' => ?_, hname⟩
  rw [Form.ofKind?_eq_some_iff.mpr hform'] at hform
  cases hform

/-- A token is no construct, and no construct that is rejected is written without an underscore. -/
theorem Context.permitted_of_token (hn : n.isNamed = false) (hk : '_' ∉ n.kind.toList) :
    ctx.Permitted s role n := by
  have hne : ∀ kind : String, '_' ∈ kind.toList → n.kind ≠ kind := by
    rintro _ hmem rfl
    exact hk hmem
  refine ⟨?_, hne _ (by decide), hne _ (by decide), by simp [hn], by simp [hn],
    fun h => absurd h (hne _ (by decide))⟩
  have hall : ∀ entry ∈ Rejection.table, '_' ∈ entry.1.toList := by decide
  refine List.lookup_eq_none_iff.mpr fun entry hentry => ?_
  simpa using hne _ (hall entry hentry)

theorem permits_parenthesized (hc : n.contents = [c])
    (hk : c.unwrap.kind = "identifier" ∨ c.unwrap.kind = "member_expression") :
    ctx.Permits s .parenthesized n :=
  ⟨c, Node.parts_of_contents hc (by rcases hk with hk | hk <;> simp [hk])⟩

/-- **A cleared node is permitted.** -/
theorem Cleared.permitted (hcl : Cleared ctx s role n) : ctx.Permitted s role n := by
  cases hcl with
  | token hn _ hk => exact Context.permitted_of_token hn hk
  | value h hrole ha =>
    obtain ⟨-, form, hk, hp, -⟩ := ha.inversion h
    refine Context.permitted_of_form form hk ?_ (Context.ruleAt_of_permits hrole hp)
    rintro rfl
    exact hp
  | passive _ hk =>
    refine Context.permitted_of_mem_partKinds (by simp [partKinds, hk]) fun hname => ?_
    rw [hname] at hk
    exact absurd hk (by decide)
  | literal _ hk =>
    have hrule : ctx.RuleAt s role .literal n := by cases role <;> exact trivial
    exact Context.permitted_of_form .literal hk (by decide) hrule
  | binder _ hk =>
    exact Context.permitted_of_form .identifier (by simp [hk, Form.kinds]) (by decide) trivial
  | shorthand _ hk hp =>
    exact Context.permitted_of_mem_partKinds (by simp [partKinds, hk]) fun _ => hp
  | @safeNamespace _ ns _ hns =>
    rcases n.unwrap_cases with hn | ⟨hparen, c, hc, hn⟩
    · have hk : n.kind = "identifier" := by rw [← hn, hns.1]
      exact Context.permitted_of_form .identifier (by simp [hk, Form.kinds]) (by decide)
        (.inr ⟨ns, hns⟩)
    · have hp : ctx.Permits s .parenthesized n := permits_parenthesized hc (.inl (hn ▸ hns.1))
      exact Context.permitted_of_form .parenthesized (by simp [hparen, Form.kinds]) (by decide) hp
  | callee _ hk hchain hp =>
    rcases n.unwrap_cases with hn | ⟨hparen, c, hc, hn⟩
    · rw [hn] at hk hchain hp
      exact Context.permitted_of_form .member (by simp [hk, Form.kinds]) (by decide)
        ⟨hchain, hp⟩
    · have hp : ctx.Permits s .parenthesized n := permits_parenthesized hc (.inr (hn ▸ hk))
      exact Context.permitted_of_form .parenthesized (by simp [hparen, Form.kinds]) (by decide) hp
  | list _ hk =>
    refine Context.permitted_of_mem_partKinds (by simp [partKinds, hk]) fun hname => ?_
    rw [hname] at hk
    exact absurd hk (by decide)
  | pair _ hk => exact Context.permitted_of_mem_partKinds (by simp [partKinds, hk]) (by simp [hk])
  | parameters _ hk =>
    exact Context.permitted_of_mem_partKinds (by simp [partKinds, hk]) (by simp [hk])

/-! ### Children of accepted nodes -/

theorem cleared_of_comment (h : WellShaped ctx.source n) (hk : n.kind ∈ Node.commentKinds) :
    Cleared ctx s role n :=
  .passive h (by simp [passiveKinds, hk])

/-- The object of a member that is read or called: it names a namespace or is accepted. -/
theorem cleared_of_object (h : WellShaped ctx.source c)
    (ha : (∀ ns, ¬ctx.IsNamespace s c ns) → Accepted ctx s c) : Cleared ctx s .object c := by
  by_cases hns : ∃ ns, ctx.IsNamespace s c ns
  · obtain ⟨ns, hns⟩ := hns
    exact .safeNamespace h hns
  · exact .value h (by decide) (ha fun ns h => hns ⟨ns, h⟩)

/-- The children of a member, given that its object is cleared if it has to be. -/
theorem cleared_of_member (h : WellShaped ctx.source n) (hk : n.kind = "member_expression")
    (hchain : n.hasOptionalChain = false)
    (ho : ∀ c, n.child? .object = some c → (∀ ns, ¬ctx.IsNamespace s c ns) → Accepted ctx s c)
    (hc : c ∈ n.children) (hn : c.isNamed) :
    Cleared ctx (ctx.scopeAt s n c) (role.pass n c) c := by
  have hwell := h.child hc hn
  rw [Context.scopeAt_of_kind (by rw [hk]; decide)]
  rcases h.named_child_cases (shape_member hk) hc hn with ⟨f, hf, -, hmem⟩ | hcomment | ⟨-, hloose⟩
  · obtain rfl | rfl : f = .object ∨ f = .property := by simpa using hmem
    · have hrole : role.pass n c = .object := by
        simp [Role.pass, hk, (Node.child?_eq_some hf).2]
      rw [hrole]
      exact cleared_of_object hwell (ho c hf)
    · have hadmits := h.admits (shape_member hk) hf
      simp only [Field.admits, Bool.and_eq_true, decide_eq_true_eq] at hadmits
      exact .passive hwell (by simp [passiveKinds, hadmits.2])
  · exact cleared_of_comment hwell hcomment
  · exact absurd (by simpa using hloose) (Node.kind_ne_of_hasOptionalChain hchain hc)

/-- The children of a call, given that it is permitted and its evaluated parts are accepted. -/
theorem cleared_of_call (h : WellShaped ctx.source n) (hk : n.kind = "call_expression")
    (hp : ctx.Permits s .call n)
    (hparts : ∀ s' c, EvaluatedIn ctx s n .call s' .construct c → Accepted ctx s' c)
    (hc : c ∈ n.children) (hn : c.isNamed) :
    Cleared ctx (ctx.scopeAt s n c) (role.pass n c) c := by
  have hwell := h.child hc hn
  obtain ⟨hchain, callee, hcallee, hmember, hmemberChain, hcall⟩ := hp
  rw [Context.scopeAt_of_kind (by rw [hk]; decide)]
  rcases h.named_child_cases (shape_call hk) hc hn with ⟨f, hf, -, hmem⟩ | hcomment | ⟨-, hloose⟩
  · obtain rfl | rfl : f = .function ∨ f = .arguments := by simpa using hmem
    · obtain rfl := Option.some.inj (hf.symm.trans hcallee)
      have hrole : role.pass n c = .callee := by
        simp [Role.pass, hk, (Node.child?_eq_some hf).2]
      rw [hrole]
      exact .callee hwell hmember hmemberChain hcall fun o ho hns =>
        hparts s o (.methodObject hf hmember ho hns)
    · by_cases hargs : c.kind = "arguments"
      · exact .list hwell (by simp [listKinds, hargs]) fun a ha =>
          hparts s a (.callArgument hf hargs ha)
      · have hrole : role.pass n c ≠ .callee :=
          Role.pass_ne_callee (by simp [(Node.child?_eq_some hf).2]) (by simp [hk])
        exact .value hwell hrole (hparts s c (.taggedTemplate hf hargs))
  · exact cleared_of_comment hwell hcomment
  · exact absurd (by simpa using hloose) (Node.kind_ne_of_hasOptionalChain hchain hc)

/-- The children of a function, given that it is permitted and its body is accepted. -/
theorem cleared_of_function (h : WellShaped ctx.source n) (hk : n.kind ∈ Form.function.kinds)
    (hp : ctx.Permits s .function n)
    (hparts : ∀ s' c, EvaluatedIn ctx s n .function s' .construct c → Accepted ctx s' c)
    (hc : c ∈ n.children) (hn : c.isNamed) :
    Cleared ctx (ctx.scopeAt s n c) (role.pass n c) c := by
  have hwell := h.child hc hn
  have hne : ∀ kind, kind ∉ Form.function.kinds → n.kind ≠ kind := by
    rintro _ hnot rfl
    exact hnot hk
  have hbinder (hf : c.field = none ∨ c.field = some .parameter) : role.pass n c = .binder := by
    rw [Role.pass, if_neg fun h => hne _ (by decide) h.1, if_neg fun h => hne _ (by decide) h.1,
      if_neg (hne _ (by decide)), if_pos ⟨hk, hf⟩]
  rcases h.named_child_cases (shape_function hk) hc hn with
    ⟨f, hf, -, hmem⟩ | hcomment | ⟨hnone, hloose⟩
  · have hfield := (Node.child?_eq_some hf).2
    obtain rfl | rfl | rfl : f = .parameter ∨ f = .parameters ∨ f = .body := by
      obtain ⟨order, horder, hmem⟩ := hmem
      simp only [List.mem_cons, List.not_mem_nil, or_false] at horder
      rcases horder with rfl | rfl
      · obtain rfl | rfl : f = .parameter ∨ f = .body := by simpa using hmem
        · exact .inl rfl
        · exact .inr (.inr rfl)
      · exact .inr (by simpa using hmem)
    · rw [hbinder (.inr hfield)]
      exact .binder hwell (hp c (by simp [parameters, hf]))
    · have hadmits := h.admits (shape_function hk) hf
      simp only [Field.admits, Bool.and_eq_true, decide_eq_true_eq] at hadmits
      refine .parameters hwell hadmits.2 fun p hpart => hp p ?_
      -- A function that has a list of parameters has no single parameter, which would hide it.
      have hnone : n.child? .parameter = none := by
        refine Node.child?_eq_none fun hmem => ?_
        have hfields := h.fields_mem (shape_function hk)
        have hparams : Field.parameters ∈ n.fields := List.mem_filterMap.mpr ⟨c, hc, hfield⟩
        simp only [List.mem_cons, List.not_mem_nil, or_false] at hfields
        rcases hfields with hfields | hfields
        · simp [hfields] at hparams
        · simp [hfields] at hmem
      simp [parameters, hnone, hf, hpart]
    · have hrole : role.pass n c ≠ .callee :=
        Role.pass_ne_callee (by simp [hfield]) fun h => absurd h (hne _ (by decide))
      rw [Context.scopeAt_body hk hfield]
      exact .value hwell hrole (hparts _ c (.body hf))
  · exact cleared_of_comment hwell hcomment
  · rw [hbinder (.inl hnone)]
    exact .binder hwell (by simpa using hloose)

theorem cleared_of_literal (h : WellShaped ctx.source n) (hk : n.kind ∈ Form.literal.kinds)
    (hc : c ∈ n.children) (hn : c.isNamed) : Cleared ctx s role c := by
  have hall : ∀ kind ∈ Form.literal.kinds, Shape.ofKind? kind = some (.pieces []) ∨
      Shape.ofKind? kind = some (.pieces Node.fragmentKinds) := by decide
  refine .passive (h.child hc hn) ?_
  rcases hall n.kind hk with hs | hs
  · simp [passiveKinds, (h.piece_cases hs hc hn).resolve_right List.not_mem_nil]
  · rcases h.piece_cases hs hc hn with hcomment | hfragment
    · simp [passiveKinds, hcomment]
    · simp [passiveKinds, hfragment]

theorem cleared_of_template (h : WellShaped ctx.source n) (hk : n.kind = "template_string")
    (hparts : ∀ s' c, EvaluatedIn ctx s n .template s' .construct c → Accepted ctx s' c)
    (hc : c ∈ n.children) (hn : c.isNamed) : Cleared ctx s role c := by
  have hwell := h.child hc hn
  have hs : Shape.ofKind? n.kind =
      some (.pieces ("template_substitution" :: Node.fragmentKinds)) := by
    rw [hk]
    rfl
  rcases h.piece_cases hs hc hn with hcomment | hpiece
  · exact cleared_of_comment hwell hcomment
  rcases List.mem_cons.mp hpiece with hsub | hfragment
  · exact .list hwell (by simp [listKinds, hsub]) fun e he =>
      hparts s e (.substitution (Node.mem_namedChildren.mpr ⟨hc, hn⟩) hsub he)
  · exact .passive hwell (by simp [passiveKinds, hfragment])

theorem cleared_of_object_literal (h : WellShaped ctx.source n) (hp : ctx.Permits s .object n)
    (hparts : ∀ s' c, EvaluatedIn ctx s n .object s' .construct c → Accepted ctx s' c)
    (hnames : ∀ s' m, EvaluatedIn ctx s n .object s' .name m → ctx.PermitsName s' m)
    (hc : c ∈ n.children) (hn : c.isNamed) : Cleared ctx s role c := by
  have hwell := h.child hc hn
  rcases Node.part_or_comment hc hn with hpart | hcomment
  · rcases hp c hpart with hpair | hshort
    · exact .pair hwell hpair
        (fun key hkey hk e he => hparts s e (.computedKey hpart hpair hkey hk he))
        fun v hv => hparts s v (.pairValue hpart hpair hv)
    · exact .shorthand hwell hshort (hnames s c (.shorthand hpart hshort))
  · exact cleared_of_comment hwell hcomment

/-- **The children of an accepted node are cleared**, unless it is a member that is taken as it
is. -/
theorem Accepted.cleared_child (ha : Accepted ctx s n) (h : WellShaped ctx.source n)
    (hrole : role ≠ .callee) (hl : ¬ctx.IsLeaf role n) (hc : c ∈ n.children) (hn : c.isNamed) :
    Cleared ctx (ctx.scopeAt s n c) (role.pass n c) c := by
  have hwell := h.child hc hn
  obtain ⟨-, form, hk, hp, hparts, hnames⟩ := ha.inversion h
  by_cases hcall : form = .call
  · subst hcall
    exact cleared_of_call h (by simpa [Form.kinds] using hk) hp hparts hc hn
  by_cases hfunction : form = .function
  · subst hfunction
    exact cleared_of_function h hk hp hparts hc hn
  by_cases hmember : form = .member
  · subst hmember
    have hopaque : ¬ctx.IsOpaque n := fun ho => hl ⟨hrole, ho⟩
    exact cleared_of_member h (by simpa [Form.kinds] using hk) hp.1
      (fun o ho hns => hparts s o (.object hopaque ho hns)) hc hn
  -- The other forms hand down the scope as it is, and call none of their children.
  have hpass : role.pass n c ≠ .callee :=
    Role.pass_ne_callee
      (fun h => absurd (Form.eq_of_mem_kinds hk (by simp [h, Form.kinds])) hcall) fun _ => hrole
  rw [Context.scopeAt_of_kind fun h => hfunction (Form.eq_of_mem_kinds hk h)]
  cases form with
  | sequence =>
    rcases Node.part_or_comment hc hn with hpart | hcomment
    · exact .value hwell hpass (hparts s c (.element hpart))
    · exact cleared_of_comment hwell hcomment
  | literal => exact cleared_of_literal h hk hc hn
  | template => exact cleared_of_template h (by simpa [Form.kinds] using hk) hparts hc hn
  | identifier =>
    have hk : n.kind = "identifier" := by simpa [Form.kinds] using hk
    exact cleared_of_comment hwell (h.comment_of_leaf (by rw [hk]; decide) hc hn)
  | parenthesized =>
    obtain ⟨inner, hinner⟩ := hp
    rcases Node.part_or_comment hc hn with hpart | hcomment
    · obtain rfl : c = inner := by simpa [hinner] using hpart
      exact .value hwell hpass (hparts s c (.inner hinner))
    · exact cleared_of_comment hwell hcomment
  | object => exact cleared_of_object_literal h hp hparts hnames hc hn
  | unary =>
    have hs := shape_unary (n := n) (by simpa [Form.kinds] using hk)
    rcases h.named_child_cases hs hc hn with ⟨f, hf, hne, hmem⟩ | hcomment | ⟨-, hloose⟩
    · obtain rfl : f = .argument := by simpa [hne] using hmem
      exact .value hwell hpass (hparts s c (.argument hf))
    · exact cleared_of_comment hwell hcomment
    · cases hloose
  | binary =>
    have hk : n.kind = "binary_expression" := by simpa [Form.kinds] using hk
    rcases h.named_child_cases (shape_binary hk) hc hn with
      ⟨f, hf, hne, hmem⟩ | hcomment | ⟨-, hloose⟩
    · obtain rfl | rfl : f = .left ∨ f = .right := by simpa [hne] using hmem
      · exact .value hwell hpass (ha.left h hk hf)
      · exact .value hwell hpass (hparts s c (.operand (.right hf)))
    · exact cleared_of_comment hwell hcomment
    · cases hloose
  | ternary =>
    have hs := shape_ternary (n := n) (by simpa [Form.kinds] using hk)
    rcases h.named_child_cases hs hc hn with ⟨f, hf, -, hmem⟩ | hcomment | ⟨-, hloose⟩
    · exact .value hwell hpass (hparts s c (.branch (by simpa using hmem) hf))
    · exact cleared_of_comment hwell hcomment
    · cases hloose
  | member => exact absurd rfl hmember
  | subscript => exact absurd hp id
  | call => exact absurd rfl hcall
  | function => exact absurd rfl hfunction

/-! ### Children of cleared nodes -/

theorem Role.pass_parenthesized (hk : n.kind = "parenthesized_expression") :
    role.pass n c = role := by
  simp [Role.pass, hk]

/-- A construct among the children of parentheses is a comment, or it is what stands in them. -/
theorem eq_of_contents {inner : Node} (hinner : n.contents = [inner]) (hc : c ∈ n.children)
    (hn : c.isNamed) : c.kind ∈ Node.commentKinds ∨ c = inner := by
  by_cases hk : c.kind = "comment"
  · exact .inl (by simp [hk, Node.commentKinds])
  · have hmem : c ∈ n.contents := Node.mem_contents.mpr ⟨hc, by simp [Node.isContent, hn, hk]⟩
    exact .inr (by simpa [hinner] using hmem)

theorem cleared_of_safeNamespace {ns : Text} (h : WellShaped ctx.source n)
    (hns : ctx.IsNamespace s n ns) (hc : c ∈ n.children) (hn : c.isNamed) :
    Cleared ctx (ctx.scopeAt s n c) (Role.object.pass n c) c := by
  have hwell := h.child hc hn
  rcases n.unwrap_cases with hself | ⟨hparen, inner, hinner, hunwrap⟩
  · have hk : n.kind = "identifier" := by rw [← hself, hns.1]
    exact cleared_of_comment hwell (h.comment_of_leaf (by rw [hk]; decide) hc hn)
  · rcases eq_of_contents hinner hc hn with hcomment | rfl
    · exact cleared_of_comment hwell hcomment
    · rw [Role.pass_parenthesized hparen, Context.scopeAt_of_kind (by rw [hparen]; decide)]
      have hinside : ctx.IsNamespace s c ns := by rwa [Context.IsNamespace, ← hunwrap]
      exact .safeNamespace hwell hinside

theorem cleared_of_callee (h : WellShaped ctx.source n) (hk : n.unwrap.kind = "member_expression")
    (hchain : n.unwrap.hasOptionalChain = false) (hp : ctx.PermitsCall s n.unwrap)
    (ho : ∀ c, n.unwrap.child? .object = some c → (∀ ns, ¬ctx.IsNamespace s c ns) →
      Accepted ctx s c) (hc : c ∈ n.children) (hn : c.isNamed) :
    Cleared ctx (ctx.scopeAt s n c) (Role.callee.pass n c) c := by
  have hwell := h.child hc hn
  -- Parentheses hand the role of a callee down to what stands in them.
  rcases n.unwrap_cases with hself | ⟨hparen, inner, hinner, hunwrap⟩
  · rw [hself] at hk hchain ho
    exact cleared_of_member h hk hchain ho hc hn
  · rcases eq_of_contents hinner hc hn with hcomment | rfl
    · exact cleared_of_comment hwell hcomment
    · rw [hunwrap] at hk hchain hp ho
      rw [Role.pass_parenthesized hparen, Context.scopeAt_of_kind (by rw [hparen]; decide)]
      exact .callee hwell hk hchain hp ho

theorem cleared_of_pair (h : WellShaped ctx.source n) (hk : n.kind = "pair")
    (hkey : ∀ key, n.child? .key = some key → key.kind = "computed_property_name" →
      ∀ c ∈ key.parts, Accepted ctx s c)
    (hvalue : ∀ c, n.child? .value = some c → Accepted ctx s c) (hc : c ∈ n.children)
    (hn : c.isNamed) (hrole : role ≠ .callee) : Cleared ctx s role c := by
  have hwell := h.child hc hn
  rcases h.named_child_cases (shape_pair hk) hc hn with ⟨f, hf, -, hmem⟩ | hcomment | ⟨-, hloose⟩
  · obtain rfl | rfl : f = .key ∨ f = .value := by simpa using hmem
    · have hadmits := h.admits (shape_pair hk) hf
      simp only [Field.admits, Bool.and_eq_true, decide_eq_true_eq, Node.keyKinds,
        List.mem_append] at hadmits
      rcases hadmits.2 with hname | hother
      · exact .passive hwell (by simp [passiveKinds, hname])
      · obtain hstring | hnumber | hcomputed : c.kind = "string" ∨ c.kind = "number" ∨
            c.kind = "computed_property_name" := by simpa using hother
        · exact .literal hwell (by simp [hstring, Form.kinds])
        · exact .literal hwell (by simp [hnumber, Form.kinds])
        · exact .list hwell (by simp [listKinds, hcomputed]) (hkey c hf hcomputed)
    · exact .value hwell hrole (hvalue c hf)
  · exact cleared_of_comment hwell hcomment
  · cases hloose

/-- A cleared node that has children is a construct. -/
theorem Cleared.wellShaped (hcl : Cleared ctx s role n) (hc : c ∈ n.children) :
    WellShaped ctx.source n := by
  cases hcl with
  | token _ hnil => simp [hnil] at hc
  | _ => assumption

/-- **The children of a cleared node are cleared**, each in its own scope and role, unless the node
is a member that is taken as it is. -/
theorem Cleared.child (hcl : Cleared ctx s role n) (hl : ¬ctx.IsLeaf role n) (hc : c ∈ n.children) :
    Cleared ctx (ctx.scopeAt s n c) (role.pass n c) c := by
  have h := hcl.wellShaped hc
  cases hn : c.isNamed with
  | false =>
    obtain ⟨hnil, hk⟩ := h.token hc hn
    exact .token hn hnil hk
  | true =>
    have hwell := h.child hc hn
    cases hcl with
    | token _ hnil => simp [hnil] at hc
    | value _ hrole ha => exact ha.cleared_child h hrole hl hc hn
    | passive _ hk =>
      have hall : ∀ kind ∈ passiveKinds, kind ∈ Node.leafKinds := by decide
      exact cleared_of_comment hwell (h.comment_of_leaf (hall _ hk) hc hn)
    | literal _ hk => exact cleared_of_literal h hk hc hn
    | binder _ hk =>
      exact cleared_of_comment hwell (h.comment_of_leaf (by rw [hk]; decide) hc hn)
    | shorthand _ hk =>
      exact cleared_of_comment hwell (h.comment_of_leaf (by rw [hk]; decide) hc hn)
    | safeNamespace _ hns => exact cleared_of_safeNamespace h hns hc hn
    | callee _ hk hchain hp ho => exact cleared_of_callee h hk hchain hp ho hc hn
    | list _ hk hp =>
      have hall : ∀ kind ∈ listKinds, kind ∉ functionKinds ∧ kind ≠ "call_expression" ∧
          kind ≠ "parenthesized_expression" := by decide
      obtain ⟨hfunction, hcall, hparen⟩ := hall _ hk
      rw [Context.scopeAt_of_kind hfunction]
      rcases Node.part_or_comment hc hn with hpart | hcomment
      · exact .value hwell (Role.pass_ne_callee (absurd · hcall) (absurd · hparen)) (hp c hpart)
      · exact cleared_of_comment hwell hcomment
    | pair _ hk hkey hvalue =>
      rw [Context.scopeAt_of_kind (by rw [hk]; decide)]
      have hrole : role.pass n c ≠ .callee := Role.pass_ne_callee (by simp [hk]) (by simp [hk])
      exact cleared_of_pair h hk hkey hvalue hc hn hrole
    | parameters _ hk hp =>
      rcases Node.part_or_comment hc hn with hpart | hcomment
      · have hrole : role.pass n c = .binder := by simp [Role.pass, hk, functionKinds]
        rw [hrole]
        exact .binder hwell (hp c hpart)
      · exact cleared_of_comment hwell hcomment

/-! ### Accepted trees -/

/-- All exposed nodes below an accepted value are cleared. -/
theorem Exposed.cleared {s₀ : Scope} {root : Node} (hm : Exposed ctx s₀ root s role n)
    (h : WellShaped ctx.source root) (ha : Accepted ctx s₀ root) : Cleared ctx s role n := by
  induction hm with
  | root => exact .value h (by decide) ha
  | child _ hl hc ih => exact ih.child hl hc

theorem accepted_of_validate_eq_nil (hnil : (validate ctx n s).1 = .ok []) : Accepted ctx s n := by
  rw [validate_eq] at hnil
  exact ⟨_, hnil⟩

/-- **No construct escapes a check.** If nothing is found in a well-shaped tree, then every node of
the whole tree is permitted in its scope and role, except inside members that are taken as they
are. -/
theorem permitted_of_validate_eq_nil {s₀ : Scope} {root : Node} (h : WellShaped ctx.source root)
    (hnil : (validate ctx root s₀).1 = .ok []) (hm : Exposed ctx s₀ root s role n) :
    ctx.Permitted s role n :=
  (hm.cleared h (accepted_of_validate_eq_nil hnil)).permitted

end Coverage

/-- The parameter of a callback where it is used as an argument: it stands in a scope that binds it,
below the program, the statement, the function, the call and the list of arguments. -/
theorem limitCallback_argument_permitted : ∃ s : Scope, s.isBound "x" ∧
    Exposed limitContext {} limitCallback s .value (Ecma.bare "identifier" 14 15 []) ∧
    limitContext.Permitted s .value (Ecma.bare "identifier" 14 15 []) := by
  have hprogram : Exposed limitContext {} limitCallback {} .value limitCallback := .root
  have hstatement := hprogram.child (fun hl => absurd hl.2.1 (by decide)) (.head _)
  have hfunction := hstatement.child (fun hl => absurd hl.2.1 (by decide)) (.head _)
  have hcall := hfunction.child (fun hl => absurd hl.2.1 (by decide)) (.tail _ (.head _))
  have harguments := hcall.child (fun hl => absurd hl.2.1 (by decide)) (.tail _ (.head _))
  have hexposed := harguments.child (fun hl => absurd hl.2.1 (by decide)) (.head _)
  exact ⟨_, rfl, hexposed, permitted_of_validate_eq_nil (by decide) rfl hexposed⟩

end ScriptGate.Check
