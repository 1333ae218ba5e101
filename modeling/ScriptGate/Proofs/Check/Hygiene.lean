import ScriptGate.Proofs.Check.Coverage
import ScriptGate.Proofs.Outcome

/-!
# Parameters hide namespaces

A parameter of a function may have the name of a safe namespace. In the body of the function, that
name is then an ordinary value: no member of it is accepted because the namespace lends it, unless
it is part of a member that is written as one of the accepted expressions and taken as it is. The
limits of this law are shown beside it. Accepted expressions are not looked into, whatever the names
in them are bound to; only parameters bind names, so that the name of a function itself hides
nothing; and names are compared as they are written, so that a parameter that is spelled with an
escape hides nothing either.

## Main definitions

* `Check.InBodyOf`: the nodes in the body of a function, with what encloses them.
* `Context.IsMemberOf`, `Context.MemberNameIn`: a member of a name, and the name of a member.
* `Context.Escapes`: a member in an accepted tree that no ordinary value may have.

## Main results

* `Check.isBound_of_parameter`: parameters are bound in the whole body.
* `Check.member_of_parameter`: in an accepted tree, a member of a parameter is judged by the lists
  for ordinary values, or stands in a member that is taken as it is.
* `Check.hygiene_limits`: accepted expressions, function names and escaped names are no part of this
  law.
-/

namespace ScriptGate.Check

/-- The nodes in the body of a function, with their scopes and roles and with the nodes that enclose
the function or, inside its body, the node. -/
def InBodyOf (ctx : Context) (s₀ : Scope) (root f : Node) (above : List (Role × Node)) (t : Scope)
    (role : Role) (m : Node) : Prop :=
  ∃ outer inner s r b, Placed ctx s₀ root outer s r f ∧ f.kind ∈ functionKinds ∧
    f.child? .body = some b ∧
    Placed ctx (s.enter (boundNames ctx (parameters f))) b inner t role m ∧ above = outer ++ inner

/-- A member whose object `o`, without the parentheses around it, is the name `x`. -/
structure Context.IsMemberOf (ctx : Context) (x : Text) (m o : Node) : Prop where
  kind : m.kind = "member_expression"
  object : m.child? .object = some o
  name : o.unwrap.kind = "identifier"
  text : ctx.text o.unwrap = .ok x

/-- The name of the member is listed. -/
def Context.MemberNameIn (ctx : Context) (listed : List Text) (m : Node) : Prop :=
  ∃ property name, m.child? .property = some property ∧ ctx.text property = .ok name ∧ name ∈ listed

section Hygiene

variable {ctx : Context} {s₀ s t : Scope} {root f p m o : Node} {role : Role} {x : Text}

/-! ### Bodies of functions -/

/-- The body of a function is an ordinary value in the scope of the parameters. -/
theorem Exposed.body {r : Role} {b : Node} (hf : Exposed ctx s₀ root s r f)
    (hk : f.kind ∈ functionKinds) (hb : f.child? .body = some b) :
    Exposed ctx s₀ root (s.enter (boundNames ctx (parameters f))) .value b := by
  obtain ⟨hmem, hfield⟩ := Node.child?_eq_some hb
  have hne : ∀ kind, kind ∉ functionKinds → f.kind ≠ kind := by
    rintro _ hnot rfl
    exact hnot hk
  have hbody := hf.child (fun hl => hne _ (by decide) hl.2.1) hmem
  have hrole : r.pass f b = .value := by
    simp [Role.pass, hfield, hne "parenthesized_expression" (by decide),
      hne "formal_parameters" (by decide)]
  rwa [Context.scopeAt_body hk hfield, hrole] at hbody

theorem Context.RuleAt.permits {form : Form} (h : ctx.RuleAt s role form m)
    (hname : form ≠ .identifier) (hmember : form ≠ .member) : ctx.Permits s form m := by
  cases role <;> cases form <;> first | exact h | contradiction

/-- **Parameters are bound in the whole body**, if the function is accepted. -/
theorem isBound_of_parameter {r : Role} {b : Node} (h : WellShaped ctx.source root)
    (ha : Accepted ctx s₀ root) (hf : Exposed ctx s₀ root s r f) (hk : f.kind ∈ functionKinds)
    (hb : f.child? .body = some b)
    (hm : Exposed ctx (s.enter (boundNames ctx (parameters f))) b t role m)
    (hp : p ∈ parameters f) (hx : ctx.text p = .ok x) : t.isBound x := by
  have hcleared := hf.cleared h ha
  have hnamed := (hcleared.wellShaped (Node.child?_eq_some hb).1).named
  have hident := (hcleared.permitted.rule hnamed .function hk).permits (by decide) (by decide) p hp
  exact hm.isBound (isBound_enter.mpr (.inl (mem_boundNames_iff.mpr ⟨p, hp, hident, hx⟩)))

/-! ### Members of parameters -/

theorem Context.IsMemberOf.not_isNamespace (hmem : ctx.IsMemberOf x m o) (hbound : t.isBound x)
    (ns : Text) : ¬ctx.IsNamespace t o ns := by
  rintro ⟨-, htext, -, -, hfree⟩
  obtain rfl := Except.ok.inj (hmem.text.symm.trans htext)
  simp [hbound] at hfree

theorem Context.PermitsAccess.memberNameIn {lends : Text → Text → Prop} {listed : List Text}
    (h : ctx.PermitsAccess t lends listed m) (ho : m.child? .object = some o)
    (hno : ∀ ns, ¬ctx.IsNamespace t o ns) : ctx.MemberNameIn listed m := by
  obtain ⟨object, property, name, hobject, hproperty, hname, hcases⟩ := h
  obtain rfl := Option.some.inj (ho.symm.trans hobject)
  rcases hcases with ⟨ns, hns, -⟩ | ⟨-, hlisted⟩
  · exact absurd hns (hno ns)
  · exact ⟨property, name, hproperty, hname, hlisted⟩

/-- An exposed member of a bound name in an accepted tree. -/
theorem judged_of_isBound (h : WellShaped ctx.source root) (ha : Accepted ctx s₀ root)
    (hm : Exposed ctx s₀ root t role m) (hmem : ctx.IsMemberOf x m o) (hbound : t.isBound x) :
    (∀ ns, ¬ctx.IsNamespace t o ns) ∧
      (role = .callee → ctx.MemberNameIn ctx.policy.instanceMethods m) ∧
      (role ≠ .callee → ctx.IsOpaque m ∨ ctx.MemberNameIn ctx.policy.instanceProperties m) := by
  have hcleared := hm.cleared h ha
  have hnamed := (hcleared.wellShaped (Node.child?_eq_some hmem.object).1).named
  have hrule := hcleared.permitted.rule hnamed .member (by simp [hmem.kind, Form.kinds])
  have hno := hmem.not_isNamespace hbound
  refine ⟨hno, ?_, fun hrole => ?_⟩
  · rintro rfl
    exact hrule.2.memberNameIn hmem.object hno
  · have hpermits : ctx.Permits t .member m := by
      cases role with
      | callee => exact absurd rfl hrole
      | _ => exact hrule
    rcases hpermits.2 with hopaque | hread
    · exact .inl hopaque
    · exact .inr (Context.PermitsAccess.memberNameIn hread hmem.object hno)

/-- **A member of a parameter is judged as one of an ordinary value.** Take any node in the body of
any function of an accepted tree that is a member of a name, and let a parameter of the function be
written like this name. Then the node stands inside a member that is taken as it is, or the name
does not count as a namespace: a member of it that is called has the name of a method of ordinary
values, and a member that is read has the name of a property of ordinary values, unless all of it is
written as one of the accepted expressions. -/
theorem member_of_parameter {above : List (Role × Node)} (h : WellShaped ctx.source root)
    (hnil : (validate ctx root s₀).1 = .ok []) (hm : InBodyOf ctx s₀ root f above t role m)
    (hp : p ∈ parameters f) (hx : ctx.text p = .ok x) (hmem : ctx.IsMemberOf x m o) :
    (∃ l ∈ above, ctx.IsLeaf l.1 l.2) ∨
      (∀ ns, ¬ctx.IsNamespace t o ns) ∧
        (role = .callee → ctx.MemberNameIn ctx.policy.instanceMethods m) ∧
        (role ≠ .callee → ctx.IsOpaque m ∨ ctx.MemberNameIn ctx.policy.instanceProperties m) := by
  by_cases hleaf : ∃ l ∈ above, ctx.IsLeaf l.1 l.2
  · exact .inl hleaf
  obtain ⟨outer, inner, s, r, b, hf, hk, hb, hm, rfl⟩ := hm
  obtain ⟨houter, hinner⟩ := List.forall_mem_append.mp
    fun l hl hleaf' => hleaf ⟨l, hl, hleaf'⟩
  have ha := accepted_of_validate_eq_nil hnil
  have hf := hf.exposed houter
  have hm := hm.exposed hinner
  exact .inr (judged_of_isBound h ha ((hf.body hk hb).trans hm) hmem
    (isBound_of_parameter h ha hf hk hb hm hp hx))

end Hygiene

/-! ### Scripts -/

section Scripts

open Ecma

/-- In an accepted tree, a member of the name `x` that is not called stands in the body of the
function, and no ordinary value may have it. -/
structure Context.Escapes (ctx : Context) (root f : Node) (x : Text) (above : List (Role × Node))
    (t : Scope) (m o : Node) : Prop where
  wellShaped : WellShaped ctx.source root
  accepted : (validate ctx root {}).1 = .ok []
  inBody : ∃ role, role ≠ .callee ∧ InBodyOf ctx {} root f above t role m
  member : ctx.IsMemberOf x m o
  unlisted : ¬ctx.MemberNameIn ctx.policy.instanceProperties m

/-- A member of a name, from the place `start`: the names are `i` and `j` bytes long. -/
def memberTree (start i j : Nat) : Node :=
  bare "member_expression" start (start + i + 1 + j)
    [inField (bare "identifier" start (start + i) []) .object,
     inField (bare "property_identifier" (start + i + 1) (start + i + 1 + j) []) .property]

/-- A function whose parameter is `k` bytes long, such as `x => x.value`. -/
def callback (k : Nat) (body : Node) : Node :=
  bare "arrow_function" 0 body.stop
    [inField (bare "identifier" 0 k []) .parameter, inField body .body]

/-- The tree of a script with one expression. -/
def scriptTree (n : Node) : Node :=
  bare "program" 0 n.stop [bare "expression_statement" 0 n.stop [n]]

/-- What encloses this expression. -/
def enclosing (n : Node) : List (Role × Node) :=
  [(.value, scriptTree n), (.value, bare "expression_statement" 0 n.stop [n])]

section Placing

variable {ctx : Context} {n body : Node} {k : Nat} {t : Scope}

theorem placed_scriptTree : Placed ctx {} (scriptTree n) (enclosing n) {} .value n := by
  have hprogram : Placed ctx {} (scriptTree n) [] {} .value (scriptTree n) := .root
  have hstatement := hprogram.child (.head _)
  have hchild := hstatement.child (.head _)
  simpa [Context.scopeAt_of_kind, Role.pass, enclosing, scriptTree, bare, functionKinds]
    using hchild

theorem inBodyOf_callback
    (ht : ({} : Scope).enter (boundNames ctx (parameters (callback k body))) = t) :
    InBodyOf ctx {} (scriptTree (callback k body)) (callback k body) (enclosing (callback k body)) t
      .value (inField body .body) := by
  have hkind : "arrow_function" ∈ functionKinds := by decide
  exact ⟨_, [], {}, .value, _, placed_scriptTree, hkind, rfl, ht ▸ .root, rfl⟩

/-- Nothing that encloses a function of a script is taken as it is. -/
theorem not_isLeaf_of_enclosing : ∀ l ∈ enclosing n, ¬ctx.IsLeaf l.1 l.2 := by
  intro l hl hleaf
  have hkind := hleaf.2.1
  simp only [enclosing, List.mem_cons, List.not_mem_nil, or_false] at hl
  rcases hl with rfl | rfl
  · exact absurd hkind (show "program" ≠ "member_expression" by decide)
  · exact absurd hkind (show "expression_statement" ≠ "member_expression" by decide)

theorem Context.not_memberNameIn {listed : List Text} {m property : Node} {name : Text}
    (hproperty : m.child? .property = some property) (hname : ctx.text property = .ok name)
    (h : name ∉ listed) : ¬ctx.MemberNameIn listed m := by
  rintro ⟨other, text, hother, htext, hlisted⟩
  obtain rfl := Option.some.inj (hproperty.symm.trans hother)
  obtain rfl := Except.ok.inj (hname.symm.trans htext)
  exact h hlisted

end Placing

/-- The context of `Math => Math.length`. -/
def hiddenName : Context := standardContext "Math => Math.length" []

/-- In `Math => Math.length` the member is one that every value may have. -/
theorem callback_hides_namespace :
    (∀ ns, ¬hiddenName.IsNamespace ⟨[["Math"]]⟩ (inField (bare "identifier" 8 12 []) .object) ns) ∧
    hiddenName.MemberNameIn Policy.standard.instanceProperties
      (inField (memberTree 8 4 6) .body) := by
  have hbody : InBodyOf hiddenName {} (scriptTree (callback 4 (memberTree 8 4 6)))
      (callback 4 (memberTree 8 4 6)) _ ⟨[["Math"]]⟩ .value (inField (memberTree 8 4 6) .body) :=
    inBodyOf_callback rfl
  rcases member_of_parameter (x := "Math") (by decide) rfl hbody (.head _) rfl
    ⟨rfl, rfl, rfl, rfl⟩ with ⟨l, hl, hleaf⟩ | ⟨hno, -, hread⟩
  · exact absurd hleaf (not_isLeaf_of_enclosing l hl)
  · refine ⟨hno, (hread (by decide)).resolve_left ?_⟩
    rintro ⟨-, -, text, -, hallowed⟩
    cases hallowed

/-- The context of `x => x.value` with that member as an accepted expression. -/
def acceptedMember : Context := standardContext "x => x.value" ["x.value"]

theorem acceptedMember_escapes :
    acceptedMember.Escapes (scriptTree (callback 1 (memberTree 5 1 5)))
      (callback 1 (memberTree 5 1 5)) "x" (enclosing (callback 1 (memberTree 5 1 5))) ⟨[["x"]]⟩
      (inField (memberTree 5 1 5) .body) (inField (bare "identifier" 5 6 []) .object) where
  wellShaped := by decide
  accepted := rfl
  inBody := ⟨.value, by decide, inBodyOf_callback rfl⟩
  member := ⟨rfl, rfl, rfl, rfl⟩
  unlisted := Context.not_memberNameIn rfl rfl (by decide)

/-- The context of a function whose body is an accepted expression with a member in it. -/
def acceptedChain : Context := standardContext "Math => Math.PI.foo" ["Math.PI.foo"]

/-- The body of this function. -/
def chainTree : Node :=
  bare "member_expression" 8 19
    [inField (memberTree 8 4 2) .object, inField (bare "property_identifier" 16 19 []) .property]

theorem acceptedChain_escapes :
    acceptedChain.Escapes (scriptTree (callback 4 chainTree)) (callback 4 chainTree) "Math"
      (enclosing (callback 4 chainTree) ++ [(.value, inField chainTree .body)]) ⟨[["Math"]]⟩
      (inField (memberTree 8 4 2) .object) (inField (bare "identifier" 8 12 []) .object) where
  wellShaped := by decide
  accepted := rfl
  inBody := by
    have hbody : Placed acceptedChain ⟨[["Math"]]⟩ (inField chainTree .body) [] ⟨[["Math"]]⟩ .value
      (inField chainTree .body) := .root
    exact ⟨.object, by decide, _, _, {}, .value, _, placed_scriptTree, by decide, rfl,
      hbody.child (.head _), rfl⟩
  member := ⟨rfl, rfl, rfl, rfl⟩
  unlisted := Context.not_memberNameIn rfl rfl (by decide)

/-- The context of a function that has the name of a namespace. -/
def ownName : Context := standardContext "(function Math() { return Math.PI })" []

/-- The body of this function. -/
def ownNameBody : Node :=
  inField (bare "statement_block" 17 35 [bare "return_statement" 19 33 [memberTree 26 4 2]]) .body

/-- This function. -/
def ownNameFunction : Node :=
  bare "function_expression" 1 35
    [bare "identifier" 10 14 [], inField (bare "formal_parameters" 14 16 []) .parameters,
     ownNameBody]

/-- This function with the parentheses around it. -/
def ownNameTree : Node := bare "parenthesized_expression" 0 36 [ownNameFunction]

theorem ownName_escapes :
    ownName.Escapes (scriptTree ownNameTree) ownNameFunction "Math"
      (enclosing ownNameTree ++ [(.value, ownNameTree)] ++ [(.value, ownNameBody),
        (.value, bare "return_statement" 19 33 [memberTree 26 4 2])])
      ⟨[[]]⟩ (memberTree 26 4 2) (inField (bare "identifier" 26 30 []) .object) where
  wellShaped := by decide
  accepted := rfl
  inBody := by
    have htree : Placed ownName {} (scriptTree ownNameTree) (enclosing ownNameTree) {} .value
      ownNameTree := placed_scriptTree
    have hblock : Placed ownName ⟨[[]]⟩ ownNameBody [] ⟨[[]]⟩ .value ownNameBody := .root
    have hreturn := hblock.child (.head _)
    exact ⟨.value, by decide, _, _, {}, .value, ownNameBody, htree.child (.head _), by decide, rfl,
      hreturn.child (.head _), rfl⟩
  member := ⟨rfl, rfl, rfl, rfl⟩
  unlisted := Context.not_memberNameIn rfl rfl (by decide)

/-- The context of a function whose parameter has the name of a namespace, with an escape in it. -/
def escapedName : Context := standardContext "\\u004dath => Math.PI" []

theorem escapedName_escapes :
    escapedName.Escapes (scriptTree (callback 9 (memberTree 13 4 2)))
      (callback 9 (memberTree 13 4 2)) "Math" (enclosing (callback 9 (memberTree 13 4 2)))
      ⟨[["\\u004dath"]]⟩ (inField (memberTree 13 4 2) .body)
      (inField (bare "identifier" 13 17 []) .object) where
  wellShaped := by decide
  accepted := eq_ok_of_toOption (by decide +kernel)
  inBody := ⟨.value, by decide, inBodyOf_callback rfl⟩
  member := ⟨rfl, rfl, rfl, rfl⟩
  unlisted := Context.not_memberNameIn rfl rfl (by decide)

/-- **The limits of the law.** In `x => x.value` with the accepted expression `x.value`, a member of
a parameter is taken as it is, although no value may have it, and in `Math => Math.PI.foo` with the
accepted expression `Math.PI.foo`, a member of a parameter stands inside one that is. In a function
named `Math`, and in one whose parameter is written with an escape for the letter `M`, the name
still counts as the namespace. -/
theorem hygiene_limits :
    (∃ f p above t m o,
      acceptedMember.Escapes (scriptTree (callback 1 (memberTree 5 1 5))) f "x" above t m o ∧
        p ∈ parameters f ∧ acceptedMember.text p = .ok "x" ∧ acceptedMember.IsOpaque m) ∧
    (∃ f p above t m o,
      acceptedChain.Escapes (scriptTree (callback 4 chainTree)) f "Math" above t m o ∧
        p ∈ parameters f ∧ acceptedChain.text p = .ok "Math" ∧ ¬acceptedChain.IsOpaque m ∧
        ∃ l ∈ above, acceptedChain.IsLeaf l.1 l.2) ∧
    (∃ f own above t m o, ownName.Escapes (scriptTree ownNameTree) f "Math" above t m o ∧
        own ∈ f.children ∧ own.field = none ∧ own.kind = "identifier" ∧
        ownName.text own = .ok "Math" ∧ ownName.IsNamespace t o "Math") ∧
    ∃ f p above t m o,
      escapedName.Escapes (scriptTree (callback 9 (memberTree 13 4 2))) f "Math" above t m o ∧
        p ∈ parameters f ∧ escapedName.text p = .ok ("\\u" ++ Text.hex 4 'M'.toNat ++ "ath") ∧
        escapedName.IsNamespace t o "Math" := by
  refine ⟨⟨_, _, _, _, _, _, acceptedMember_escapes, .head _, rfl, rfl, rfl, "x.value", rfl,
    .head _⟩, ⟨_, _, _, _, _, _, acceptedChain_escapes, .head _, rfl, ?_, ?_⟩,
    ⟨_, _, _, _, _, _, ownName_escapes, .head _, rfl, rfl, rfl, rfl, rfl, by decide, by decide,
      rfl⟩,
    ⟨_, _, _, _, _, _, escapedName_escapes, .head _, rfl, rfl, rfl, by decide, by decide, rfl⟩⟩
  · rintro ⟨-, -, text, htext, hallowed⟩
    cases htext
    exact absurd hallowed (by decide)
  · exact ⟨(.value, inField chainTree .body), List.mem_append_right _ (.head _), by decide, rfl,
      rfl, "Math.PI.foo", rfl, .head _⟩

end Scripts

end ScriptGate.Check
