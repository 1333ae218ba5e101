import ScriptGate.Proofs.Check.Permission

/-!
# Exposed nodes

Every node of a tree stands in a scope and has a role: it is called, it is the object of a member,
it binds a name, or it is an ordinary value. Scope and role are handed down from a node to each of
its children, whatever the checker looks at. A node is exposed unless it stands inside a member that
is written as one of the accepted expressions and is not called: such a member is taken as it is.

## Main definitions

* `Check.Role`, `Check.Role.pass`: the roles of nodes, and what a child has.
* `Context.scopeAt`: the scope of a child.
* `Context.IsLeaf`: a member that is taken as it is.
* `Check.Placed`: all nodes of a tree, with what encloses them and with their scopes and roles.
* `Check.Exposed`: the nodes of a tree that do not stand inside such a member, with their scopes and
  roles.

## Main results

* `Check.Placed.exposed`: a node that no such member encloses is exposed.
* `Check.Exposed.trans`: what is exposed inside an exposed value is exposed.
* `Check.Exposed.isBound`: a name that is bound somewhere is bound everywhere below.
-/

namespace ScriptGate.Check

/-- The role of a node: what its surroundings do with it. -/
inductive Role where
  | value
  | callee
  | object
  | binder
  deriving DecidableEq, Repr

/-- The role of a child of a node. Parentheses hand down their own role. What a function has besides
its body, which plays no part or is its only parameter, binds a name. -/
def Role.pass (role : Role) (n c : Node) : Role :=
  if n.kind = "call_expression" ∧ c.field = some .function then callee
  else if n.kind = "member_expression" ∧ c.field = some .object then object
  else if n.kind = "parenthesized_expression" then role
  else if n.kind ∈ functionKinds ∧ (c.field = none ∨ c.field = some .parameter) then binder
  else if n.kind = "formal_parameters" then binder
  else value

/-- The scope of a child of a node: the body of a function is where its parameters are bound. -/
def Context.scopeAt (ctx : Context) (s : Scope) (n c : Node) : Scope :=
  if n.kind ∈ functionKinds ∧ c.field = some .body then s.enter (boundNames ctx (parameters n))
  else s

/-- A member that is taken as it is: it is written as one of the accepted expressions, and it is not
called. -/
def Context.IsLeaf (ctx : Context) (role : Role) (n : Node) : Prop :=
  role ≠ .callee ∧ ctx.IsOpaque n

/-- The nodes below a value in the scope `s₀`, with the nodes that enclose them and the roles of
these, from the outside in, and with their own scopes and roles. -/
inductive Placed (ctx : Context) (s₀ : Scope) (root : Node) :
    List (Role × Node) → Scope → Role → Node → Prop
  | root : Placed ctx s₀ root [] s₀ .value root
  | child {above : List (Role × Node)} {s : Scope} {role : Role} {n c : Node}
      (hn : Placed ctx s₀ root above s role n) (hc : c ∈ n.children) :
      Placed ctx s₀ root (above ++ [(role, n)]) (ctx.scopeAt s n c) (role.pass n c) c

/-- The nodes below a value in the scope `s₀` that do not stand inside a member that is taken as it
is, with their scopes and roles. -/
inductive Exposed (ctx : Context) (s₀ : Scope) (root : Node) : Scope → Role → Node → Prop
  | root : Exposed ctx s₀ root s₀ .value root
  | child {s : Scope} {role : Role} {n c : Node} (hn : Exposed ctx s₀ root s role n)
      (hl : ¬ctx.IsLeaf role n) (hc : c ∈ n.children) :
      Exposed ctx s₀ root (ctx.scopeAt s n c) (role.pass n c) c

section Exposure

variable {ctx : Context} {s₀ s t : Scope} {root n c m : Node} {role : Role}

/-! ### Roles and scopes of children -/

theorem Role.pass_ne_callee (hcall : n.kind = "call_expression" → c.field ≠ some .function)
    (hrole : n.kind = "parenthesized_expression" → role ≠ .callee) :
    role.pass n c ≠ .callee := by
  unfold Role.pass
  split
  case isTrue h => exact absurd h.2 (hcall h.1)
  split
  · decide
  split
  case isTrue h => exact hrole h
  split
  · decide
  split <;> decide

theorem Context.scopeAt_of_kind (h : n.kind ∉ functionKinds) : ctx.scopeAt s n c = s :=
  if_neg fun hn => h hn.1

theorem Context.scopeAt_body (hn : n.kind ∈ functionKinds) (hc : c.field = some .body) :
    ctx.scopeAt s n c = s.enter (boundNames ctx (parameters n)) :=
  if_pos ⟨hn, hc⟩

/-! ### Exposed nodes -/

/-- **A node is exposed unless a member that is taken as it is encloses it.** -/
theorem Placed.exposed {above : List (Role × Node)} (h : Placed ctx s₀ root above s role n)
    (hno : ∀ l ∈ above, ¬ctx.IsLeaf l.1 l.2) : Exposed ctx s₀ root s role n := by
  induction h with
  | root => exact .root
  | child _ hc ih =>
    obtain ⟨houter, hparent⟩ := List.forall_mem_append.mp hno
    exact .child (ih houter) (hparent _ (List.mem_singleton_self _)) hc

/-- What is exposed inside an exposed value is exposed. -/
theorem Exposed.trans (hn : Exposed ctx s₀ root s .value n) (hm : Exposed ctx s n t role m) :
    Exposed ctx s₀ root t role m := by
  induction hm with
  | root => exact hn
  | child _ hl hc ih => exact .child ih hl hc

theorem isBound_enter {names : List Text} {x : Text} :
    (s.enter names).isBound x ↔ x ∈ names ∨ s.isBound x := by
  simp [Scope.isBound, Scope.enter]

/-- **A name that is bound somewhere is bound everywhere below.** -/
theorem Exposed.isBound {x : Text} (hm : Exposed ctx s₀ root t role m) (hx : s₀.isBound x) :
    t.isBound x := by
  induction hm with
  | root => exact hx
  | @child s role n c _ _ _ ih =>
    by_cases hbody : n.kind ∈ functionKinds ∧ c.field = some .body
    · rw [Context.scopeAt_body hbody.1 hbody.2]
      exact isBound_enter.mpr (.inr ih)
    · rwa [Context.scopeAt, if_neg hbody]

end Exposure

end ScriptGate.Check
