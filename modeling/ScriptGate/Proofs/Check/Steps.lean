import ScriptGate.Check.Walk

/-!
# The steps of a check

The rule of a form reads the node itself, and then reports nodes and visits nodes below it, one
after the other. What it is going to do is a list of steps that depends on the node and on the
scope, but not on what the visits find. A check carries these steps out and leaves the scope as it
found it, so that every law of the checker follows from what the steps of a form are.

## Main definitions

* `Check.Step`: a report, a visit, or a failure of the whole check.
* `Check.steps`: the steps of a form; `Check.plan`: those of a node.
* `Check.perform`: what carrying out steps gives.
* `Check.outcome`: what a check of a node gives, as a function of the scope.
* `Check.Account`: what is known of checks in a monad, closed under all that a rule is made of.

## Main results

* `Check.Account.carries_rule`: a rule carries out its steps, whatever monad it runs in.
* `Check.settles_walk`, `Check.validate_eq`: a check gives its outcome and restores the scope.
* `Check.perform_eq_nil_iff`: nothing is found if and only if all steps are visits that find
  nothing.
-/

namespace ScriptGate.Check

/-! ### What is read of a node -/

section Spans

variable {ctx : Context} {n m : Node}

/-- What is read of the script depends on the span alone. -/
theorem Context.text_of_span (hstart : m.start = n.start) (hstop : m.stop = n.stop) :
    ctx.text m = ctx.text n := by
  simp only [Context.text, Source.text, hstart, hstop]

theorem Context.report_of_span {message : Text} (hstart : m.start = n.start)
    (hstop : m.stop = n.stop) : ctx.report m message = ctx.report n message := by
  simp only [Context.report, diagnostic, Source.span, hstart, hstop]

end Spans

/-! ### Steps -/

/-- One thing that a check does. -/
inductive Step where
  | report (n : Node) (message : Text)
  | visit (scope : Scope) (n : Node)
  | fail (fault : Fault)

namespace Step

/-- The visit of a part, which has to be there. -/
def part (s : Scope) : Option Node → Step
  | some n => visit s n
  | none => fail (.absent .kind)

end Step

theorem eq_of_part_eq_visit {s t : Scope} {o : Option Node} {c : Node}
    (h : Step.part s o = .visit t c) : t = s ∧ o = some c := by
  cases o with
  | none => cases h
  | some d =>
    cases h
    exact ⟨rfl, rfl⟩

/-- The steps that a node was found to call for, or the failure to find them. -/
def settled : Except Fault (List Step) → List Step
  | .ok steps => steps
  | .error fault => [.fail fault]

theorem settled_pure (steps : List Step) : settled (pure steps) = steps := rfl

theorem need_eq_ok {asked : Aspect} {o : Option Node} {c : Node} (h : need asked o = .ok c) :
    o = some c := by
  cases o with
  | none => cases h
  | some d => exact congrArg some (Except.ok.inj h)

section Steps

variable (ctx : Context) (s : Scope)

/-- The steps for a name that stands alone. -/
def nameSteps (n : Node) : List Step := settled do
  let name ← ctx.text n
  if name ∈ ctx.policy.safeIdentifiers then pure []
  else if s.isBound name then pure []
  else
    let accepted ← ctx.accepts n
    pure (if accepted then [] else [.report n (identifierTemplate.fill name)])

/-- The steps for a member of an object literal. -/
def objectMemberSteps (m : Node) : List Step :=
  if m.kind = "pair" then
    (match m.child? .key with
      | some key =>
        if key.kind = "computed_property_name" then key.parts.map (.visit s) else []
      | none => []) ++ [.part s (m.child? .value)]
  else if m.kind = "shorthand_property_identifier" then nameSteps ctx s m
  else [.report m (unsupportedTemplate.fill m.kind)]

/-- The steps for an operator with one operand. -/
def unarySteps (n : Node) : List Step := settled do
  let operator ← need .kind (n.child? .operator)
  pure (if Text.ofString operator.kind ∈ ctx.policy.unaryOperators then
      [.part s (n.child? .argument)]
    else [.report n (operatorTemplate.fill operator.kind)])

/-- The safe namespace that an expression names in a scope. -/
def namespaceIn (object : Option Node) : Except Fault (Option Text) := do
  let object ← need .kind object
  if object.unwrap.kind = "identifier" then
    let name ← ctx.text object.unwrap
    pure (if name ≠ [] ∧ name ∈ ctx.policy.safeNamespaces ∧ !s.isBound name then some name
      else none)
  else pure none

/-- The steps for a member of an object: `trusted` says which names a namespace lends, and `listed`
are those of ordinary values. -/
def accessSteps (trusted : Text → Text → Bool) (listed : List Text) (n : Node) : List Step :=
  settled do
    let property ← need .place (n.child? .property)
    let name ← ctx.text property
    let ns ← namespaceIn ctx s (n.child? .object)
    pure (match ns with
      | some ns => if trusted ns name then [] else [.report property memberMessage]
      | none => .part s (n.child? .object) ::
          if name ∈ listed then [] else [.report property memberMessage])

/-- A namespace lends its constants to be read, and what every value has. -/
def readable (ns name : Text) : Bool :=
  ctx.policy.isStaticProperty ns name ∨ name ∈ ctx.policy.instanceProperties

/-- The steps for a member that is read. -/
def memberSteps (n : Node) : List Step :=
  if n.hasOptionalChain then [.report n (unsupportedTemplate.fill "optional chaining")]
  else settled do
    let accepted ← ctx.accepts n
    pure (if accepted then [] else
      accessSteps ctx s (readable ctx) ctx.policy.instanceProperties n)

/-- The steps for a member that is called. -/
def methodSteps (callee : Node) : List Step :=
  if callee.hasOptionalChain then [.report callee (unsupportedTemplate.fill "optional chaining")]
  else accessSteps ctx s ctx.policy.isNamespaceMethod ctx.policy.instanceMethods callee

/-- The steps for the arguments of a call. -/
def argumentSteps (n : Node) : List Step := settled do
  let arguments ← need .kind (n.child? .arguments)
  pure (if arguments.kind = "arguments" then arguments.parts.map (.visit s)
    else [.visit s arguments])

/-- The steps for a call. -/
def callSteps (n : Node) : List Step :=
  if n.hasOptionalChain then [.report n (unsupportedTemplate.fill "optional chaining")]
  else settled do
    let function ← need .kind (n.child? .function)
    let callee := function.unwrap
    pure (if callee.kind = "identifier" then [.report n globalCallMessage]
      else if callee.kind = "member_expression" then
        methodSteps ctx s callee ++ argumentSteps s n
      else if callee.kind = "subscript_expression" then
        .report callee computedMemberMessage :: argumentSteps s n
      else [.report n (unsupportedTemplate.fill ("call of " ++ callee.kind : String))])

/-- The step for a parameter: a name is only read, all else is reported. -/
def parameterSteps (p : Node) : List Step :=
  if p.kind = "identifier" then
    match ctx.text p with
    | .ok _ => []
    | .error fault => [.fail fault]
  else [.report p (unsupportedTemplate.fill p.kind)]

/-- The names that parameters bind. -/
def boundNames (parameters : List Node) : List Text :=
  parameters.filterMap fun p => if p.kind = "identifier" then (ctx.text p).toOption else none

variable {ctx} in
theorem mem_boundNames_iff {ps : List Node} {x : Text} : x ∈ boundNames ctx ps ↔
    ∃ p ∈ ps, p.kind = "identifier" ∧ ctx.text p = .ok x := by
  simp only [boundNames, List.mem_filterMap]
  refine exists_congr fun p => and_congr_right fun _ => ?_
  by_cases hk : p.kind = "identifier"
  · cases htext : ctx.text p with
    | ok name => simp [hk, Except.toOption]
    | error fault => simp [Except.toOption]
  · simp [hk]

/-- The steps for a function. -/
def functionSteps (n : Node) : List Step := settled do
  let parameters ← parametersOf n
  pure (parameters.flatMap (parameterSteps ctx) ++
    [.part (s.enter (boundNames ctx parameters)) (n.child? .body)])

/-- The steps for a chain of binary operators. -/
def binarySteps (n : Node) : List Step :=
  match n.operands with
  | some operands => operands.map (.part s)
  | none => [.fail (.absent .kind)]

/-- The steps for parentheses. -/
def parenthesizedSteps (n : Node) : List Step :=
  match n.parts with
  | [inner] => [.visit s inner]
  | _ => [.report n (unsupportedTemplate.fill n.kind)]

/-- The expressions of the substitutions of a template literal. -/
def substitutions (n : Node) : List Node :=
  (n.namedChildren.filter fun c => c.kind = "template_substitution").flatMap (·.parts)

/-- The steps of a form. -/
def steps (form : Form) (n : Node) : List Step :=
  match form with
  | .sequence => n.parts.map (.visit s)
  | .literal => []
  | .template => (substitutions n).map (.visit s)
  | .identifier => nameSteps ctx s n
  | .parenthesized => parenthesizedSteps s n
  | .object => n.parts.flatMap (objectMemberSteps ctx s)
  | .unary => unarySteps ctx s n
  | .binary => binarySteps s n
  | .ternary =>
    [n.child? .condition, n.child? .consequence, n.child? .alternative].map (.part s)
  | .member => memberSteps ctx s n
  | .subscript => [.report n computedMemberMessage]
  | .call => callSteps ctx s n
  | .function => functionSteps ctx s n

/-- The steps of a node for which `room` further levels of nesting may be looked into. -/
def plan (room : Nat) (n : Node) : List Step :=
  match Rejection.ofKind? n.kind with
  | some r => [.report n r.message]
  | none =>
    match room with
    | 0 => [.report n nestingMessage]
    | _ + 1 =>
      match Form.ofKind? n.kind with
      | some form => steps ctx s form n
      | none => [.report n (unsupportedTemplate.fill n.kind)]

end Steps

/-! ### Carrying out steps -/

section Perform

variable (ctx : Context) (find : Scope → Node → Except Fault (List Diagnostic))

/-- What one step gives, given what visits give. -/
def Step.result : Step → Except Fault (List Diagnostic)
  | .report n message => ctx.report n message
  | .visit s n => find s n
  | .fail fault => .error fault

/-- What steps give, one after the other. -/
def perform : List Step → Except Fault (List Diagnostic)
  | [] => pure []
  | step :: rest => do
    let first ← step.result ctx find
    let others ← perform rest
    pure (first ++ others)

@[simp] theorem perform_nil : perform ctx find [] = .ok [] := rfl

theorem perform_cons (step : Step) (rest : List Step) :
    perform ctx find (step :: rest) = (do
      let first ← step.result ctx find
      let others ← perform ctx find rest
      pure (first ++ others)) := rfl

variable {ctx find} in
theorem perform_cons_eq_ok {step : Step} {rest : List Step} {ds : List Diagnostic}
    (h : perform ctx find (step :: rest) = .ok ds) :
    ∃ first others, step.result ctx find = .ok first ∧ perform ctx find rest = .ok others ∧
      ds = first ++ others := by
  rw [perform_cons] at h
  cases hfirst : step.result ctx find with
  | error fault => simp [hfirst, bind, Except.bind] at h
  | ok first =>
    cases hothers : perform ctx find rest with
    | error fault => simp [hfirst, hothers, bind, Except.bind] at h
    | ok others =>
      refine ⟨first, others, rfl, rfl, ?_⟩
      simpa [hfirst, hothers, bind, Except.bind, pure, Except.pure] using h.symm

@[simp] theorem perform_singleton (step : Step) :
    perform ctx find [step] = step.result ctx find := by
  rw [perform_cons]
  cases step.result ctx find <;> simp [bind, Except.bind, pure, Except.pure]

theorem perform_append (first rest : List Step) :
    perform ctx find (first ++ rest) = (do
      let ds ← perform ctx find first
      let es ← perform ctx find rest
      pure (ds ++ es)) := by
  induction first with
  | nil => cases h : perform ctx find rest <;> simp [h, bind, Except.bind, pure, Except.pure]
  | cons step first ih =>
    simp only [List.cons_append, perform_cons, ih, bind_assoc, pure_bind, List.append_assoc]

/-! ### Steps that find nothing -/

/-- The step is the visit of a node for which `P` holds in the scope of the visit. -/
def Step.Visits (P : Scope → Node → Prop) : Step → Prop
  | .visit s n => P s n
  | _ => False

/-- All steps are visits of nodes for which `P` holds. -/
def Clean (P : Scope → Node → Prop) (steps : List Step) : Prop := ∀ step ∈ steps, step.Visits P

namespace Clean

variable {P : Scope → Node → Prop} {s : Scope} {n : Node} {rest : List Step}

@[simp] theorem nil : Clean P [] := by simp [Clean]

@[simp] theorem visit_cons : Clean P (.visit s n :: rest) ↔ P s n ∧ Clean P rest := by
  simp [Clean, Step.Visits]

@[simp] theorem report_cons {message : Text} : ¬Clean P (.report n message :: rest) := by
  simp [Clean, Step.Visits]

@[simp] theorem fail_cons {fault : Fault} : ¬Clean P (.fail fault :: rest) := by
  simp [Clean, Step.Visits]

@[simp] theorem part_cons {o : Option Node} :
    Clean P (.part s o :: rest) ↔ (∃ n, o = some n ∧ P s n) ∧ Clean P rest := by
  cases o <;> simp [Step.part]

@[simp] theorem append {first : List Step} :
    Clean P (first ++ rest) ↔ Clean P first ∧ Clean P rest := by
  simp [Clean, or_imp, forall_and]

@[simp] theorem map_visit {ns : List Node} :
    Clean P (ns.map (.visit s)) ↔ ∀ n ∈ ns, P s n := by
  simp [Clean, Step.Visits]

@[simp] theorem flatMap {α : Type} {l : List α} {f : α → List Step} :
    Clean P (l.flatMap f) ↔ ∀ a ∈ l, Clean P (f a) := by
  simp only [Clean, List.mem_flatMap]
  exact ⟨fun h a ha step hstep => h step ⟨a, ha, hstep⟩,
    fun h step ⟨a, ha, hstep⟩ => h a ha step hstep⟩

@[simp] theorem settled_ok {steps : List Step} : Clean P (settled (.ok steps)) ↔ Clean P steps :=
  .rfl

end Clean

theorem report_ne_nil (n : Node) (message : Text) : ctx.report n message ≠ .ok [] := by
  rw [Context.report]
  cases diagnostic ctx.source n message <;> simp [bind, Except.bind, pure, Except.pure]

/-- **Nothing is found if and only if all steps are visits that find nothing**, because a report is
never empty. -/
theorem perform_eq_nil_iff {steps : List Step} :
    perform ctx find steps = .ok [] ↔ Clean (fun s n => find s n = .ok []) steps := by
  induction steps with
  | nil => simp
  | cons step rest ih =>
    have hcons : perform ctx find (step :: rest) = .ok [] ↔
        step.result ctx find = .ok [] ∧ perform ctx find rest = .ok [] := by
      rw [perform_cons]
      cases step.result ctx find <;> cases perform ctx find rest <;>
        simp [bind, Except.bind, pure, Except.pure]
    rw [hcons, ih]
    cases step with
    | report n message => simp [Step.result, report_ne_nil]
    | visit s n => simp [Step.result]
    | fail fault => simp [Step.result]

end Perform

/-- The reports of parameters and the names that they bind are found in one pass; the names do not
depend on the reports. -/
theorem bindings_eq {ctx : Context} (find : Scope → Node → Except Fault (List Diagnostic))
    (ps : List Node) :
    bindings ctx ps =
      perform ctx find (ps.flatMap (parameterSteps ctx)) >>= fun ds =>
        pure (boundNames ctx ps, ds) := by
  induction ps with
  | nil => rfl
  | cons p ps ih =>
    rw [bindings, List.flatMap_cons, perform_append, ih]
    by_cases hp : p.kind = "identifier"
    · cases htext : ctx.text p with
      | error fault => simp [hp, htext, parameterSteps, Step.result, bind, Except.bind]
      | ok name =>
        simp [hp, htext, parameterSteps, boundNames, Except.toOption]
        rfl
    · simp [hp, parameterSteps, boundNames, Step.result, Context.unsupported]

/-- What a check of a node gives, for which `room` further levels of nesting may be looked into. At
the nesting limit no steps are visits. -/
def outcome (ctx : Context) : (room : Nat) → Scope → Node → Except Fault (List Diagnostic)
  | 0, s, n => perform ctx (fun _ _ => .ok []) (plan ctx s 0 n)
  | room + 1, s, n => perform ctx (outcome ctx room) (plan ctx s (room + 1) n)

section Outcome

variable {ctx : Context} {s : Scope} {n : Node}

/-- A rejected construct is reported as such at any level. -/
theorem outcome_of_rejected {room : Nat} {r : Rejection}
    (hkind : Rejection.ofKind? n.kind = some r) :
    outcome ctx room s n = ctx.report n r.message := by
  have hplan : plan ctx s room n = [.report n r.message] := by simp only [plan, hkind]
  cases room with
  | zero => rw [outcome, hplan, perform_singleton, Step.result]
  | succ room => rw [outcome, hplan, perform_singleton, Step.result]

/-- At the nesting limit, any other construct is reported for its level. -/
theorem outcome_at_limit (hkind : Rejection.ofKind? n.kind = none) :
    outcome ctx 0 s n = ctx.report n nestingMessage := by
  rw [outcome, plan, hkind, perform_singleton, Step.result]

end Outcome

/-! ### Accounts of checks -/

section Account

variable (m : Type → Type) [Monad m] [MonadExceptOf Fault m] [MonadLift (Except Fault) m]
  [MonadScope m]

/-- What is known of checks in a monad: how they end in a scope, which they leave as they found it.
The account covers tests of names that it admits. -/
structure Account where
  /-- The check ends in the scope with the outcome. -/
  Settles {α : Type} : m α → Scope → Except Fault α → Prop
  /-- The name that the node spells may be tested in the scope. -/
  Admits : Scope → Node → Text → Prop
  settles_pure {α : Type} (s : Scope) (a : α) : Settles (pure a) s (.ok a)
  settles_throw {α : Type} (s : Scope) (fault : Fault) :
    Settles (throw fault : m α) s (.error fault)
  settles_lift {α : Type} (s : Scope) (r : Except Fault α) : Settles (liftM r) s r
  settles_bind {α β : Type} {s : Scope} {c : m α} {f : α → m β} {r : Except Fault α}
    {g : α → Except Fault β} : Settles c s r → (∀ a, r = .ok a → Settles (f a) s (g a)) →
      Settles (c >>= f) s (r >>= g)
  settles_isBound {s : Scope} {n : Node} {name : Text} : Admits s n name →
    Settles (MonadScope.isBound n name) s (.ok (s.isBound name))
  settles_within {α : Type} {s : Scope} {c : m α} {names : List Text} {r : Except Fault α} :
    Settles c (s.enter names) r → Settles (MonadScope.within names c) s r

end Account

/-- The nodes whose names the rule of a form may test: a name that stands alone, a member of an
object literal that stands for itself, and the object of a member that is read or called. -/
inductive Form.Tests : Form → Node → Node → Prop
  | name {n : Node} : Form.Tests .identifier n n
  | shorthand {n c : Node} (h : c ∈ n.parts) (hk : c.kind = "shorthand_property_identifier") :
      Form.Tests .object n c
  | read {n object : Node} (h : n.child? .object = some object)
      (hk : object.unwrap.kind = "identifier") : Form.Tests .member n object.unwrap
  | called {n function object : Node} (hf : n.child? .function = some function)
      (hm : function.unwrap.kind = "member_expression")
      (h : function.unwrap.child? .object = some object)
      (hk : object.unwrap.kind = "identifier") : Form.Tests .call n object.unwrap

namespace Account

variable {m : Type → Type} [Monad m] [MonadExceptOf Fault m] [MonadLift (Except Fault) m]
  [MonadScope m]

/-- The name of the node may be tested in the scope, if it can be read. -/
def Covers (R : Account m) (ctx : Context) (s : Scope) (n : Node) : Prop :=
  ∀ name, ctx.text n = .ok name → R.Admits s n name

/-- The check carries out the steps, if visits end as `find` says. -/
def Carries (R : Account m) (ctx : Context) (sub : Node → m (List Diagnostic))
    (find : Scope → Node → Except Fault (List Diagnostic)) (s : Scope) (c : m (List Diagnostic))
    (steps : List Step) : Prop :=
  (∀ t n, .visit t n ∈ steps → R.Settles (sub n) t (find t n)) →
    R.Settles c s (perform ctx find steps)

variable {R : Account m} {ctx : Context} {sub : Node → m (List Diagnostic)}
  {find : Scope → Node → Except Fault (List Diagnostic)} {s : Scope} {n : Node}

theorem settles_bind_ok {α β : Type} {c : m α} {f : α → m β} {a : α} {r : Except Fault β}
    (hc : R.Settles c s (.ok a)) (hf : R.Settles (f a) s r) : R.Settles (c >>= f) s r := by
  have hbind : R.Settles (c >>= f) s (.ok a >>= fun _ => r) := by
    refine R.settles_bind hc fun b hb => ?_
    cases hb
    exact hf
  exact hbind

/-! ### Carrying out one step and several -/

namespace Carries

protected theorem nil : R.Carries ctx sub find s (pure []) [] := fun _ => R.settles_pure s []

protected theorem fail {fault : Fault} : R.Carries ctx sub find s (throw fault) [.fail fault] :=
  fun _ => R.settles_throw s fault

theorem report (n : Node) (message : Text) :
    R.Carries ctx sub find s (liftM (ctx.report n message)) [.report n message] := fun _ => by
  rw [perform_singleton]
  exact R.settles_lift s _

theorem visit (n : Node) : R.Carries ctx sub find s (sub n) [.visit s n] := fun hsub => by
  rw [perform_singleton]
  exact hsub s n (List.mem_singleton_self _)

protected theorem append {c d : m (List Diagnostic)} {first rest : List Step}
    (hc : R.Carries ctx sub find s c first) (hd : R.Carries ctx sub find s d rest) :
    R.Carries ctx sub find s (do let ds ← c; let es ← d; pure (ds ++ es)) (first ++ rest) := by
  intro hsub
  rw [perform_append]
  refine R.settles_bind (hc fun t n h => hsub t n (List.mem_append_left _ h)) fun ds _ => ?_
  refine R.settles_bind (hd fun t n h => hsub t n (List.mem_append_right _ h)) fun es _ => ?_
  exact R.settles_pure s _

/-- Steps that depend on something that may fail. -/
theorem settled_bind {α : Type} {c : m α} {k : α → m (List Diagnostic)} {x : Except Fault α}
    {f : α → Except Fault (List Step)} (hc : R.Settles c s x)
    (hk : ∀ a, x = .ok a → R.Carries ctx sub find s (k a) (settled (f a))) :
    R.Carries ctx sub find s (c >>= k) (settled (x >>= f)) := by
  intro hsub
  have hperform : perform ctx find (settled (x >>= f)) =
      x >>= fun a => perform ctx find (settled (f a)) := by
    cases x with
    | ok a => rfl
    | error fault => rfl
  rw [hperform]
  refine R.settles_bind hc fun a ha => hk a ha ?_
  subst ha
  exact hsub

theorem bind_ok {α : Type} {c : m α} {k : α → m (List Diagnostic)} {a : α} {steps : List Step}
    (hc : R.Settles c s (.ok a)) (hk : R.Carries ctx sub find s (k a) steps) :
    R.Carries ctx sub find s (c >>= k) steps := fun hsub => settles_bind_ok hc (hk hsub)

theorem each (ns : List Node) :
    R.Carries ctx sub find s (each sub ns) (ns.map (.visit s)) := by
  induction ns with
  | nil => exact .nil
  | cons n ns ih => exact .append (.visit n) ih

theorem part (o : Option Node) : R.Carries ctx sub find s (part sub o) [.part s o] := by
  cases o with
  | none => exact .fail
  | some n => exact .visit n

theorem parts (os : List (Option Node)) :
    R.Carries ctx sub find s (parts sub os) (os.map (.part s)) := by
  induction os with
  | nil => exact .nil
  | cons o os ih => exact .append (.part o) ih

end Carries

/-! ### Rules carry out their steps -/

theorem carries_identifierRule (h : R.Covers ctx s n) :
    R.Carries ctx sub find s (identifierRule ctx n) (nameSteps ctx s n) := by
  refine .settled_bind (R.settles_lift s _) fun name hname => ?_
  by_cases hsafe : name ∈ ctx.policy.safeIdentifiers
  · simp only [if_pos hsafe]
    exact .nil
  simp only [if_neg hsafe]
  refine .bind_ok (R.settles_isBound (h name hname)) ?_
  by_cases hbound : s.isBound name
  · simp only [if_pos hbound]
    exact .nil
  simp only [if_neg hbound]
  refine .settled_bind (R.settles_lift s _) fun accepted _ => ?_
  cases accepted with
  | true => exact .nil
  | false => exact .report n _

theorem carries_parenthesizedRule :
    R.Carries ctx sub find s (parenthesizedRule ctx sub n) (parenthesizedSteps s n) := by
  rw [parenthesizedRule, parenthesizedSteps]
  match n.parts with
  | [] => exact .report n _
  | [inner] => exact .visit inner
  | _ :: _ :: _ => exact .report n _

theorem carries_memberOfObject
    (h : n.kind = "shorthand_property_identifier" → R.Covers ctx s n) :
    R.Carries ctx sub find s (memberOfObject ctx sub n) (objectMemberSteps ctx s n) := by
  rw [memberOfObject, objectMemberSteps]
  by_cases hpair : n.kind = "pair"
  · simp only [if_pos hpair]
    cases n.child? .key with
    | none => exact .append .nil (.part _)
    | some key =>
      by_cases hkey : key.kind = "computed_property_name"
      · simp only [if_pos hkey]
        exact .append (.each key.parts) (.part _)
      · simp only [if_neg hkey]
        exact .append .nil (.part _)
  simp only [if_neg hpair]
  split
  case isTrue hshort => exact carries_identifierRule (h hshort)
  · exact .report n _

theorem carries_objectRule
    (h : ∀ c ∈ n.parts, c.kind = "shorthand_property_identifier" → R.Covers ctx s c) :
    R.Carries ctx sub find s (objectRule ctx sub n)
      (n.parts.flatMap (objectMemberSteps ctx s)) := by
  rw [objectRule]
  generalize n.parts = cs at h ⊢
  induction cs with
  | nil => exact .nil
  | cons c cs ih =>
    obtain ⟨hc, hcs⟩ := List.forall_mem_cons.mp h
    exact .append (carries_memberOfObject hc) (ih hcs)

theorem carries_unaryRule :
    R.Carries ctx sub find s (unaryRule ctx sub n) (unarySteps ctx s n) := by
  refine .settled_bind (R.settles_lift s _) fun operator _ => ?_
  rw [settled_pure]
  split
  · exact .part _
  · exact .report n _

theorem carries_binaryRule : R.Carries ctx sub find s (binaryRule sub n) (binarySteps s n) := by
  rw [binaryRule, binarySteps]
  cases n.operands with
  | none => exact .fail
  | some operands => exact .parts operands

/-- The object of a member is a name that is tested, if it is a name. -/
theorem settles_namespaceOf {object : Option Node}
    (h : ∀ o, object = some o → o.unwrap.kind = "identifier" → R.Covers ctx s o.unwrap) :
    R.Settles (namespaceOf ctx object) s (namespaceIn ctx s object) := by
  refine R.settles_bind (R.settles_lift s _) fun o ho => ?_
  by_cases hkind : o.unwrap.kind = "identifier"
  · simp only [if_pos hkind]
    refine R.settles_bind (R.settles_lift s _) fun name hname => ?_
    have hadmits : R.Admits s o.unwrap name := h o (need_eq_ok ho) hkind name hname
    exact settles_bind_ok (R.settles_isBound hadmits) (R.settles_pure s _)
  · simp only [if_neg hkind]
    exact R.settles_pure s _

/-- The part of a member that both ways of using it have in common, once its object is known to name
no namespace. -/
theorem carries_listed (object : Option Node) (property : Node) (name : Text)
    (listed : List Text) :
    R.Carries ctx sub find s (do
        let diagnostics ← part sub object
        if name ∈ listed then pure diagnostics
        else
          let own ← ctx.report property memberMessage
          pure (diagnostics ++ own))
      (.part s object :: if name ∈ listed then [] else [.report property memberMessage]) := by
  by_cases hname : name ∈ listed
  · simp only [if_pos hname]
    intro hsub
    have hpart : R.Settles (part sub object) s (perform ctx find [.part s object]) :=
      Carries.part object hsub
    rw [← bind_pure (perform ctx find _)]
    exact R.settles_bind hpart fun ds _ => R.settles_pure s ds
  · simp only [if_neg hname]
    exact .append (.part object) (.report property _)

theorem carries_memberRule
    (h : ∀ o, n.child? .object = some o → o.unwrap.kind = "identifier" → R.Covers ctx s o.unwrap) :
    R.Carries ctx sub find s (memberRule ctx sub n) (memberSteps ctx s n) := by
  rw [memberRule, memberSteps]
  by_cases hchain : n.hasOptionalChain
  · simp only [if_pos hchain]
    exact .report n _
  simp only [if_neg hchain]
  refine .settled_bind (R.settles_lift s _) fun accepted _ => ?_
  cases accepted with
  | true => exact .nil
  | false =>
    refine .settled_bind (R.settles_lift s _) fun property _ =>
      .settled_bind (R.settles_lift s _) fun name _ =>
        .settled_bind (settles_namespaceOf h) fun ns _ => ?_
    cases ns with
    | none => exact carries_listed _ property name _
    | some ns =>
      simp only [settled_pure, readable, decide_eq_true_eq]
      split
      · exact .nil
      · exact .report property _

theorem carries_methodRule
    (h : ∀ o, n.child? .object = some o → o.unwrap.kind = "identifier" → R.Covers ctx s o.unwrap) :
    R.Carries ctx sub find s (methodRule ctx sub n) (methodSteps ctx s n) := by
  rw [methodRule, methodSteps]
  by_cases hchain : n.hasOptionalChain
  · simp only [if_pos hchain]
    exact .report n _
  simp only [if_neg hchain]
  refine .settled_bind (R.settles_lift s _) fun property _ =>
    .settled_bind (R.settles_lift s _) fun name _ =>
      .settled_bind (settles_namespaceOf h) fun ns _ => ?_
  cases ns with
  | none => exact carries_listed _ property name _
  | some ns =>
    dsimp only [settled_pure]
    split
    · exact .nil
    · exact .report property _

theorem carries_argumentsRule :
    R.Carries ctx sub find s (argumentsRule sub n) (argumentSteps s n) := by
  refine .settled_bind (R.settles_lift s _) fun arguments _ => ?_
  rw [settled_pure]
  split
  · exact .each arguments.parts
  · exact .visit arguments

theorem carries_callRule (h : ∀ q, Form.Tests .call n q → R.Covers ctx s q) :
    R.Carries ctx sub find s (callRule ctx sub n) (callSteps ctx s n) := by
  rw [callRule, callSteps]
  by_cases hchain : n.hasOptionalChain
  · simp only [if_pos hchain]
    exact .report n _
  simp only [if_neg hchain]
  refine .settled_bind (R.settles_lift s _) fun function hfunction => ?_
  rw [settled_pure]
  split
  · exact .report n _
  split
  case isTrue hmember =>
    refine .append (carries_methodRule fun o ho hk => ?_) carries_argumentsRule
    exact h _ (.called (need_eq_ok hfunction) hmember ho hk)
  split
  · exact .append (.report _ _) carries_argumentsRule
  · exact .report n _

theorem carries_functionRule :
    R.Carries ctx sub find s (functionRule ctx sub n) (functionSteps ctx s n) := by
  refine .settled_bind (R.settles_lift s _) fun ps _ hsub => ?_
  rw [settled_pure, perform_append]
  have hbindings (r : Except Fault (List Text × List Diagnostic)) (hr : bindings ctx ps = r) :
      R.Settles (liftM (bindings ctx ps)) s r := by
    subst hr
    exact R.settles_lift s _
  have hbody : R.Settles (part sub (n.child? .body)) (s.enter (boundNames ctx ps))
      (perform ctx find [.part (s.enter (boundNames ctx ps)) (n.child? .body)]) :=
    Carries.part _ fun t c h => hsub t c (List.mem_append_right _ h)
  cases hreports : perform ctx find (ps.flatMap (parameterSteps ctx)) with
  | error fault =>
    have hfails := hbindings (.error fault) (by rw [bindings_eq find, hreports]; rfl)
    exact R.settles_bind (g := fun _ => .error fault) hfails fun _ hnone => by cases hnone
  | ok ds =>
    have hnames := hbindings (.ok (boundNames ctx ps, ds)) (by rw [bindings_eq find, hreports]; rfl)
    exact settles_bind_ok hnames (R.settles_bind (g := fun body => pure (ds ++ body))
      (R.settles_within hbody) fun body _ => R.settles_pure s _)

/-- **A rule carries out its steps** and restores the scope, if the names that it tests may be
tested. -/
theorem carries_rule {form : Form} (h : ∀ q, form.Tests n q → R.Covers ctx s q) :
    R.Carries ctx sub find s (rule ctx sub form n) (steps ctx s form n) := by
  cases form with
  | sequence => exact .each n.parts
  | literal => exact .nil
  | template => exact .each (substitutions n)
  | identifier => exact carries_identifierRule (h n .name)
  | parenthesized => exact carries_parenthesizedRule
  | object => exact carries_objectRule fun c hc hk => h c (.shorthand hc hk)
  | unary => exact carries_unaryRule
  | binary => exact carries_binaryRule
  | ternary => exact .parts _
  | member => exact carries_memberRule fun o ho hk => h _ (.read ho hk)
  | subscript => exact .report n _
  | call => exact carries_callRule h
  | function => exact carries_functionRule

end Account

/-! ### Checks that leave the scope as it is -/

/-- The check ends with the outcome `r` and leaves the scope as it found it. -/
def Settles {α : Type} (c : Checked α) (s : Scope) (r : Except Fault α) : Prop :=
  c.run s = (r, s)

/-- What is known of the checker itself, for all tests of names. -/
def Checked.account : Account Checked where
  Settles := Settles
  Admits _ _ _ := True
  settles_pure _ _ := rfl
  settles_throw _ _ := rfl
  settles_lift _ _ := rfl
  settles_bind {_ _ s c _ r _} hc hf := by
    have hc : c.run s = (r, s) := hc
    rw [Settles, ExceptT.run_bind]
    simp only [bind, StateT.bind, hc]
    cases r with
    | ok a => exact hf a rfl
    | error e => rfl
  settles_isBound _ := rfl
  settles_within {_ s c names r} hc := by
    -- The frame that is opened around an action is closed again.
    have hc : c.run (s.enter names) = (r, s.enter names) := hc
    change Scope.leave Fault.scope (c.run (s.enter names)).1 (c.run (s.enter names)).2 = (r, s)
    rw [hc]
    rfl

section Rules

variable {ctx : Context} {sub : Node → Checked (List Diagnostic)}
  {find : Scope → Node → Except Fault (List Diagnostic)}
  (hsub : ∀ s n, Settles (sub n) s (find s n)) (s : Scope)

theorem settles_report (n : Node) (message : Text) :
    Settles (liftM (ctx.report n message)) s (perform ctx find [.report n message]) := by
  rw [perform_singleton]
  exact Checked.account.settles_lift s _

include hsub

theorem settles_parts (ns : List (Option Node)) :
    Settles (parts sub ns) s (perform ctx find (ns.map (.part s))) :=
  Account.Carries.parts (R := Checked.account) ns fun t c _ => hsub t c

theorem settles_rule (form : Form) (n : Node) :
    Settles (rule ctx sub form n) s (perform ctx find (steps ctx s form n)) :=
  Account.carries_rule (R := Checked.account) (fun _ _ _ _ => trivial) fun t c _ => hsub t c

end Rules

/-! ### The whole walk -/

theorem settles_walk (ctx : Context) (room : Nat) (s : Scope) (n : Node) :
    Settles (walk ctx room n) s (outcome ctx room s n) := by
  induction room generalizing s n with
  | zero =>
    rw [walk, outcome, plan]
    cases Rejection.ofKind? n.kind with
    | some r => exact settles_report s n _
    | none => exact settles_report s n _
  | succ room ih =>
    rw [walk, outcome, plan]
    cases Rejection.ofKind? n.kind with
    | some r => exact settles_report s n _
    | none =>
      cases Form.ofKind? n.kind with
      | some form => exact settles_rule ih s form n
      | none => exact settles_report s n _

/-- **A check gives its outcome and restores the scope**, also when it fails. -/
theorem validate_eq (ctx : Context) (n : Node) (s : Scope) :
    validate ctx n s = (outcome ctx ctx.policy.maxDepth s n, s) :=
  settles_walk ctx ctx.policy.maxDepth s n

end ScriptGate.Check
