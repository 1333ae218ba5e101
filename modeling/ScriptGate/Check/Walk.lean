import ScriptGate.Check.Message
import ScriptGate.Diagnostic
import ScriptGate.Policy.Basic
import ScriptGate.Scope.Basic

/-!
# The checker

A walk over a syntax tree that reports whatever the policy does not allow. Every kind of node has
one form, and every form one rule; a kind without a form is reported as unsupported, so that nothing
is accepted by default. A node that is itself a violation is reported once and not looked into; its
siblings still are.

## Main definitions

* `Check.Fault`: why a walk can fail on a tree that is not shaped as its kinds say.
* `Check.Context`: the script, the policy and the expressions that are accepted as they stand.
* `Check.MonadScope`: what a rule asks of the scope that it runs in.
* `Check.Form`: the constructs that the checker knows.
* `Check.rule`: what is checked of a form, given a checker for what it contains.
* `Check.walk`: the checker; `Check.validate`: the diagnostics of a node.
-/

namespace ScriptGate.Check

/-! ### Faults -/

/-- What a rule asks of a part of a node. -/
inductive Aspect where
  | kind
  | children
  | place
  deriving DecidableEq, Repr

/-- Why a check cannot be carried out. -/
inductive Fault where
  /-- A part is absent that a rule looks at. -/
  | absent (asked : Aspect)
  /-- A byte offset stands inside a character. -/
  | undecodable (e : Utf8.DecodeError)
  /-- The script holds a lone surrogate. -/
  | unencodable (e : Utf8.EncodeError)
  /-- More frames were closed than opened. -/
  | scope (e : ScopeError)
  deriving DecidableEq, Repr

/-- The name of what is asked of a part. -/
def Aspect.name : Aspect → String
  | kind => "type"
  | children => "named_children"
  | place => "start_byte"

/-- The wording of a fault. -/
def Fault.message : Fault → Text
  | absent asked => ("'NoneType' object has no attribute '" ++ asked.name ++ "'" : String)
  | undecodable e => e.message
  | unencodable e => e.message
  | scope e => e.message

/-! ### The context of a check -/

/-- What stays the same during a check: the script, the expressions that are accepted wherever they
are written in just these characters, and the policy. -/
structure Context where
  source : Source
  allowed : List Text
  policy : Policy

/-- A check: it reads and changes the scope, and the scope outlives a fault. -/
abbrev Checked := ExceptT Fault (StateM Scope)

/-- Part of a check that does not touch the scope. -/
def ofSource {α : Type} (r : Except Utf8.DecodeError α) : Except Fault α :=
  r.mapError Fault.undecodable

/-- A diagnostic over a node. -/
def diagnostic (s : Source) (n : Node) (message : Text) : Except Fault Diagnostic := do
  let (start, stop) ← ofSource (s.span n)
  pure ⟨start, stop, message⟩

namespace Context

variable (ctx : Context)

/-- The text that a node covers. -/
def text (n : Node) : Except Fault Text := ofSource (ctx.source.text n)

/-- The report of a node alone. -/
def report (n : Node) (message : Text) : Except Fault (List Diagnostic) := do
  let d ← diagnostic ctx.source n message
  pure [d]

/-- The report of a construct that has no rule. -/
def unsupported (n : Node) (kind : Text) : Except Fault (List Diagnostic) :=
  ctx.report n (unsupportedTemplate.fill kind)

/-- The node, without the parentheses around it, is written as one of the accepted expressions. -/
def accepts (n : Node) : Except Fault Bool :=
  if ctx.allowed.isEmpty then pure false
  else do
    let t ← ctx.text n.unwrap
    pure (t ∈ ctx.allowed)

/-- The name is bound by a parameter. -/
def isBound (name : Text) : Checked Bool := do
  let scope ← get
  pure (scope.isBound name)

end Context

/-- What a rule asks of the scope that it runs in: whether the name that a node spells is bound, and
to carry out an action inside a frame of names. -/
class MonadScope (m : Type → Type) where
  isBound (n : Node) (name : Text) : m Bool
  within {α : Type} (names : List Text) (act : m α) : m α

instance : MonadScope Checked where
  isBound _ name := Context.isBound name
  within names act := Scope.within Fault.scope names act

/-! ### Forms -/

/-- The constructs that the checker has a rule for. -/
inductive Form where
  | sequence
  | literal
  | template
  | identifier
  | parenthesized
  | object
  | unary
  | binary
  | ternary
  | member
  | subscript
  | call
  | function
  deriving DecidableEq, Repr

/-- Statements that may stand beside the program itself. -/
def statementKinds : List String := ["expression_statement", "return_statement", "statement_block"]

/-- Constants, which hold nothing to check. -/
def literalKinds : List String :=
  ["number", "string", "regex", "true", "false", "null", "undefined"]

/-- Functions, whose parameters are bound in their bodies. -/
def functionKinds : List String := ["function_expression", "function", "arrow_function"]

/-- The form of a kind of node. -/
def Form.ofKind? (kind : String) : Option Form :=
  if kind ∈ functionKinds then some function
  else if kind ∈ literalKinds then some literal
  else if kind ∈ statementKinds then some sequence
  else match kind with
    | "program" | "array" => some sequence
    | "template_string" => some template
    | "identifier" => some identifier
    | "parenthesized_expression" => some parenthesized
    | "object" => some object
    | "unary_expression" => some unary
    | "binary_expression" => some binary
    | "ternary_expression" => some ternary
    | "member_expression" => some member
    | "subscript_expression" => some subscript
    | "call_expression" => some call
    | _ => none

/-! ### Rules -/

section Rules

variable {m : Type → Type} [Monad m] [MonadExceptOf Fault m] [MonadLift (Except Fault) m]
  [MonadScope m] (ctx : Context) (sub : Node → m (List Diagnostic))

/-- Checks nodes one after the other. -/
def each : List Node → m (List Diagnostic)
  | [] => pure []
  | n :: ns => do
    let first ← sub n
    let rest ← each ns
    pure (first ++ rest)

/-- Checks a part of a node, which has to be there. -/
def part : Option Node → m (List Diagnostic)
  | some n => sub n
  | none => throw (.absent .kind)

/-- Checks parts one after the other. -/
def parts : List (Option Node) → m (List Diagnostic)
  | [] => pure []
  | n :: ns => do
    let first ← part sub n
    let rest ← parts ns
    pure (first ++ rest)

/-- A part that a rule looks at. -/
def need (asked : Aspect) : Option Node → Except Fault Node
  | some n => pure n
  | none => throw (.absent asked)

/-- A template literal: the expressions of its substitutions. -/
def templateRule (n : Node) : m (List Diagnostic) :=
  each sub ((n.namedChildren.filter fun c => c.kind = "template_substitution").flatMap (·.parts))

/-- A name: listed by the policy, bound by a parameter or accepted as it is written. -/
def identifierRule (n : Node) : m (List Diagnostic) := do
  let name ← ctx.text n
  if name ∈ ctx.policy.safeIdentifiers then pure []
  else if ← MonadScope.isBound n name then pure []
  else if ← ctx.accepts n then pure []
  else ctx.report n (identifierTemplate.fill name)

/-- Parentheses around exactly one expression. -/
def parenthesizedRule (n : Node) : m (List Diagnostic) :=
  match n.parts with
  | [inner] => sub inner
  | _ => ctx.unsupported n n.kind

/-- A member of an object literal: a pair, whose key is checked if it is computed, or a name that
stands for itself. -/
def memberOfObject (n : Node) : m (List Diagnostic) := do
  if n.kind = "pair" then
    let keys ← match n.child? .key with
      | some key => if key.kind = "computed_property_name" then each sub key.parts else pure []
      | none => pure []
    let value ← part sub (n.child? .value)
    pure (keys ++ value)
  else if n.kind = "shorthand_property_identifier" then identifierRule ctx n
  else ctx.unsupported n n.kind

/-- An object literal: its members one after the other. -/
def objectRule (n : Node) : m (List Diagnostic) := each (memberOfObject ctx sub) n.parts

/-- An operator with one operand: the operator has to be listed by the policy. -/
def unaryRule (n : Node) : m (List Diagnostic) := do
  let operator ← need .kind (n.child? .operator)
  if Text.ofString operator.kind ∈ ctx.policy.unaryOperators then part sub (n.child? .argument)
  else ctx.report n (operatorTemplate.fill operator.kind)

/-- A chain of binary operators: its operands, which count as one level of nesting. -/
def binaryRule (n : Node) : m (List Diagnostic) :=
  match n.operands with
  | some operands => parts sub operands
  | none => throw (.absent .kind)

/-- A conditional expression: its three parts. -/
def ternaryRule (n : Node) : m (List Diagnostic) :=
  parts sub [n.child? .condition, n.child? .consequence, n.child? .alternative]

/-- The safe namespace that an expression names, if it is one that no parameter hides. -/
def namespaceOf (object : Option Node) : m (Option Text) := do
  let object ← need .kind object
  let inner := object.unwrap
  if inner.kind = "identifier" then
    let name ← ctx.text inner
    let bound ← MonadScope.isBound inner name
    pure (if name ≠ [] ∧ name ∈ ctx.policy.safeNamespaces ∧ !bound then some name else none)
  else pure none

/-- A member that is read: accepted as it is written, a constant of a namespace, or a property of a
value that is itself checked. -/
def memberRule (n : Node) : m (List Diagnostic) := do
  if n.hasOptionalChain then ctx.unsupported n "optional chaining"
  else if ← ctx.accepts n then pure []
  else
    let object := n.child? .object
    let property ← need .place (n.child? .property)
    let name ← ctx.text property
    let ns ← namespaceOf ctx object
    match ns with
    | some ns =>
      if ctx.policy.isStaticProperty ns name ∨ name ∈ ctx.policy.instanceProperties then pure []
      else ctx.report property memberMessage
    | none =>
      let diagnostics ← part sub object
      if name ∈ ctx.policy.instanceProperties then pure diagnostics
      else
        let own ← ctx.report property memberMessage
        pure (diagnostics ++ own)

/-- A member that is called: a method of a namespace, or of a value that is itself checked. -/
def methodRule (callee : Node) : m (List Diagnostic) := do
  if callee.hasOptionalChain then ctx.unsupported callee "optional chaining"
  else
    let object := callee.child? .object
    let property ← need .place (callee.child? .property)
    let name ← ctx.text property
    let ns ← namespaceOf ctx object
    match ns with
    | some ns =>
      if ctx.policy.isNamespaceMethod ns name then pure []
      else ctx.report property memberMessage
    | none =>
      let diagnostics ← part sub object
      if name ∈ ctx.policy.instanceMethods then pure diagnostics
      else
        let own ← ctx.report property memberMessage
        pure (diagnostics ++ own)

/-- A member looked up by a computed name. -/
def subscriptRule (n : Node) : m (List Diagnostic) := ctx.report n computedMemberMessage

/-- The arguments of a call, or the template literal that stands in their place. -/
def argumentsRule (n : Node) : m (List Diagnostic) := do
  let arguments ← need .kind (n.child? .arguments)
  if arguments.kind = "arguments" then each sub arguments.parts else sub arguments

/-- A call: only members can be called. -/
def callRule (n : Node) : m (List Diagnostic) := do
  if n.hasOptionalChain then ctx.unsupported n "optional chaining"
  else
    let function ← need .kind (n.child? .function)
    let callee := function.unwrap
    if callee.kind = "identifier" then ctx.report n globalCallMessage
    else if callee.kind = "member_expression" then
      let diagnostics ← methodRule ctx sub callee
      let rest ← argumentsRule sub n
      pure (diagnostics ++ rest)
    else if callee.kind = "subscript_expression" then
      let diagnostics ← subscriptRule ctx callee
      let rest ← argumentsRule sub n
      pure (diagnostics ++ rest)
    else ctx.unsupported n ("call of " ++ callee.kind : String)

/-- The parameters of a function: a single one, or those of its list. -/
def parametersOf (n : Node) : Except Fault (List Node) :=
  match n.child? .parameter with
  | some p => pure [p]
  | none => do
    let list ← need .children (n.child? .parameters)
    pure list.parts

/-- The names that parameters bind, and the report of parameters that are more than a name. -/
def bindings : List Node → Except Fault (List Text × List Diagnostic)
  | [] => pure ([], [])
  | p :: ps =>
    if p.kind = "identifier" then do
      let name ← ctx.text p
      let (names, diagnostics) ← bindings ps
      pure (name :: names, diagnostics)
    else do
      let own ← ctx.unsupported p p.kind
      let (names, diagnostics) ← bindings ps
      pure (names, own ++ diagnostics)

/-- A function: its body, in which its parameters are bound. -/
def functionRule (n : Node) : m (List Diagnostic) := do
  let parameters ← parametersOf n
  let (names, diagnostics) ← bindings ctx parameters
  let body ← MonadScope.within names (part sub (n.child? .body))
  pure (diagnostics ++ body)

/-- What is checked of a form. -/
def rule (form : Form) (n : Node) : m (List Diagnostic) :=
  match form with
  | .sequence => each sub n.parts
  | .literal => pure []
  | .template => templateRule sub n
  | .identifier => identifierRule ctx n
  | .parenthesized => parenthesizedRule ctx sub n
  | .object => objectRule ctx sub n
  | .unary => unaryRule ctx sub n
  | .binary => binaryRule sub n
  | .ternary => ternaryRule sub n
  | .member => memberRule ctx sub n
  | .subscript => subscriptRule ctx n
  | .call => callRule ctx sub n
  | .function => functionRule ctx sub n

end Rules

/-! ### The walk -/

/-- Checks a node for which `room` further levels of nesting may be looked into. Constructs that no
policy allows are reported as such at any level. -/
def walk (ctx : Context) : (room : Nat) → Node → Checked (List Diagnostic)
  | 0, n =>
    match Rejection.ofKind? n.kind with
    | some r => ctx.report n r.message
    | none => ctx.report n nestingMessage
  | room + 1, n =>
    match Rejection.ofKind? n.kind with
    | some r => ctx.report n r.message
    | none =>
      match Form.ofKind? n.kind with
      | some form => rule ctx (walk ctx room) form n
      | none => ctx.unsupported n n.kind

/-- The diagnostics of a node, in the order in which they are found, and the scope afterwards. -/
def validate (ctx : Context) (n : Node) (scope : Scope) : Except Fault (List Diagnostic) × Scope :=
  (walk ctx ctx.policy.maxDepth n).run scope

end ScriptGate.Check
