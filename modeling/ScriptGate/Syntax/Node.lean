/-!
# Syntax trees

A script's syntax tree: nodes with a kind, a span of bytes in the script and children. Some children
carry the name of the part that they play in their parent, and tokens such as `+` are children that
are not named. A node may be an error region or stand for a token that is missing in the script.

## Main definitions

* `Field`, `Node`: the parts that children play, and the trees.
* `Node.child?`, `Node.namedChildren`, `Node.operands`: reading a node.
* `Node.unwrap`: an expression without the parentheses around it.
* `Node.named`: a node and all that is below it, through named children.
* `Node.errorRegions`: the outermost error regions and missing tokens.
-/

namespace ScriptGate

/-- The part that a child plays in its parent. -/
inductive Field where
  | operator
  | argument
  | left
  | right
  | condition
  | consequence
  | alternative
  | object
  | property
  | function
  | arguments
  | parameter
  | parameters
  | body
  | key
  | value
  deriving DecidableEq, Repr

namespace Field

/-- The name of a part. -/
def name : Field → String
  | operator => "operator"
  | argument => "argument"
  | left => "left"
  | right => "right"
  | condition => "condition"
  | consequence => "consequence"
  | alternative => "alternative"
  | object => "object"
  | property => "property"
  | function => "function"
  | arguments => "arguments"
  | parameter => "parameter"
  | parameters => "parameters"
  | body => "body"
  | key => "key"
  | value => "value"

/-- Every part that the checker reads. -/
def all : List Field :=
  [operator, argument, left, right, condition, consequence, alternative, object, property, function,
   arguments, parameter, parameters, body, key, value]

/-- The part of a given name. -/
def ofName? (s : String) : Option Field := all.find? fun f => f.name = s

end Field

/-- A node of a syntax tree. It covers the bytes from `start` up to, but not including, `stop`. The
flags say whether it is a token of its own or a named construct, an error region, a missing token,
and whether an error is somewhere below it. -/
structure Node where
  kind : String
  start : Nat
  stop : Nat
  isNamed : Bool
  isError : Bool
  isMissing : Bool
  hasError : Bool
  field : Option Field
  children : List Node
  deriving Repr, Inhabited

namespace Node

/-- The first child that plays the given part. -/
def child? (n : Node) (f : Field) : Option Node := n.children.find? fun c => c.field = some f

/-- The children that are constructs, not mere tokens. -/
def namedChildren (n : Node) : List Node := n.children.filter (·.isNamed)

/-- The kinds of comments, which the checker passes over. -/
def ignoredKinds : List String := ["comment", "hash_bang_line"]

/-- The named children that are not comments. -/
def parts (n : Node) : List Node := n.namedChildren.filter fun c => c.kind ∉ ignoredKinds

/-- An optional chain `?.` is a direct child. -/
def hasOptionalChain (n : Node) : Bool := n.children.any fun c => c.kind = "optional_chain"

/-! ### Parentheses -/

/-- A child that counts as the content of parentheses. -/
def isContent (n : Node) : Bool := n.isNamed && n.kind ≠ "comment"

mutual

/-- The expression inside any number of parentheses. Parentheses with no content or more than one
are left as they are. -/
def unwrap (n : Node) : Node :=
  match n with
  | ⟨kind, _, _, _, _, _, _, _, children⟩ =>
    if kind = "parenthesized_expression" then (unwrapSole children).getD n else n

/-- The only content among the children of parentheses, unwrapped. -/
def unwrapSole : List Node → Option Node
  | [] => none
  | c :: rest =>
    if c.isContent then (if rest.any isContent then none else some c.unwrap) else unwrapSole rest

end

/-! ### Operator chains -/

mutual

/-- The operands of a chain of binary operators nested to the left, from left to right; `none` for
an operand that is absent. A chain with no left end has no operands. -/
def operands (n : Node) : Option (List (Option Node)) :=
  match n with
  | ⟨kind, _, _, _, _, _, _, _, children⟩ =>
    if kind = "binary_expression" then
      (leftOperands children).map (· ++ [n.child? .right])
    else some [some n]

/-- The operands of the left part among the children of a chain. -/
def leftOperands : List Node → Option (List (Option Node))
  | [] => none
  | c :: rest => if c.field = some .left then c.operands else leftOperands rest

end

/-! ### Walking the whole tree -/

mutual

/-- A node and all nodes reached from it through named children, each before those below it. -/
def named (n : Node) : List Node :=
  match n with
  | ⟨_, _, _, _, _, _, _, _, children⟩ => n :: namedAll children

/-- The named nodes of a list and those below them. -/
def namedAll : List Node → List Node
  | [] => []
  | c :: rest => if c.isNamed then c.named ++ namedAll rest else namedAll rest

end

mutual

/-- The outermost error regions and missing tokens, in source order. Below a node without an error
none are looked for. -/
def errorRegions (n : Node) : List Node :=
  match n with
  | ⟨_, _, _, _, isError, isMissing, _, _, children⟩ =>
    if isError || isMissing then [n] else errorRegionsAll children

/-- The outermost error regions and missing tokens of the nodes of a list. -/
def errorRegionsAll : List Node → List Node
  | [] => []
  | c :: rest =>
    if c.hasError || c.isMissing then c.errorRegions ++ errorRegionsAll rest
    else errorRegionsAll rest

end

/-- The node reached by going down through the named children at the given places. -/
def descend? (n : Node) : (path : List Nat) → Option Node
  | [] => some n
  | i :: path =>
    match n.namedChildren[i]? with
    | some c => c.descend? path
    | none => none

end Node

end ScriptGate
