import ScriptGate.Syntax.Node

/-!
# Patterns

What may stand on the left of an assignment or among parameters is read as an expression first,
since only what follows tells which of the two it is. This module says which expressions can be so
reread.

## Main definitions

* `Ecma.isTarget`: an expression that can be reread as a pattern.
* `Ecma.toPattern?`: the pattern.
* `Ecma.toAssignable?`: what an assignment or a loop gives values to.
* `Ecma.isPatternOnly`: an object or array that is no expression.
-/

namespace ScriptGate.Ecma

/-- Kinds that are patterns as they stand. -/
def simpleTargets : List String :=
  ["identifier", "undefined", "member_expression", "subscript_expression",
   "shorthand_property_identifier", "object_assignment_pattern", "rest_pattern", "comment"]

/-- Kinds that are patterns if all that they contain is. -/
def compoundTargets : List String := ["object", "object_pattern", "array", "array_pattern"]

mutual

/-- The expression can be reread as a pattern. -/
def isTarget (n : Node) : Bool :=
  match n with
  | ⟨kind, _, _, _, _, _, _, _, children⟩ =>
    if kind ∈ simpleTargets then true
    else if kind ∈ compoundTargets then areTargets children
    else if kind = "spread_element" then areRestTargets children
    else if kind = "pair" then partIsTarget .value children
    else if kind = "assignment_expression" then partIsTarget .left children
    else false

/-- All expressions can be reread as patterns. -/
def areTargets : List Node → Bool
  | [] => true
  | n :: ns => isTarget n && areTargets ns

/-- All expressions can be reread as patterns that take what is left, which have no default. -/
def areRestTargets : List Node → Bool
  | [] => true
  | n :: ns => n.kind ≠ "assignment_expression" && isTarget n && areRestTargets ns

/-- The child that plays the given part can be reread as a pattern. -/
def partIsTarget (f : Field) : List Node → Bool
  | [] => false
  | n :: ns => if n.field = some f then isTarget n else partIsTarget f ns

end

/-- The kind of pattern that an expression becomes. -/
def patternKind : String → String
  | "object" => "object_pattern"
  | "array" => "array_pattern"
  | "assignment_expression" => "assignment_pattern"
  | "spread_element" => "rest_pattern"
  | kind => kind

/-- The expression as a pattern, if it can be one. -/
def toPattern? (n : Node) : Option Node :=
  if isTarget n then some { n with kind := patternKind n.kind } else none

/-- Kinds that may be assigned to. -/
def assignable : List String :=
  ["identifier", "undefined", "member_expression", "subscript_expression", "object", "array",
   "object_pattern", "array_pattern"]

/-- The expression as what an assignment or a loop gives values to, if it can be that. Parentheses
stay as they are. -/
def toAssignable? (n : Node) : Option Node :=
  if n.kind = "parenthesized_expression" then some n
  else if n.kind ∈ assignable then toPattern? n
  else none

/-- An object or array that can only be a pattern. -/
def isPatternOnly (n : Node) : Bool := n.kind = "object_pattern" || n.kind = "array_pattern"

/-- A member or element that makes its object or array a pattern. -/
def forcesPattern (n : Node) : Bool :=
  n.kind = "object_assignment_pattern" || isPatternOnly n ||
    ((n.kind = "pair" || n.kind = "spread_element") && n.children.any isPatternOnly)

end ScriptGate.Ecma
