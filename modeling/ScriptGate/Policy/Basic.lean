import ScriptGate.Source.Basic

/-!
# Policies

What a script may contain. A policy lists names and operators that are allowed; all else is
rejected.

## Main definitions

* `Policy`: the allow-lists, the unit of offsets and the nesting limit.
* `Policy.isStaticProperty`, `Policy.isNamespaceMethod`: what may be read from and called on a
  namespace.
* `Policy.standard`: the policy that holds unless another is given.
* `Rejection`: the constructs that no policy allows.
-/

namespace ScriptGate

/-- Lists of names, each under a name of its own. -/
abbrev NameTable := List (Text × List Text)

/-- The names listed under a name; none if it is not in the table. -/
def NameTable.get (t : NameTable) (name : Text) : List Text := (t.lookup name).getD []

/-- What a script may contain. -/
structure Policy where
  /-- Names that may stand alone. -/
  safeIdentifiers : List Text
  /-- Global objects whose members are trusted. -/
  safeNamespaces : List Text
  /-- Constants of a namespace. -/
  staticProperties : NameTable
  /-- Methods of ordinary values. -/
  instanceMethods : List Text
  /-- Properties of ordinary values. -/
  instanceProperties : List Text
  /-- Operators with one operand. -/
  unaryOperators : List Text
  /-- Methods of a namespace; `none` trusts every method of every safe namespace. -/
  namespaceMethods : Option NameTable
  /-- What offsets in diagnostics count. -/
  offsetUnit : OffsetUnit
  /-- How many levels of nesting are looked into. -/
  maxDepth : Nat
  maxDepth_pos : 1 ≤ maxDepth

namespace Policy

/-- `ns.name` may be read as a constant. -/
def isStaticProperty (p : Policy) (ns name : Text) : Bool := name ∈ p.staticProperties.get ns

/-- `ns.name(…)` may be called. -/
def isNamespaceMethod (p : Policy) (ns name : Text) : Bool :=
  match p.namespaceMethods with
  | none => true
  | some table => name ∈ table.get ns

/-! ### The standard policy -/

/-- Names that may always stand alone. -/
def standardIdentifiers : List Text := Text.ofStrings ["NaN", "undefined", "Infinity"]

/-- Global objects that are trusted. -/
def standardNamespaces : List Text :=
  Text.ofStrings ["Math", "Number", "Date", "Object", "QlarrScripts"]

/-- Constants of the trusted objects. -/
def standardStaticProperties : NameTable :=
  [("Math", Text.ofStrings ["E", "LN2", "LN10", "LOG2E", "LOG10E", "PI", "SQRT1_2", "SQRT2"]),
   ("Number", Text.ofStrings ["EPSILON", "MAX_SAFE_INTEGER", "MAX_VALUE", "MIN_SAFE_INTEGER",
     "MIN_VALUE", "NaN", "NEGATIVE_INFINITY", "POSITIVE_INFINITY"])]

/-- Methods of arrays, strings and numbers that change nothing. -/
def standardMethods : List Text := Text.ofStrings
  ["filter", "map", "some", "every", "find", "findIndex", "findLast", "findLastIndex", "reduce",
   "reduceRight", "flat", "flatMap", "includes", "indexOf", "lastIndexOf", "join", "slice",
   "concat", "at", "charAt", "charCodeAt", "codePointAt", "startsWith", "endsWith", "substring",
   "toLowerCase", "toUpperCase", "trim", "trimStart", "trimEnd", "padStart", "padEnd", "split",
   "repeat", "localeCompare", "toFixed", "toPrecision", "toString", "length"]

/-- The only property of ordinary values that may be read. -/
def standardProperties : List Text := Text.ofStrings ["length"]

/-- Operators with one operand that change nothing. -/
def standardOperators : List Text := Text.ofStrings ["-", "+", "!", "~", "typeof"]

/-- The standard nesting limit. -/
def standardDepth : Nat := 100

/-- The policy that holds unless another is given. -/
def standard : Policy where
  safeIdentifiers := standardIdentifiers
  safeNamespaces := standardNamespaces
  staticProperties := standardStaticProperties
  instanceMethods := standardMethods
  instanceProperties := standardProperties
  unaryOperators := standardOperators
  namespaceMethods := none
  offsetUnit := .utf16
  maxDepth := standardDepth
  maxDepth_pos := by decide

end Policy

/-! ### Constructs that no policy allows -/

/-- A construct that is rejected wherever it stands. -/
inductive Rejection where
  | ifStatement
  | loop
  | variableDeclaration
  | functionDeclaration
  | assignment
  | update
  deriving DecidableEq, Repr

namespace Rejection

/-- The wording of a rejection. -/
def message : Rejection → String
  | ifStatement => "If statements are not allowed"
  | loop => "Loops are not allowed"
  | variableDeclaration => "Variable Declarations are not allowed"
  | functionDeclaration => "Function Declarations are not allowed"
  | assignment => "Assignments are not allowed"
  | update => "Update Expressions are not allowed"

/-- The kinds of nodes that are rejected, and what they are. -/
def table : List (String × Rejection) :=
  [("if_statement", ifStatement),
   ("while_statement", loop),
   ("do_statement", loop),
   ("for_statement", loop),
   ("for_in_statement", loop),
   ("lexical_declaration", variableDeclaration),
   ("variable_declaration", variableDeclaration),
   ("function_declaration", functionDeclaration),
   ("generator_function_declaration", functionDeclaration),
   ("assignment_expression", assignment),
   ("augmented_assignment_expression", assignment),
   ("update_expression", update)]

/-- What a kind of node is rejected as. -/
def ofKind? (kind : String) : Option Rejection := table.lookup kind

end Rejection

end ScriptGate
