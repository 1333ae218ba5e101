import ScriptGate.Check.Walk
import ScriptGate.Text.Blank
import ScriptGate.Text.Quoted

/-!
# Checking a script

A script is parsed, which fails if its tree has errors, and then checked against a policy. The tree
comes from a grammar, which is a parameter: any function from scripts to trees will do.

## Main definitions

* `Grammar`: what gives scripts their trees.
* `Script`, `Script.parse`: a script with its tree, and the syntax errors of one that has none.
* `Script.validate`: the diagnostics of a script or of one node of it.
* `checkScript`: the report of a script.
-/

namespace ScriptGate

/-- What gives a script its syntax tree. -/
abbrev Grammar := List Char → Node

/-- A script that could be parsed. -/
structure Script where
  source : Source
  root : Node

namespace Script

/-- Why a script cannot be parsed. -/
inductive ParseError where
  | syntaxError (failure : SyntaxFailure)
  | fault (fault : Check.Fault)

/-- The most code points of a script that a syntax error quotes. -/
def excerptLimit : Nat := 20

/-- What a syntax error quotes of the text of its region. -/
def excerpt (t : Text) : Text :=
  let t := t.strip
  if excerptLimit < t.length then t.take excerptLimit ++ "..." else t

/-- The wording of the syntax error at an error region or a missing token. -/
def errorMessage (s : Source) (n : Node) : Except Check.Fault Text :=
  if n.isMissing then pure ("Syntax error: missing " ++ (n.kind : Text).quoted)
  else do
    let t ← Check.ofSource (s.text n)
    let quotation := excerpt t
    if quotation.isEmpty then pure "Syntax error: unexpected end of input"
    else pure ("Syntax error: unexpected " ++ quotation.quoted)

/-- The syntax errors of a tree, one for each outermost error region or missing token. A tree that
is marked as wrong but shows no such region has one syntax error over all of it. -/
def syntaxErrors (s : Source) (root : Node) : Except Check.Fault (List Diagnostic) :=
  match root.errorRegions with
  | [] => do
    let d ← Check.diagnostic s root "Syntax error"
    pure [d]
  | regions => regions.mapM fun n => do
    let message ← errorMessage s n
    Check.diagnostic s n message

/-- Parses a script: its tree, unless the tree has errors. -/
def parse (grammar : Grammar) (chars : List Char) (unit : OffsetUnit) : Except ParseError Script :=
  let source := Source.ofChars chars unit
  let root := grammar chars
  if root.hasError then
    match syntaxErrors source root with
    | .ok ds => .error (.syntaxError ⟨ds⟩)
    | .error f => .error (.fault f)
  else .ok ⟨source, root⟩

/-- The diagnostics of a node of a script, and the scope afterwards. -/
def validate (s : Script) (policy : Policy) (allowed : List Text) (n : Node) (scope : Scope) :
    Except Check.Fault (List Diagnostic) × Scope :=
  Check.validate ⟨s.source, allowed, policy⟩ n scope

end Script

/-- The report of a script: its syntax errors, or what the policy does not allow in it. -/
def checkScript (grammar : Grammar) (policy : Policy) (script : Text) (allowed : List Text) :
    Except Check.Fault Report :=
  match Utf8.scalars 0 script with
  | .error e => .error (.unencodable e)
  | .ok chars =>
    match Script.parse grammar chars policy.offsetUnit with
    | .error (.syntaxError failure) => .ok ⟨failure.diagnostics, true⟩
    | .error (.fault f) => .error f
    | .ok s => (s.validate policy allowed s.root {}).1.map fun ds => ⟨ds, false⟩

end ScriptGate
