import ScriptGate.Text.Basic

/-!
# Diagnostics and reports

## Main definitions

* `Diagnostic`: a violation at a place in a script.
* `Report`: the outcome of checking one script.
* `Report.status`: whether the script was accepted, rejected or could not be parsed.
* `Report.lines`: the report of one script for a person to read.
-/

namespace ScriptGate

/-- A violation of the policy, placed by the character offsets of its ends. -/
structure Diagnostic where
  start : Int
  stop : Int
  message : Text
  deriving DecidableEq, Repr

/-- The outcome of checking one script. -/
structure Report where
  diagnostics : List Diagnostic := []
  syntaxError : Bool := false
  deriving DecidableEq, Repr

/-- The three outcomes. -/
inductive Status where
  | accepted
  | rejected
  | syntaxError
  deriving DecidableEq, Repr

/-- The word for an outcome. -/
def Status.name : Status → String
  | accepted => "accepted"
  | rejected => "rejected"
  | syntaxError => "syntax_error"

namespace Report

/-- A script is accepted if it could be parsed and nothing in it was found wrong. -/
def accepted (r : Report) : Bool := r.diagnostics.isEmpty && !r.syntaxError

/-- The outcome in one word. -/
def status (r : Report) : Status :=
  if r.syntaxError then .syntaxError else if r.accepted then .accepted else .rejected

/-- The line of a diagnostic. -/
def line (d : Diagnostic) : Text :=
  Text.ofInt d.start ++ "-" ++ Text.ofInt d.stop ++ ": " ++ d.message

/-- `OK`, or one line for each diagnostic. -/
def lines (r : Report) : Text :=
  if r.accepted then "OK" else Text.join "\n" (r.diagnostics.map line)

end Report

/-- A script that cannot be parsed, with a diagnostic for each region that makes no sense. -/
structure SyntaxFailure where
  diagnostics : List Diagnostic
  deriving DecidableEq, Repr

/-- The first diagnostic speaks for all. -/
def SyntaxFailure.message (f : SyntaxFailure) : Text :=
  match f.diagnostics with
  | d :: _ => d.message
  | [] => "Syntax error"

end ScriptGate
