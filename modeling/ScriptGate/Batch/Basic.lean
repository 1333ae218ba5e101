import ScriptGate.Batch.Format
import ScriptGate.Check.Script
import ScriptGate.Json.Writer
import ScriptGate.Report.Record

/-!
# Batches

Scripts that are checked together, each on its own. The answer has one entry for each script, in
order.

## Main definitions

* `Batch.check`: the reports of the scripts of a batch.
* `Batch.reports`: the reports of a batch that is given as text.
* `Batch.response`: the reports as a JSON value.
* `Batch.answer`: the answer, as text, to a batch that is given as text.
* `Batch.rejected`: the places of the scripts that were not accepted.
-/

namespace ScriptGate.Batch

/-- The reports of the scripts of a batch. -/
def check (grammar : Grammar) (policy : Policy) (requests : List Request) :
    Except Check.Fault (List Report) :=
  requests.mapM fun r => checkScript grammar policy r.script r.allowedVariables

/-- Why a batch that is given as text has no answer. -/
inductive Failure where
  | unreadable (e : ParseError)
  | fault (f : Check.Fault)

/-- The reports of a batch that is given as text. No script is checked unless all of the text makes
sense. -/
def reports (rules : Rules) (grammar : Grammar) (policy : Policy) (text : List Char) :
    Except Failure (List Report) := do
  let requests ← (parse rules text).mapError .unreadable
  (check grammar policy requests).mapError .fault

/-- The diagnostics of each script. -/
def response (reports : List Report) : Json.Value := .array (reports.map Report.toJson)

/-- The answer, as JSON text, to a batch that is given as JSON text. -/
def answer (rules : Rules) (grammar : Grammar) (policy : Policy) (text : List Char) :
    Except Failure Text :=
  (reports rules grammar policy text).map fun rs => (response rs).write

/-- The places of the scripts that were not accepted, counted from `i`. -/
def rejectedFrom : (i : Nat) → List Report → List Nat
  | _, [] => []
  | i, r :: rs => if r.accepted then rejectedFrom (i + 1) rs else i :: rejectedFrom (i + 1) rs

/-- The places of the scripts that were not accepted. -/
def rejected (reports : List Report) : List Nat := rejectedFrom 0 reports

end ScriptGate.Batch
