import ScriptGate.Diagnostic
import ScriptGate.Record.Reader

/-!
# Reports as records

Reports read from JSON values and their diagnostics written as JSON values.

## Main definitions

* `Diagnostic.record`, `Report.record`: what a JSON value describes.
* `Diagnostic.toJson`, `Report.toJson`: the JSON value of the diagnostics.
-/

namespace ScriptGate

open Record

/-- The diagnostic that a JSON value describes. -/
def Diagnostic.record (v : Json.Value) : Validated Diagnostic :=
  (members "Diagnostic" v).andThen fun ms =>
    Diagnostic.mk <$> field ms "start" integer <*> field ms "end" integer
      <*> field ms "message" string

/-- The JSON value of a diagnostic. -/
def Diagnostic.toJson (d : Diagnostic) : Json.Value :=
  .object [("start", .int d.start), ("end", .int d.stop), ("message", .string d.message)]

namespace Report

/-- The name of the record in errors. -/
def recordName : String := "ValidationResult"

/-- The report that a JSON value describes. Both fields may be left out. -/
def record (v : Json.Value) : Validated Report :=
  (members recordName v).andThen fun ms =>
    Report.mk <$> fieldOr ms "diagnostics" [] (list Diagnostic.record)
      <*> fieldOr ms "syntax_error" false bool

/-- The JSON value of a report: the list of its diagnostics. -/
def toJson (r : Report) : Json.Value := .array (r.diagnostics.map Diagnostic.toJson)

end Report

end ScriptGate
