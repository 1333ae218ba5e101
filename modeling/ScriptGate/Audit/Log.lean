import ScriptGate.Audit.Entry
import ScriptGate.Diagnostic

/-!
# The audit log of a batch

One entry for each script and a summary after them.

## Main definitions

* `Audit.ofReport`: the entry of one script.
* `Audit.ofBatch`: the summary.
* `Audit.entries`: the entries of a batch.
-/

namespace ScriptGate.Audit

/-- The place of a diagnostic in its script. Its ends are places of a text that was checked, so they
are taken to be written whatever their digits are. -/
def spanText (d : Diagnostic) : Text := Text.ofInt d.start ++ "-" ++ Text.ofInt d.stop

/-- A whole number as a value. -/
def count (n : Nat) : Option FieldValue := some (.integer n)

/-- The entry of the script at the given place of a batch. It quotes the first diagnostic only. -/
def ofReport (index : Int) (r : Report) : Entry where
  operation := "VALIDATE"
  fields :=
    [("index", some (.integer index)),
     ("status", some (.text r.status.name)),
     ("diagnostics", count r.diagnostics.length),
     ("first", r.diagnostics.head?.map fun d => .text d.message),
     ("span", r.diagnostics.head?.map fun d => .text (spanText d))]

/-- The number of scripts that were not accepted. -/
def rejections (reports : List Report) : Nat := reports.countP fun r => !r.accepted

/-- The summary of a batch. -/
def ofBatch (reports : List Report) : Entry where
  operation := "BATCH"
  fields :=
    [("scripts", count reports.length),
     ("accepted", count (reports.length - rejections reports)),
     ("rejected", count (rejections reports))]

/-- The entries of a batch. -/
def entries (reports : List Report) : List Entry :=
  (reports.zipIdx.map fun (r, i) => ofReport i r) ++ [ofBatch reports]

end ScriptGate.Audit
