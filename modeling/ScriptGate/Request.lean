import ScriptGate.Record.Reader

/-!
# Requests

One script to check, with the expressions for variables that it may use.

## Main definitions

* `Request`: the script and its variables.
* `Request.record`: the request that a JSON value describes.
-/

namespace ScriptGate

/-- A script to check and the variable expressions that are allowed in it. -/
structure Request where
  script : Text
  allowedVariables : List Text := []
  deriving DecidableEq, Repr

namespace Request

open Record

/-- The name of the record in errors. -/
def recordName : String := "ScriptRequest"

/-- The field of allowed variables, which has two names. If both are there the first counts. -/
def variablesField (ms : List (Text × Json.Value)) : Validated (List Text) :=
  match Json.Value.get? "allowedVariables" ms with
  | some _ => field ms "allowedVariables" tuple
  | none => fieldOr ms "allowed_variables" [] tuple

/-- The request that members of an object describe. Further members do not matter. -/
def ofMembers (ms : List (Text × Json.Value)) : Validated Request :=
  Request.mk <$> field ms "script" string <*> variablesField ms

/-- The request that a JSON value describes. -/
def record (v : Json.Value) : Validated Request := (members recordName v).andThen ofMembers

end Request

end ScriptGate
