import ScriptGate.Json.Reader
import ScriptGate.Record.Validated
import ScriptGate.Request

/-!
# The format of batches

A batch is a JSON array of objects, each with a script and, if it likes, a list of allowed
variables, and with nothing else. Every violation of the format is told with its place.

## Main definitions

* `Batch.Violation`: what is wrong with a payload, and where.
* `Batch.violations`: all that is wrong with a payload.
* `Batch.Rules`: where the rules of the format are kept.
* `Batch.parse`: the requests of a payload.
-/

namespace ScriptGate.Batch

open Record (Step)

/-! ### Violations -/

/-- How a value violates the format. -/
inductive Flaw where
  | wrongType (v : Json.Value) (type : String)
  | noScript
  | unexpected (names : List Text)

/-- The wording of a flaw. -/
def Flaw.message : Flaw → Text
  | wrongType v type => v.display ++ " is not of type '" ++ (type : Text) ++ "'"
  | noScript => "'script' is a required property"
  | unexpected names =>
    let verb : Text := if names.length = 1 then "was" else "were"
    "Additional properties are not allowed (" ++ Text.join ", " (names.map Text.quoted) ++
      " " ++ verb
      ++ " unexpected)"

/-- A flaw and the way to the value that has it. -/
structure Violation where
  place : List Step
  flaw : Flaw

/-- A step as a part of a path. -/
def stepText : Step → Text
  | .name name => name
  | .index i => Text.ofNat i

/-- The path to a value; an empty path is the payload itself. -/
def pathText (place : List Step) : Text :=
  match Text.join "/" (place.map stepText) with
  | [] => "<root>"
  | path => path

/-- The wording of a violation. -/
def Violation.message (v : Violation) : Text :=
  "Schema validation error at " ++ pathText v.place ++ ": " ++ v.flaw.message

/-- Tells the violations of a part as violations of the whole. -/
def under (s : Step) (vs : List Violation) : List Violation :=
  vs.map fun v => { v with place := s :: v.place }

/-- A violation of the value itself by its type. -/
def wrongType (v : Json.Value) (type : String) : List Violation := [⟨[], .wrongType v type⟩]

/-! ### The rules -/

/-- A value has to be a string. -/
def stringRule : Json.Value → List Violation
  | .string _ => []
  | v => wrongType v "string"

/-- Applies a rule to the items of an array, the first of which has the index `i`. -/
def itemsRule (rule : Json.Value → List Violation) : (i : Nat) → List Json.Value → List Violation
  | _, [] => []
  | i, v :: vs => under (.index i) (rule v) ++ itemsRule rule (i + 1) vs

/-- A value has to be an array of strings. -/
def variablesRule : Json.Value → List Violation
  | .array vs => itemsRule stringRule 0 vs
  | v => wrongType v "array"

/-- Applies a rule to the member of a name, if there is one. -/
def memberRule (name : String) (rule : Json.Value → List Violation)
    (ms : List (Text × Json.Value)) : List Violation :=
  match Json.Value.get? name ms with
  | some v => under (.name name) (rule v)
  | none => []

/-- The names that an object of a batch may have. -/
def memberNames : List Text := Text.ofStrings ["script", "allowedVariables"]

/-- Names that do not belong to an object, sorted. -/
def unexpectedNames (ms : List (Text × Json.Value)) : List Text :=
  Text.sortedSet ((ms.map (·.1)).filter fun name => name ∉ memberNames)

/-- A value has to be an object with a script. -/
def requestRule : Json.Value → List Violation
  | .object ms =>
    memberRule "script" stringRule ms ++ memberRule "allowedVariables" variablesRule ms ++
      (if (Json.Value.get? "script" ms).isNone then [⟨[], .noScript⟩] else []) ++
      (match unexpectedNames ms with
        | [] => []
        | names => [⟨[], .unexpected names⟩])
  | v => wrongType v "object"

/-- All that is wrong with a payload, in order. -/
def violations : Json.Value → List Violation
  | .array vs => itemsRule requestRule 0 vs
  | v => wrongType v "array"

/-! ### Payloads -/

/-- The file with the rules of the format: it holds the rules, it is not there, or its text is not
JSON, with the first fault and its place. -/
inductive Rules where
  | builtIn
  | absent (path : Text)
  | malformed (fault : Json.Fault) (line column pos : Nat)

/-- What is wrong with a payload or with the rules. -/
inductive FormatError where
  | violation (v : Violation)
  | rulesAbsent (path : Text)
  | rulesUnreadable (e : Json.ReadError)

/-- The wording of an error of the format. -/
def FormatError.message : FormatError → Text
  | violation v => v.message
  | rulesAbsent path => "Schema file not found: " ++ path
  | rulesUnreadable e => "Schema JSON decode error: " ++ e.message

/-- The errors of a payload. -/
def errors (rules : Rules) (payload : Json.Value) : List FormatError :=
  match rules with
  | .builtIn => (violations payload).map .violation
  | .absent path => [.rulesAbsent path]
  | .malformed fault line column pos => [.rulesUnreadable (.malformed fault line column pos)]

/-- Why a payload is no batch: it is not JSON, or it violates the format. -/
inductive Malformation where
  | notJson (e : Json.ReadError)
  | violations (errors : List FormatError)

/-- The wording of the error for a payload that is no batch. -/
def Malformation.message : Malformation → Text
  | notJson e => "Batch payload is not valid JSON: " ++ e.message
  | violations es => Text.join "; " (es.map FormatError.message)

/-- Why a payload has no requests: it is no batch, a number in it is too long to be read, or its
requests are not records as they should be. -/
inductive ParseError where
  | malformed (m : Malformation)
  | unreadable (e : Json.ReadError)
  | invalid (errors : List Record.FieldError)

/-- The requests of an array of records. -/
def requests (v : Json.Value) : Except ParseError (List Request) :=
  match v with
  | .array vs => vs.mapM fun v => (Request.record v).toExcept.mapError .invalid
  | _ => .ok []

/-- The requests of a payload. A payload is given by its characters, so that a lone surrogate stands
in it as an escape only. -/
def parse (rules : Rules) (payload : List Char) : Except ParseError (List Request) :=
  match Json.read payload with
  | .error (.longInteger digits) => .error (.unreadable (.longInteger digits))
  | .error e => .error (.malformed (.notJson e))
  | .ok v =>
    match errors rules v with
    | [] => requests v
    | es => .error (.malformed (.violations es))

end ScriptGate.Batch
