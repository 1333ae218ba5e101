import ScriptGate.Text.Basic

/-!
# Results with all their errors

A record is read field by field, and every field that is wrong is told, in order. The results of
fields therefore combine so that no error hides another.

## Main definitions

* `Record.Step`, `Record.FieldError`: where in a record something is wrong, and what.
* `Record.Problem`: what can be wrong, with its code and its wording.
* `Record.Validated`: a result or all of its errors.
-/

namespace ScriptGate.Record

/-- A step from a value to a part of it. -/
inductive Step where
  | name (name : Text)
  | index (i : Nat)
  deriving DecidableEq, Repr

/-- What can be wrong with a value. -/
inductive Problem where
  | missing
  | unknownName
  | notRecord (record : String)
  | notString
  | brokenString
  | notSet
  | notTuple
  | notList
  | notTable
  | notUnit
  | notInteger
  | unreadableInteger
  | fractional
  | notFinite
  | tooSmall (minimum : Nat)
  | notBool
  | unreadableBool
  deriving DecidableEq, Repr

namespace Problem

/-- The code of a problem. -/
def code : Problem → String
  | missing => "missing"
  | unknownName => "extra_forbidden"
  | notRecord _ => "model_type"
  | notString => "string_type"
  | brokenString => "string_unicode"
  | notSet => "frozen_set_type"
  | notTuple => "tuple_type"
  | notList => "list_type"
  | notTable => "dict_type"
  | notUnit => "literal_error"
  | notInteger => "int_type"
  | unreadableInteger => "int_parsing"
  | fractional => "int_from_float"
  | notFinite => "finite_number"
  | tooSmall _ => "greater_than_equal"
  | notBool => "bool_type"
  | unreadableBool => "bool_parsing"

/-- The wording of a problem. -/
def message : Problem → String
  | missing => "Field required"
  | unknownName => "Extra inputs are not permitted"
  | notRecord record => "Input should be a valid dictionary or instance of " ++ record
  | notString => "Input should be a valid string"
  | brokenString =>
    "Input should be a valid string, unable to parse raw data as a unicode string"
  | notSet => "Input should be a valid frozenset"
  | notTuple => "Input should be a valid tuple"
  | notList => "Input should be a valid list"
  | notTable => "Input should be a valid dictionary"
  | notUnit => "Input should be 'codepoint' or 'utf16'"
  | notInteger => "Input should be a valid integer"
  | unreadableInteger =>
    "Input should be a valid integer, unable to parse string as an integer"
  | fractional => "Input should be a valid integer, got a number with a fractional part"
  | notFinite => "Input should be a finite number"
  | tooSmall minimum => "Input should be greater than or equal to " ++ Nat.repr minimum
  | notBool => "Input should be a valid boolean"
  | unreadableBool => "Input should be a valid boolean, unable to interpret input"

end Problem

/-- A problem and the way to the part that has it, from the outside in. -/
structure FieldError where
  place : List Step
  problem : Problem
  deriving DecidableEq, Repr

/-- A result, or every error that stands against it. -/
inductive Validated (α : Type) where
  | valid (a : α)
  | invalid (errors : List FieldError)

namespace Validated

variable {α β γ : Type}

/-- Applies a function to the result. -/
def map (f : α → β) : Validated α → Validated β
  | valid a => valid (f a)
  | invalid es => invalid es

/-- Combines two results; the errors of the first come first. -/
def combine (f : α → β → γ) : Validated α → Validated β → Validated γ
  | valid a, valid b => valid (f a b)
  | valid _, invalid es => invalid es
  | invalid es, valid _ => invalid es
  | invalid es, invalid fs => invalid (es ++ fs)

instance : Applicative Validated where
  pure := valid
  map := map
  seq f x := combine (fun g a => g a) f (x ())

/-- A single error at the value itself. -/
def wrong (p : Problem) : Validated α := invalid [⟨[], p⟩]

/-- Tells the errors of a part as errors of the whole. -/
def under (s : Step) : Validated α → Validated α
  | valid a => valid a
  | invalid es => invalid (es.map fun e => { e with place := s :: e.place })

/-- A test of a result that takes place only if there is one. -/
def andThen (x : Validated α) (f : α → Validated β) : Validated β :=
  match x with
  | valid a => f a
  | invalid es => invalid es

/-- The result without its errors. -/
def toExcept : Validated α → Except (List FieldError) α
  | valid a => .ok a
  | invalid es => .error es

/-- Reads the items of a list, the first of which has the index `i`. -/
def each (read : α → Validated β) : (i : Nat) → List α → Validated (List β)
  | _, [] => valid []
  | i, a :: as => combine List.cons ((read a).under (.index i)) (each read (i + 1) as)

/-- Reads values under names. -/
def eachNamed (read : α → Validated β) : List (Text × α) → Validated (List (Text × β))
  | [] => valid []
  | (name, a) :: rest =>
    combine (fun b bs => (name, b) :: bs) ((read a).under (.name name)) (eachNamed read rest)

end Validated

end ScriptGate.Record
