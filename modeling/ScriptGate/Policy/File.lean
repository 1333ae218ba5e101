import ScriptGate.Json.Reader
import ScriptGate.Policy.Basic
import ScriptGate.Record.Reader

/-!
# Policy files

A policy file is a JSON object. A field that it leaves out has its standard value, and it may have
no other fields.

## Main definitions

* `Policy.record`: the policy that a JSON value describes.
* `Policy.load`: the policy of a file.
-/

namespace ScriptGate.Policy

open Record

/-- The name of the record in errors. -/
def recordName : String := "ValidatorPolicy"

/-- The fields of a policy file, in order. -/
def fieldNames : List String :=
  ["safe_identifiers", "safe_namespaces", "static_property_whitelist", "instance_method_whitelist",
   "instance_property_whitelist", "allowed_unary_operators", "namespace_method_whitelist",
   "offset_unit", "max_depth"]

/-- A policy from its fields. -/
def ofFields (identifiers namespaces : List Text) (statics : NameTable)
    (methods properties operators : List Text) (namespaceMethods : Option NameTable)
    (unit : OffsetUnit) (depth : { n : Nat // 1 ≤ n }) : Policy :=
  ⟨identifiers, namespaces, statics, methods, properties, operators, namespaceMethods, unit,
    depth.1, depth.2⟩

/-- The policy that members of an object describe. -/
def ofMembers (ms : List (Text × Json.Value)) : Validated Policy :=
  unlessBroken ms
    (ofFields <$> fieldOr ms "safe_identifiers" standard.safeIdentifiers set
      <*> fieldOr ms "safe_namespaces" standard.safeNamespaces set
      <*> fieldOr ms "static_property_whitelist" standard.staticProperties table
      <*> fieldOr ms "instance_method_whitelist" standard.instanceMethods set
      <*> fieldOr ms "instance_property_whitelist" standard.instanceProperties set
      <*> fieldOr ms "allowed_unary_operators" standard.unaryOperators set
      <*> fieldOr ms "namespace_method_whitelist" standard.namespaceMethods (nullable table)
      <*> fieldOr ms "offset_unit" standard.offsetUnit unit
      <*> fieldOr ms "max_depth" ⟨standard.maxDepth, standard.maxDepth_pos⟩ (atLeast 1)
      <* onlyNames ms fieldNames)

/-- The policy that a JSON value describes. -/
def record (v : Json.Value) : Validated Policy := (members recordName v).andThen ofMembers

/-- Why a policy file cannot be used. -/
inductive LoadError where
  | unreadable (e : Json.ReadError)
  | invalid (errors : List FieldError)

/-- The policy of a file with the given text. -/
def load (text : List Char) : Except LoadError Policy :=
  match Json.read (Text.unixLines text) with
  | .error e => .error (.unreadable e)
  | .ok v => (record v).toExcept.mapError .invalid

end ScriptGate.Policy
