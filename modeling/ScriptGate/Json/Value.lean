import ScriptGate.Number.Shortest
import ScriptGate.Text.Quoted

/-!
# JSON values

## Main definitions

* `Json.Value`: a decoded JSON value. Object members keep the order in which their names first came.
* `Json.Value.ofMembers`: an object from members with repeated names, of which the last value
  counts.
* `Json.Value.display`: how a value is quoted in a message.
-/

namespace ScriptGate.Json

/-- A JSON value. Whole numbers are kept apart from numbers with a point or an exponent. -/
inductive Value where
  | null
  | bool (b : Bool)
  | int (n : Int)
  | float (x : Binary64)
  | string (t : Text)
  | array (items : List Value)
  | object (members : List (Text × Value))
  deriving Repr

namespace Value

/-- Sets the value of a name: in place if the name is there, else at the end. -/
def put (name : Text) (v : Value) : List (Text × Value) → List (Text × Value)
  | [] => [(name, v)]
  | (n, w) :: rest => if n = name then (n, v) :: rest else (n, w) :: put name v rest

/-- The object with the given members, in order. -/
def ofMembers (members : List (Text × Value)) : Value :=
  object (members.foldl (fun acc m => put m.1 m.2 acc) [])

/-- The value of a name among the members of an object. -/
def get? (name : Text) (members : List (Text × Value)) : Option Value :=
  (members.find? fun m => m.1 = name).map (·.2)

mutual

/-- How a value is quoted in a message. -/
def display : Value → Text
  | null => "None"
  | bool b => if b then "True" else "False"
  | int n => Text.ofInt n
  | float x => x.show
  | string t => t.quoted
  | array items => "[" ++ displayItems items ++ "]"
  | object members => "\x7b" ++ displayMembers members ++ "\x7d"

/-- The items of an array, with commas between them. -/
def displayItems : List Value → Text
  | [] => []
  | [v] => display v
  | v :: rest => display v ++ ", " ++ displayItems rest

/-- The members of an object, with commas between them. -/
def displayMembers : List (Text × Value) → Text
  | [] => []
  | [(name, v)] => name.quoted ++ ": " ++ display v
  | (name, v) :: rest => name.quoted ++ ": " ++ display v ++ ", " ++ displayMembers rest

end

end Value

end ScriptGate.Json
