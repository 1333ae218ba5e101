import ScriptGate.Json.Value
import ScriptGate.Number.Numeral
import ScriptGate.Record.Validated
import ScriptGate.Source.Basic
import ScriptGate.Text.Utf8

/-!
# Reading fields

Readers for the types that fields of records have. Numbers and truth values are also taken from
strings and from each other where nothing is lost.

## Main definitions

* `Record.Reader`: from a JSON value to a result.
* `Record.integer`, `Record.bool`, `Record.string`, `Record.unit`: single values.
* `Record.set`, `Record.tuple`, `Record.list`, `Record.table`: values with parts.
* `Record.field`, `Record.fieldOr`, `Record.onlyNames`: the fields of a record.
-/

namespace ScriptGate.Record

/-- Reads a value of a type from a JSON value. -/
abbrev Reader (α : Type) := Json.Value → Validated α

/-! ### Single values -/

/-- Any string. -/
def string : Reader Text
  | .string t => .valid t
  | _ => .wrong .notString

/-- The text has a surrogate that is no character. -/
def isBroken (t : Text) : Bool := t.any Utf8.isSurrogate

/-- The name of an offset unit. -/
def unit : Reader OffsetUnit
  | .string t =>
    if isBroken t then .wrong .brokenString
    else if t = Text.ofString "codepoint" then .valid .codepoint
    else if t = Text.ofString "utf16" then .valid .utf16
    else .wrong .notUnit
  | _ => .wrong .notUnit

/-- The characters before a point after which only zeros come, one at least. -/
def withoutZeros (cs : List Char) : List Char :=
  match cs.span (· ≠ '.') with
  | (whole, '.' :: zeros) => if !zeros.isEmpty && zeros.all (· = '0') then whole else cs
  | _ => cs

/-- A whole number in a string: blanks around it, a sign, grouped digits, a fraction of zeros. It is
assumed that a string may have any number of digits. -/
def integerOfText? (t : Text) : Option Int :=
  Numeral.signed? Digit.ascii? none (withoutZeros t.trim.toChars)

/-- A whole number. It is assumed that a number without a fraction may have any size, however it is
written. -/
def integer : Reader Int
  | .int n => .valid n
  | .bool b => .valid (if b then 1 else 0)
  | .float x =>
    if !x.isFinite then .wrong .notFinite
    else match x.toInt? with
      | some n => .valid n
      | none => .wrong .fractional
  | .string t =>
    if isBroken t then .wrong .brokenString
    else match integerOfText? t with
      | some n => .valid n
      | none => .wrong .unreadableInteger
  | _ => .wrong .notInteger

/-- A whole number that is not smaller than `minimum`. -/
def atLeast (minimum : Nat) : Reader { n : Nat // minimum ≤ n } := fun v =>
  (integer v).andThen fun n =>
    if h : minimum ≤ n.toNat ∧ 0 ≤ n then .valid ⟨n.toNat, h.1⟩ else .wrong (.tooSmall minimum)

/-- Words for yes. -/
def yesWords : List String := ["1", "on", "t", "true", "y", "yes"]

/-- Words for no. -/
def noWords : List String := ["0", "off", "f", "false", "n", "no"]

/-- A truth value in a word; capital letters count as small ones. -/
def boolOfText? (t : Text) : Option Bool :=
  let word := t.map fun c =>
    match c with
    | .char c => CodePoint.char c.toLower
    | c => c
  if word ∈ Text.ofStrings yesWords then some true
  else if word ∈ Text.ofStrings noWords then some false
  else none

/-- A truth value. -/
def bool : Reader Bool
  | .bool b => .valid b
  | .int n => if n = 0 then .valid false else if n = 1 then .valid true else .wrong .unreadableBool
  | .float x =>
    if x.toInt? = some 0 then .valid false
    else if x.toInt? = some 1 then .valid true
    else .wrong .notBool
  | .string t =>
    if isBroken t then .wrong .brokenString
    else match boolOfText? t with
      | some b => .valid b
      | none => .wrong .unreadableBool
  | _ => .wrong .notBool

/-! ### Values with parts -/

/-- An array of values of one type; `p` tells that the value is no array. -/
def arrayOf {α : Type} (p : Problem) (item : Reader α) : Reader (List α)
  | .array vs => Validated.each item 0 vs
  | _ => .wrong p

/-- A set of strings. -/
def set : Reader (List Text) := arrayOf .notSet string

/-- A tuple of strings. -/
def tuple : Reader (List Text) := arrayOf .notTuple string

/-- A list of values of one type. -/
def list {α : Type} (item : Reader α) : Reader (List α) := arrayOf .notList item

/-- Sets of strings under names. -/
def table : Reader (List (Text × List Text))
  | .object members => Validated.eachNamed set members
  | _ => .wrong .notTable

/-- A value or null. -/
def nullable {α : Type} (read : Reader α) : Reader (Option α)
  | .null => .valid none
  | v => (read v).map some

/-! ### Records -/

/-- The members of an object that stands for a record of the given kind. -/
def members (kind : String) : Reader (List (Text × Json.Value))
  | .object ms => .valid ms
  | _ => .wrong (.notRecord kind)

/-- A field that has to be there. -/
def field {α : Type} (ms : List (Text × Json.Value)) (name : String) (read : Reader α) :
    Validated α :=
  match Json.Value.get? name ms with
  | some v => (read v).under (.name name)
  | none => (Validated.wrong .missing).under (.name name)

/-- A field that may be left out, for which `otherwise` then stands. -/
def fieldOr {α : Type} (ms : List (Text × Json.Value)) (name : String) (otherwise : α)
    (read : Reader α) : Validated α :=
  match Json.Value.get? name ms with
  | some v => (read v).under (.name name)
  | none => .valid otherwise

/-- No names but the given ones. -/
def onlyNames (ms : List (Text × Json.Value)) (names : List String) : Validated Unit :=
  match ms.filter fun m => m.1 ∉ Text.ofStrings names with
  | [] => .valid ()
  | unknown => .invalid (unknown.map fun m => ⟨[.name m.1], .unknownName⟩)

/-- A broken name among the members is told alone, in place of what else is wrong. -/
def unlessBroken {α : Type} (ms : List (Text × Json.Value)) (x : Validated α) : Validated α :=
  if ms.any fun m => isBroken m.1 then .wrong .brokenString else x

end ScriptGate.Record
