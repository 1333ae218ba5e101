import ScriptGate.Json.Writer
import ScriptGate.Number.Numeral

/-!
# Entries of the audit log

An entry is one line: the time, the operation and fields. A value that could be mistaken for
something else is quoted, so that every line can be taken apart again.

## Main definitions

* `Audit.Time`: a point in time, to the second.
* `Audit.FieldValue`, `Audit.Entry`: what an entry holds.
* `Audit.Entry.line`: the line of an entry.
* `Audit.Entry.make`, `Audit.Entry.print`: an entry with any fields, and its line if it has one.
-/

namespace ScriptGate.Audit

/-- A point in time in coordinated universal time. -/
structure Time where
  year : Nat
  month : Nat
  day : Nat
  hour : Nat
  minute : Nat
  second : Nat
  deriving DecidableEq, Repr

/-- The date, the letter `T`, the time of day and the letter `Z`. -/
def Time.text (t : Time) : Text :=
  Text.ofNat t.year ++ "-" ++ Text.padded 2 t.month ++ "-" ++ Text.padded 2 t.day ++ "T" ++
    Text.padded 2 t.hour ++ ":" ++ Text.padded 2 t.minute ++ ":" ++ Text.padded 2 t.second ++ "Z"

/-- The value of a field. A number with a fraction is given as it is written. -/
inductive FieldValue where
  | text (t : Text)
  | integer (n : Int)
  | truth (b : Bool)
  | decimal (written : Text)
  deriving DecidableEq, Repr

/-- A value as it stands if nothing has to be quoted. -/
def FieldValue.plain : FieldValue → Text
  | text t => t
  | integer n => Text.ofInt n
  | truth b => if b then "True" else "False"
  | decimal written => written

/-- Characters that a value cannot hold unless it is quoted. -/
def delimiters : Text := [' ', '"', '=', '\t', '\r', '\n'].map CodePoint.char

/-- A value as it is written in an entry. -/
def FieldValue.written (v : FieldValue) : Text :=
  if v.plain.any (· ∈ delimiters) then Json.quote v.plain else v.plain

/-- An operation and its fields. A field without a value is left out of the line. -/
structure Entry where
  operation : Text
  fields : List (Text × Option FieldValue)
  deriving DecidableEq, Repr

/-- A field as it is written. -/
def fieldText (f : Text × Option FieldValue) : Option Text :=
  f.2.map fun v => f.1 ++ "=" ++ v.written

/-- The line of an entry, with its end. -/
def Entry.line (e : Entry) (now : Time) : Text :=
  Text.join " " (now.text :: ("[" ++ e.operation ++ "]") :: e.fields.filterMap fieldText) ++ "\n"

/-! ### Entries with any fields -/

/-- Why an entry is refused: the name of a field is taken for something else, or a whole number has
too many digits to be written. -/
inductive EntryError where
  | nameClash (name : Text)
  | longInteger
  deriving DecidableEq, Repr

/-- The wording of the error for an entry that is refused. -/
def EntryError.message : EntryError → Text
  | nameClash name => "AuditLogger.log() got multiple values for argument '" ++ name ++ "'"
  | longInteger =>
    "Exceeds the limit (" ++ Text.ofNat Numeral.maxDigits ++
      " digits) for integer string conversion; " ++
      "use sys.set_int_max_str_digits() to increase the limit"

/-- Names that no field can have. -/
def reservedNames : List Text := Text.ofStrings ["operation", "self"]

/-- Sets a field: in place if its name is there, else at the end. -/
def putField (name : Text) (v : Option FieldValue) :
    List (Text × Option FieldValue) → List (Text × Option FieldValue)
  | [] => [(name, v)]
  | (n, w) :: rest => if n = name then (n, v) :: rest else (n, w) :: putField name v rest

/-- The entry with the given fields. Of fields with one name the last value counts, at the place of
the first. -/
def Entry.make (operation : Text) (fields : List (Text × Option FieldValue)) :
    Except EntryError Entry :=
  let fields := fields.foldl (fun acc f => putField f.1 f.2 acc) []
  match fields.find? fun f => f.1 ∈ reservedNames with
  | some f => .error (.nameClash f.1)
  | none => .ok ⟨operation, fields⟩

/-- A whole number that has too many digits to be written. -/
def FieldValue.isLong : FieldValue → Bool
  | integer n => Numeral.maxDigits < (Text.ofNat n.natAbs).length
  | _ => false

/-- Some field has such a number for its value. -/
def Entry.hasLongInteger (e : Entry) : Bool := e.fields.any fun f => f.2.any FieldValue.isLong

/-- The line of an entry, unless it holds a number that cannot be written. -/
def Entry.print (e : Entry) (now : Time) : Except EntryError Text :=
  if e.hasLongInteger then .error .longInteger else .ok (e.line now)

end ScriptGate.Audit
