import ScriptGate.Json.Value

/-!
# Writing JSON

JSON text in three dialects: on one line or indented, in both of which every character outside of
ASCII is an escape, and quoted strings that keep such characters as they are.

## Main definitions

* `Json.quote`, `Json.quoteAscii`: a quoted string, with and without characters outside of ASCII.
* `Json.Value.write`: a value on one line.
* `Json.Value.writeIndented`: a value with one item or member a line.
-/

namespace ScriptGate.Json

/-- The escapes that every quoted string uses: of the quote, the backslash and the controls. -/
def controlEscape? (c : CodePoint) : Option Text :=
  if c = .char '"' then some "\\\""
  else if c = .char '\\' then some "\\\\"
  else if c = .char '\n' then some "\\n"
  else if c = .char '\r' then some "\\r"
  else if c = .char '\t' then some "\\t"
  else if c = .char '\x08' then some "\\b"
  else if c = .char '\x0c' then some "\\f"
  else if c.val < 0x20 then some ("\\u" ++ Text.hex 4 c.val)
  else none

/-- A quoted string; only quotes, backslashes and controls are escaped. -/
def quote (t : Text) : Text :=
  .char '"' :: t.flatMap (fun c => (controlEscape? c).getD [c]) ++ [.char '"']

/-- The escape of a code point by its number, as a surrogate pair past the first plane. -/
def unicodeEscape (n : Nat) : Text :=
  if n < 0x10000 then "\\u" ++ Text.hex 4 n
  else
    let m := n - 0x10000
    "\\u" ++ Text.hex 4 (0xD800 + m / 0x400) ++ "\\u" ++ Text.hex 4 (0xDC00 + m % 0x400)

/-- A quoted string of printable ASCII characters alone. -/
def quoteAscii (t : Text) : Text :=
  .char '"' ::
    t.flatMap (fun c =>
      (controlEscape? c).getD (if c.val < 0x7F then [c] else unicodeEscape c.val)) ++
    [.char '"']

/-- The text of a value that holds no others. -/
def atom : Value → Text
  | .null => "null"
  | .bool b => if b then "true" else "false"
  | .int n => Text.ofInt n
  | .float x =>
    match x with
    | .nan => "NaN"
    | .infinity negative => if negative then "-Infinity" else "Infinity"
    | x => x.show
  | .string t => quoteAscii t
  | .array _ | .object _ => ""

namespace Value

mutual

/-- A value on one line. -/
def write : Value → Text
  | array items => "[" ++ writeItems items ++ "]"
  | object members => "\x7b" ++ writeMembers members ++ "\x7d"
  | v => atom v

/-- The items of an array, with commas between them. -/
def writeItems : List Value → Text
  | [] => []
  | [v] => write v
  | v :: rest => write v ++ ", " ++ writeItems rest

/-- The members of an object, with commas between them. -/
def writeMembers : List (Text × Value) → Text
  | [] => []
  | [(name, v)] => quoteAscii name ++ ": " ++ write v
  | (name, v) :: rest => quoteAscii name ++ ": " ++ write v ++ ", " ++ writeMembers rest

end

/-- A line end and the indentation of a nesting level. -/
def lineBreak (width level : Nat) : Text :=
  .char '\n' :: List.replicate (width * level) (.char ' ')

mutual

/-- A value whose items and members stand on lines of their own, `width` blanks deeper for each
nesting. -/
def writeIndented (width level : Nat) : Value → Text
  | array [] => "[]"
  | object [] => "\x7b\x7d"
  | array items =>
    "[" ++ writeIndentedItems width (level + 1) items ++ lineBreak width level ++ "]"
  | object members =>
    "\x7b" ++ writeIndentedMembers width (level + 1) members ++ lineBreak width level ++ "\x7d"
  | v => atom v

/-- The items of an array, each on lines of its own. -/
def writeIndentedItems (width level : Nat) : List Value → Text
  | [] => []
  | [v] => lineBreak width level ++ writeIndented width level v
  | v :: rest =>
    lineBreak width level ++ writeIndented width level v ++ "," ++
      writeIndentedItems width level rest

/-- The members of an object, each on lines of its own. -/
def writeIndentedMembers (width level : Nat) : List (Text × Value) → Text
  | [] => []
  | [(name, v)] =>
    lineBreak width level ++ quoteAscii name ++ ": " ++ writeIndented width level v
  | (name, v) :: rest =>
    lineBreak width level ++ quoteAscii name ++ ": " ++ writeIndented width level v ++ "," ++
      writeIndentedMembers width level rest

end

end Value

end ScriptGate.Json
