import ScriptGate.Json.Value
import ScriptGate.Number.Numeral

/-!
# Reading JSON

A reader for JSON text. Besides the standard it takes `NaN`, `Infinity` and `-Infinity` as numbers
and surrogate escapes that have no partner; of members with one name the last counts. Text that is
not JSON is refused with the first fault and its position, counted in code points.

## Main definitions

* `Json.Fault`, `Json.ReadError`: why a text is refused, and where.
* `Json.readWithin`: the value of a JSON text, given the most digits that a whole number may have.
* `Json.read`: the value of a JSON text.
-/

namespace ScriptGate.Json

/-- Why a text is not JSON. -/
inductive Fault where
  | noValue
  | noName
  | noColon
  | noComma
  | unclosedString
  | controlCharacter
  | badEscape
  | badUnicodeEscape
  | extraData
  | byteOrderMark
  deriving DecidableEq, Repr

/-- The wording of a fault. -/
def Fault.message : Fault → Text
  | noValue => "Expecting value"
  | noName => "Expecting property name enclosed in double quotes"
  | noColon => "Expecting ':' delimiter"
  | noComma => "Expecting ',' delimiter"
  | unclosedString => "Unterminated string starting at"
  | controlCharacter => "Invalid control character at"
  | badEscape => "Invalid \\escape"
  | badUnicodeEscape => "Invalid \\uXXXX escape"
  | extraData => "Extra data"
  | byteOrderMark => "Unexpected UTF-8 BOM (decode using utf-8-sig)"

/-- What stops the reader: a fault at a position, or a whole number with too many digits. -/
inductive Stop where
  | fault (fault : Fault) (pos : Nat)
  | longInteger (digits : Nat)
  deriving DecidableEq, Repr

/-- A text that cannot be read. A fault is placed by line and column, both from one, and by the
number of code points before it. -/
inductive ReadError where
  | malformed (fault : Fault) (line column pos : Nat)
  | longInteger (digits : Nat)
  deriving DecidableEq, Repr

/-- The wording of a read error. -/
def ReadError.message : ReadError → Text
  | malformed fault line column pos =>
    fault.message ++ ": line " ++ Text.ofNat line ++ " column " ++ Text.ofNat column ++ " (char " ++
      Text.ofNat pos ++ ")"
  | longInteger n =>
    "Exceeds the limit (" ++ Text.ofNat Numeral.maxDigits ++
      " digits) for integer string conversion: value has " ++ Text.ofNat n ++
      " digits; use sys.set_int_max_str_digits() to increase the limit"

/-- The rest of a text and the number of characters before it. -/
structure Cursor where
  pos : Nat
  rest : List Char

/-- The cursor past `n` characters. -/
def Cursor.skip (c : Cursor) (n : Nat) : Cursor := ⟨c.pos + n, c.rest.drop n⟩

/-- The blanks between tokens. -/
def isBlank (c : Char) : Bool := c = ' ' || c = '\t' || c = '\n' || c = '\r'

/-- The cursor past the blanks that it stands at. -/
def Cursor.skipBlanks (c : Cursor) : Cursor := c.skip (c.rest.takeWhile isBlank).length

/-! ### Strings -/

/-- The value of a hexadecimal digit. -/
def hexValue? (c : Char) : Option Nat :=
  if '0' ≤ c ∧ c ≤ '9' then some (c.toNat - '0'.toNat)
  else if 'a' ≤ c ∧ c ≤ 'f' then some (c.toNat - 'a'.toNat + 10)
  else if 'A' ≤ c ∧ c ≤ 'F' then some (c.toNat - 'A'.toNat + 10)
  else none

/-- The value of four hexadecimal digits. -/
def hex4? (a b c d : Char) : Option Nat := do
  let a ← hexValue? a
  let b ← hexValue? b
  let c ← hexValue? c
  let d ← hexValue? d
  pure (((a * 16 + b) * 16 + c) * 16 + d)

/-- The character that a one-letter escape stands for. -/
def shortEscape? : Char → Option Char
  | '"' => some '"'
  | '\\' => some '\\'
  | '/' => some '/'
  | 'b' => some '\x08'
  | 'f' => some '\x0c'
  | 'n' => some '\n'
  | 'r' => some '\r'
  | 't' => some '\t'
  | _ => none

/-- The code point of a surrogate pair. -/
def joinPair (high low : CodePoint) : CodePoint :=
  .char (Char.ofNat (0x10000 + (high.val - 0xD800) * 0x400 + (low.val - 0xDC00)))

/-- Every surrogate pair joined to the character that it stands for. -/
def joinPairs : Text → Text
  | high :: low :: t =>
    if high.isHigh && low.isLow then joinPair high low :: joinPairs t
    else high :: joinPairs (low :: t)
  | t => t

/-- The rest of a string up to its closing quote, which `begin` opened; `acc` holds what was read
before, latest first. A `\u` escape is read only if a character follows its digits. -/
def scanString (begin : Nat) : (pos : Nat) → List Char → (acc : Text) → Except Stop (Text × Cursor)
  | _, [], _ => .error (.fault .unclosedString begin)
  | pos, '"' :: cs, acc => .ok (joinPairs acc.reverse, ⟨pos + 1, cs⟩)
  | pos, '\\' :: 'u' :: a :: b :: c :: d :: cs, acc =>
    match hex4? a b c d, cs.isEmpty with
    | some n, false => scanString begin (pos + 6) cs (.ofNat n :: acc)
    | _, _ => .error (.fault .badUnicodeEscape (pos + 1))
  | pos, '\\' :: 'u' :: _, _ => .error (.fault .badUnicodeEscape (pos + 1))
  | _, ['\\'], _ => .error (.fault .unclosedString begin)
  | pos, '\\' :: c :: cs, acc =>
    match shortEscape? c with
    | none => .error (.fault .badEscape pos)
    | some e => scanString begin (pos + 2) cs (.char e :: acc)
  | pos, c :: cs, acc =>
    if c.toNat ≤ 0x1F then .error (.fault .controlCharacter pos)
    else scanString begin (pos + 1) cs (.char c :: acc)

/-! ### Numbers -/

/-- The value of decimal digits. -/
def digitsValue (cs : List Char) : Nat := cs.foldl (fun n c => n * 10 + (c.toNat - '0'.toNat)) 0

/-- The decimal digits at the head of a text. -/
def takeDigits (cs : List Char) : List Char := cs.takeWhile Char.isDigit

/-- The digits of the whole part: a single zero, or digits that do not begin with one. -/
def wholePart : List Char → Option (List Char)
  | '0' :: _ => some ['0']
  | cs => match takeDigits cs with
    | [] => none
    | ds => some ds

/-- The digits after a point, if the point has any. -/
def fractionPart : List Char → Option (List Char)
  | '.' :: cs => match takeDigits cs with
    | [] => none
    | ds => some ds
  | _ => none

/-- The value and the length of an exponent, if it has a digit. -/
def exponentPart : List Char → Option (Int × Nat)
  | e :: cs =>
    if e = 'e' ∨ e = 'E' then
      let (negative, signs) : Bool × Nat := match cs with
        | '-' :: _ => (true, 1)
        | '+' :: _ => (false, 1)
        | _ => (false, 0)
      match takeDigits (cs.drop signs) with
      | [] => none
      | ds =>
        let n : Int := digitsValue ds
        some (if negative then -n else n, 1 + signs + ds.length)
    else none
  | [] => none

/-- A number. Without a fraction and an exponent it is a whole number, of at most `limit` digits if
that is given. -/
def number (limit : Option Nat) (start : Cursor) : Except Stop (Value × Cursor) :=
  let negative := start.rest.head? = some '-'
  let c := if negative then start.skip 1 else start
  match wholePart c.rest with
  | none => .error (.fault .noValue start.pos)
  | some whole =>
    let c := c.skip whole.length
    let fraction := fractionPart c.rest
    let c := match fraction with
      | some ds => c.skip (1 + ds.length)
      | none => c
    let exponent := exponentPart c.rest
    let c := match exponent with
      | some (_, n) => c.skip n
      | none => c
    match fraction, exponent with
    | none, none =>
      if limit.any (· < whole.length) then .error (.longInteger whole.length)
      else
        let n : Int := digitsValue whole
        .ok (.int (if negative then -n else n), c)
    | _, _ =>
      let ds := fraction.getD []
      let e := (exponent.map (·.1)).getD 0
      .ok (.float (.ofDecimal negative (digitsValue (whole ++ ds)) (e - ds.length)), c)

/-! ### Values -/

/-- The words that are values. -/
def words : List (List Char × Value) :=
  [("null".toList, .null), ("true".toList, .bool true), ("false".toList, .bool false),
   ("NaN".toList, .float .nan), ("Infinity".toList, .float (.infinity false)),
   ("-Infinity".toList, .float (.infinity true))]

/-- The word that the text begins with, if it is a value. -/
def word? (c : Cursor) : Option (Value × Cursor) :=
  (words.find? fun w => w.1.isPrefixOf c.rest).map fun w => (w.2, c.skip w.1.length)

section Values

variable (limit : Option Nat)

mutual

/-- The value at the cursor. Each nesting takes two steps of `fuel`. -/
def value : (fuel : Nat) → Cursor → Except Stop (Value × Cursor)
  | 0, c => .error (.fault .noValue c.pos)
  | fuel + 1, c =>
    match c.rest with
    | '"' :: cs => (scanString c.pos (c.pos + 1) cs []).map fun r => (.string r.1, r.2)
    | '[' :: _ =>
      let c := (c.skip 1).skipBlanks
      if c.rest.head? = some ']' then .ok (.array [], c.skip 1)
      else (items fuel c).map fun r => (.array r.1, r.2)
    | '{' :: _ =>
      let c := (c.skip 1).skipBlanks
      if c.rest.head? = some '}' then .ok (.object [], c.skip 1)
      else (members fuel c).map fun r => (.ofMembers r.1, r.2)
    | _ =>
      match word? c with
      | some r => .ok r
      | none => number limit c

/-- The items of an array up to and including its closing bracket. -/
def items : (fuel : Nat) → Cursor → Except Stop (List Value × Cursor)
  | 0, c => .error (.fault .noValue c.pos)
  | fuel + 1, c => do
    let (v, c) ← value fuel c
    let c := c.skipBlanks
    match c.rest with
    | ']' :: _ => pure ([v], c.skip 1)
    | ',' :: _ =>
      let (vs, c) ← items fuel (c.skip 1).skipBlanks
      pure (v :: vs, c)
    | _ => .error (.fault .noComma c.pos)

/-- The members of an object up to and including its closing brace. -/
def members : (fuel : Nat) → Cursor → Except Stop (List (Text × Value) × Cursor)
  | 0, c => .error (.fault .noName c.pos)
  | fuel + 1, c =>
    match c.rest with
    | '"' :: cs => do
      let (name, c) ← scanString c.pos (c.pos + 1) cs []
      let c := c.skipBlanks
      if c.rest.head? = some ':' then
        let (v, c) ← value fuel (c.skip 1).skipBlanks
        let c := c.skipBlanks
        match c.rest with
        | '}' :: _ => pure ([(name, v)], c.skip 1)
        | ',' :: _ =>
          let (ms, c) ← members fuel (c.skip 1).skipBlanks
          pure ((name, v) :: ms, c)
        | _ => .error (.fault .noComma c.pos)
      else .error (.fault .noColon c.pos)
    | _ => .error (.fault .noName c.pos)

end

end Values

/-- The value of a whole text: blanks, a value, blanks. -/
def document (limit : Option Nat) (cs : List Char) : Except Stop Value :=
  if cs.head? = some '\uFEFF' then .error (.fault .byteOrderMark 0)
  else do
    let (v, c) ← value limit (2 * cs.length + 2) (Cursor.skipBlanks ⟨0, cs⟩)
    let c := c.skipBlanks
    if c.rest.isEmpty then pure v else .error (.fault .extraData c.pos)

/-- A stop placed by line and column. Lines end at `\n` alone. -/
def Stop.locate (cs : List Char) : Stop → ReadError
  | .longInteger n => .longInteger n
  | .fault f pos =>
    let before := cs.take pos
    .malformed f (before.count '\n' + 1) ((before.reverse.takeWhile (· ≠ '\n')).length + 1) pos

/-- The value of a JSON text, or why there is none. A whole number in it may have at most `limit`
digits, if that is given. -/
def readWithin (limit : Option Nat) (cs : List Char) : Except ReadError Value :=
  (document limit cs).mapError (Stop.locate cs)

/-- The value of a JSON text, or why there is none. The text consists of characters; a lone
surrogate can be written in it as an escape. -/
def read (cs : List Char) : Except ReadError Value := readWithin (some Numeral.maxDigits) cs

end ScriptGate.Json
