import ScriptGate.Syntax.Node
import ScriptGate.Text.Utf8

/-!
# Script sources

Syntax trees place their nodes by bytes, people by characters. A source holds a script as characters
and as bytes and turns byte offsets into character offsets, counted in code points or in UTF-16
units.

## Main definitions

* `OffsetUnit`: what character offsets count.
* `Source`: a script, its bytes and the unit of its offsets.
* `Source.offset`, `Source.span`, `Source.text`: the place and the text of a node.
* `Source.offsetVia`: the same offsets with a memo of those already computed.
-/

namespace ScriptGate

/-- What character offsets count. -/
inductive OffsetUnit where
  | codepoint
  | utf16
  deriving DecidableEq, Repr

namespace OffsetUnit

/-- The name of a unit in policy files. -/
def name : OffsetUnit → String
  | codepoint => "codepoint"
  | utf16 => "utf16"

/-- The unit of a name; every other name means code points. -/
def ofName (s : String) : OffsetUnit := if s = "utf16" then utf16 else codepoint

/-- The size of a character: two UTF-16 units past the first plane, else one. -/
def width : OffsetUnit → Char → Nat
  | codepoint, _ => 1
  | utf16, c => if c.toNat < 0x10000 then 1 else 2

/-- The size of a sequence of characters. -/
def size (u : OffsetUnit) : List Char → Nat
  | [] => 0
  | c :: cs => u.width c + size u cs

end OffsetUnit

/-- A script with its bytes and the unit in which places in it are told. -/
structure Source where
  chars : List Char
  bytes : List UInt8
  unit : OffsetUnit
  bytes_eq : bytes = Utf8.encodeChars chars

namespace Source

/-- The source of a script. -/
def ofChars (cs : List Char) (u : OffsetUnit) : Source := ⟨cs, Utf8.encodeChars cs, u, rfl⟩

/-- Every character takes one byte. -/
def isAscii (s : Source) : Bool := s.bytes.length = s.chars.length

/-- The character offset of a byte offset, found by decoding the bytes before it. -/
def decodedOffset (s : Source) (b : Nat) : Except Utf8.DecodeError Nat :=
  (Utf8.decode (s.bytes.take b)).map s.unit.size

/-- The character offset of a byte offset. In a script of ASCII characters they are the same; in any
other a byte offset has to stand between characters, and one past the end means the end. -/
def offset (s : Source) (b : Nat) : Except Utf8.DecodeError Nat :=
  if s.isAscii then .ok b else s.decodedOffset b

/-- The character offsets of the ends of a node. -/
def span (s : Source) (n : Node) : Except Utf8.DecodeError (Nat × Nat) := do
  let start ← s.offset n.start
  let stop ← s.offset n.stop
  pure (start, stop)

/-- The text between two byte offsets. -/
def slice (s : Source) (start stop : Nat) : Except Utf8.DecodeError Text :=
  (Utf8.decode ((s.bytes.drop start).take (stop - start))).map Text.ofChars

/-- The text that a node covers. -/
def text (s : Source) (n : Node) : Except Utf8.DecodeError Text := s.slice n.start n.stop

/-! ### Offsets with a memo -/

/-- Byte offsets and the character offsets computed for them. -/
abbrev Memo := List (Nat × Nat)

/-- The character offset of a byte offset, looked up if it was computed before. Only offsets that
needed decoding, and could be decoded, are kept. -/
def offsetVia (s : Source) (memo : Memo) (b : Nat) : Except Utf8.DecodeError Nat × Memo :=
  if s.isAscii then (.ok b, memo)
  else match memo.lookup b with
    | some n => (.ok n, memo)
    | none => match s.decodedOffset b with
      | .ok n => (.ok n, (b, n) :: memo)
      | .error e => (.error e, memo)

/-- The character offsets of byte offsets asked for one after the other. -/
def offsetsVia (s : Source) : Memo → List Nat → List (Except Utf8.DecodeError Nat)
  | _, [] => []
  | memo, b :: bs =>
    let (answer, memo) := s.offsetVia memo b
    answer :: offsetsVia s memo bs

end Source

end ScriptGate
