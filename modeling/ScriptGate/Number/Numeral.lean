import ScriptGate.Text.Blank
import ScriptGate.Text.Digit

/-!
# Numerals

Whole numbers as people write them: a sign, and digits that may be set off in groups by single
underscores.

## Main definitions

* `Numeral.grouped?`: the digits of a numeral without a sign.
* `Numeral.signed?`: the number of a numeral with or without a sign.
* `Numeral.ofText?`: the number of a text with blanks around the numeral.
-/

namespace ScriptGate.Numeral

/-- Digits with single underscores between them. -/
def grouped? (digit? : Char → Option Nat) : List Char → Option (List Nat)
  | [] => none
  | [c] => (digit? c).map ([·])
  | c :: '_' :: rest => (digit? c).bind fun d => (grouped? digit? rest).map (d :: ·)
  | c :: rest => (digit? c).bind fun d => (grouped? digit? rest).map (d :: ·)

/-- The number that decimal digits write. -/
def value (ds : List Nat) : Nat := ds.foldl (fun n d => n * 10 + d) 0

/-- A sign and what follows it; without a sign the number is not negative. -/
def splitSign : List Char → Bool × List Char
  | '-' :: rest => (true, rest)
  | '+' :: rest => (false, rest)
  | cs => (false, cs)

/-- The number of a numeral with or without a sign, of at most `limit` digits if that is given. -/
def signed? (digit? : Char → Option Nat) (limit : Option Nat) (cs : List Char) : Option Int :=
  let (negative, cs) := splitSign cs
  (grouped? digit? cs).bind fun ds =>
    if limit.any (· < ds.length) then none
    else some (if negative then -(value ds : Int) else value ds)

/-- The most digits of a whole number that is read from a text. -/
def maxDigits : Nat := 4300

/-- The number of a text: a numeral in the digits of any script, with blanks around it. -/
def ofText? (cs : List Char) : Option Int :=
  signed? Digit.value? (some maxDigits) (Text.ofChars cs).trim.toChars

end ScriptGate.Numeral
