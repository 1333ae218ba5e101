import ScriptGate.Text.Blank

/-!
# Lexemes of ECMAScript

The words of a script: names, numbers, strings, punctuators and what stands between them. A script
is cut up on demand, since only the parser knows whether a slash divides or opens a regular
expression. Every function here looks at the head of a text and tells how many characters a lexeme
takes.

## Main definitions

* `Ecma.isBlank`, `Ecma.isLineBreak`, `Ecma.isNamePart`: the classes of characters.
* `Ecma.nameLength`, `Ecma.numberLength`, `Ecma.stringLength?`, `Ecma.regexLength?`: the lexemes.
* `Ecma.templateChunk?`: the characters of a template literal up to its end or a substitution.
* `Ecma.Lexeme`, `Ecma.lex`: the lexeme at the head of a text.
-/

namespace ScriptGate.Ecma

/-! ### Characters -/

/-- Blanks between lexemes: white space but for the control `0x85`, and three characters that take
no room. -/
def isBlank (c : Char) : Bool :=
  (Blank.isSpace c && c ≠ '\u0085') || c = '\uFEFF' || c = '\u2060' || c = '\u200B'

/-- Ends of lines, where a semicolon may be left out. -/
def isLineBreak (c : Char) : Bool := c = '\n' || c = '\u2028' || c = '\u2029'

/-- Characters that are lexemes, or parts of lexemes, other than names. -/
def punctuation : List Char := ":;`\"'@#.,|^&<=>+-*/\\%?!~()[]\x7b\x7d".toList

/-- Characters of names: all but controls, blanks and punctuation. -/
def isNamePart (c : Char) : Bool := 0x20 ≤ c.toNat && !isBlank c && c ∉ punctuation

/-- Characters that a name may begin with. -/
def isNameStart (c : Char) : Bool := isNamePart c && !c.isDigit

/-- Hexadecimal digits. -/
def isHex (c : Char) : Bool :=
  c.isDigit || ('a' ≤ c && c ≤ 'f') || ('A' ≤ c && c ≤ 'F')

/-- Octal digits. -/
def isOctal (c : Char) : Bool := '0' ≤ c && c ≤ '7'

/-! ### Comments -/

/-- The length of a comment up to the end of its line. -/
def lineCommentLength (cs : List Char) : Nat :=
  (cs.takeWhile fun c => c ≠ '\r' && !isLineBreak c).length

/-- The length of a comment after its `/*`, up to and including the `*/`. -/
def blockCommentLength? : List Char → Option Nat
  | '*' :: '/' :: _ => some 2
  | _ :: cs => (blockCommentLength? cs).map (· + 1)
  | [] => none

/-! ### Names -/

/-- The length of one character of a name, which may be written as an escape. -/
def namePiece? : List Char → Option Nat
  | '\\' :: 'u' :: '{' :: cs =>
    let digits := cs.takeWhile isHex
    if digits.isEmpty || (cs.drop digits.length).head? ≠ some '}' then none
    else some (digits.length + 4)
  | '\\' :: 'u' :: a :: b :: c :: d :: _ => if [a, b, c, d].all isHex then some 6 else none
  | c :: _ => if isNamePart c then some 1 else none
  | [] => none

/-- The length of the name at the head, of at most `fuel` characters. -/
def nameLengthWithin : (fuel : Nat) → List Char → Nat
  | 0, _ => 0
  | fuel + 1, cs =>
    match namePiece? cs with
    | some n => n + nameLengthWithin fuel (cs.drop n)
    | none => 0

/-- The length of the name at the head; zero if there is none. -/
def nameLength (cs : List Char) : Nat :=
  match cs with
  | c :: _ => if c.isDigit then 0 else nameLengthWithin cs.length cs
  | [] => 0

/-! ### Numbers -/

/-- The length of further digits of class `p`, single underscores between them. -/
def moreDigits (p : Char → Bool) : List Char → Nat
  | '_' :: c :: cs => if p c then 2 + moreDigits p cs else 0
  | c :: cs => if p c then 1 + moreDigits p cs else 0
  | [] => 0

/-- The length of a run of digits of class `p`. -/
def digitRun (p : Char → Bool) : List Char → Nat
  | c :: cs => if p c then 1 + moreDigits p cs else 0
  | [] => 0

/-- The length of an exponent; zero if there is none. -/
def exponentLength : List Char → Nat
  | e :: cs =>
    if e = 'e' ∨ e = 'E' then
      let signs := match cs with
        | '+' :: _ | '-' :: _ => 1
        | _ => 0
      match digitRun Char.isDigit (cs.drop signs) with
      | 0 => 0
      | n => 1 + signs + n
    else 0
  | [] => 0

/-- The digits of a literal with a base, which is told by the letter after a zero. -/
def baseDigits? (letter : Char) : Option (Char → Bool) :=
  match letter with
  | 'x' | 'X' => some isHex
  | 'o' | 'O' => some isOctal
  | 'b' | 'B' => some fun c => c = '0' || c = '1'
  | _ => none

/-- The length of a literal with a base; zero if it has no digit. -/
def baseLiteralLength : List Char → Nat
  | '0' :: letter :: cs =>
    match baseDigits? letter with
    | none => 0
    | some p =>
      match digitRun p cs with
      | 0 => 0
      | n => 2 + n
  | _ => 0

/-- Digits before a point or an exponent: no zero in front, except a single one. -/
def isWholePart : List Char → Bool
  | ['0'] => true
  | '0' :: c :: _ => '1' ≤ c && c ≤ '9'
  | _ => true

/-- The length of the number at the head; zero if there is none. -/
def numberLength (cs : List Char) : Nat :=
  let based := baseLiteralLength cs
  if 0 < based then
    if (cs.drop based).head? = some 'n' then based + 1 else based
  else
    let whole := digitRun Char.isDigit cs
    let after := cs.drop whole
    match after with
    | '.' :: fraction =>
      let digits := digitRun Char.isDigit fraction
      if whole = 0 then
        if digits = 0 then 0 else 1 + digits + exponentLength (fraction.drop digits)
      else if isWholePart (cs.take whole) then
        whole + 1 + digits + exponentLength (fraction.drop digits)
      else whole
    | 'n' :: _ => if whole = 0 then 0 else whole + 1
    | _ =>
      if whole = 0 then 0
      else if isWholePart (cs.take whole) then whole + exponentLength after
      else whole

/-! ### Strings, templates and regular expressions -/

/-- The length of an escape after its backslash. -/
def escapeLength? : List Char → Option Nat
  | 'x' :: a :: b :: _ => if isHex a && isHex b then some 3 else none
  | 'u' :: '{' :: cs =>
    let digits := cs.takeWhile isHex
    if digits.isEmpty || (cs.drop digits.length).head? ≠ some '}' then none
    else some (digits.length + 3)
  | 'u' :: a :: b :: c :: d :: _ => if [a, b, c, d].all isHex then some 5 else none
  | '\r' :: '\n' :: _ => some 2
  | c :: cs =>
    if c = 'x' || c = 'u' then none
    else if isOctal c then some (1 + ((cs.take 2).takeWhile isOctal).length)
    else some 1
  | [] => none

/-- The length of a string after its opening quote, closing quote included. -/
def stringLengthWithin (quote : Char) : (fuel : Nat) → List Char → Option Nat
  | 0, _ => none
  | fuel + 1, cs =>
    match cs with
    | [] => none
    | '\\' :: rest => do
      let n ← escapeLength? rest
      let m ← stringLengthWithin quote fuel (rest.drop n)
      pure (1 + n + m)
    | c :: rest =>
      if c = quote then some 1
      else if c = '\n' || c = '\r' then none
      else (stringLengthWithin quote fuel rest).map (· + 1)

/-- The length of a string after its opening quote; `none` if it is not closed on its line. -/
def stringLength? (quote : Char) (cs : List Char) : Option Nat :=
  stringLengthWithin quote (cs.length + 1) cs

/-- How a run of template characters ends. -/
inductive ChunkEnd where
  | closed
  | substitution
  deriving DecidableEq, Repr

/-- The length of template characters with the mark that ends them. -/
def templateChunkWithin : (fuel : Nat) → List Char → Option (Nat × ChunkEnd)
  | 0, _ => none
  | fuel + 1, cs =>
    match cs with
    | [] => none
    | '`' :: _ => some (1, .closed)
    | '$' :: '{' :: _ => some (2, .substitution)
    | '\\' :: rest => do
      let n ← escapeLength? rest
      let (m, e) ← templateChunkWithin fuel (rest.drop n)
      pure (1 + n + m, e)
    | _ :: rest => (templateChunkWithin fuel rest).map fun r => (r.1 + 1, r.2)

/-- The length of template characters and of the mark that ends them: a backtick, or `$` and a
brace. -/
def templateChunk? (cs : List Char) : Option (Nat × ChunkEnd) :=
  templateChunkWithin (cs.length + 1) cs

/-- The length of a regular expression after its opening slash, closing slash included. A slash
inside brackets or after a backslash does not close it. -/
def regexBodyLength? : (inClass : Bool) → List Char → Option Nat
  | inClass, '\\' :: c :: cs =>
    if c = '\n' then none else (regexBodyLength? inClass cs).map (· + 2)
  | inClass, c :: cs =>
    if c = '\n' || c = '\\' then none
    else if inClass then (regexBodyLength? (c ≠ ']') cs).map (· + 1)
    else if c = '/' then some 1
    else (regexBodyLength? (c = '[') cs).map (· + 1)
  | _, [] => none

/-- The length of a regular expression after its opening slash, flags included. With nothing or a
star after the slash it would be a comment. -/
def regexLength? (cs : List Char) : Option Nat := do
  let n ← regexBodyLength? false cs
  if n = 1 || cs.head? = some '*' then none
  else pure (n + ((cs.drop n).takeWhile fun c => 'a' ≤ c && c ≤ 'z').length)

/-! ### Lexemes -/

/-- Punctuators, those that begin with others first. -/
def punctuators : List String :=
  [">>>=", "...", "===", "!==", "**=", "<<=", ">>=", ">>>", "&&=", "||=", "??=", "=>", "==", "!=",
   "<=", ">=", "&&", "||", "??", "?.", "++", "--", "+=", "-=", "*=", "/=", "%=", "&=", "|=", "^=",
   "<<", ">>", "**", "\x7b", "\x7d", "(", ")", "[", "]", ";", ",", "<", ">", "+", "-", "*", "/",
   "%", "&", "|", "^", "!", "~", "?", ":", "=", ".", "@"]

/-- The punctuator at the head. A question mark and a decimal point are two lexemes. -/
def punctuator? (cs : List Char) : Option String :=
  match cs with
  | '?' :: '.' :: c :: _ => if c.isDigit then some "?" else first cs
  | _ => first cs
where
  first (cs : List Char) : Option String := punctuators.find? fun p => p.toList.isPrefixOf cs

/-- What stands at the head of a text. -/
inductive Lexeme where
  | finish
  | name (chars : List Char)
  | privateName
  | number
  | string
  | backtick
  | punct (text : String)
  | unknown
  deriving DecidableEq, Repr

/-- The lexeme at the head of a text, and its length. -/
def lex (cs : List Char) : Lexeme × Nat :=
  match cs with
  | [] => (.finish, 0)
  | c :: rest =>
    let names := nameLength cs
    let numbers := numberLength cs
    if 0 < names then (.name (cs.take names), names)
    else if 0 < numbers then (.number, numbers)
    else if c = '#' then
      match nameLength rest with
      | 0 => (.unknown, 0)
      | n => (.privateName, n + 1)
    else if c = '"' || c = '\'' then
      match stringLength? c rest with
      | some n => (.string, n + 1)
      | none => (.unknown, 0)
    else if c = '`' then (.backtick, 1)
    else
      match punctuator? cs with
      | some p => (.punct p, p.length)
      | none => (.unknown, 0)

end ScriptGate.Ecma
