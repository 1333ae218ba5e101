/-!
# Text with lone surrogates

A text is a sequence of Unicode code points. Text decoded from `\u` escapes may hold one half of a
surrogate pair on its own, which no encoding can carry and Lean's `String` cannot hold, so a code
point is either a character or a lone surrogate.

## Main definitions

* `CodePoint`, `Text`: the alphabet and the sequences over it.
* `Text.ofString`, `Text.toString`: the passage from and to strings of characters.
* `Text.le`, `Text.sortedSet`: the order by code point, and the members of a list in that order.
* `Text.hex`, `Text.ofNat`, `Text.ofInt`: numerals.
-/

namespace ScriptGate

/-- A Unicode code point: a character, or a surrogate that stands alone. -/
inductive CodePoint where
  | char (c : Char)
  | surrogate (k : Fin 0x800)
  deriving DecidableEq, Repr, Inhabited

namespace CodePoint

/-- The number of the code point; surrogates begin at `0xD800`. -/
def val : CodePoint → Nat
  | char c => c.toNat
  | surrogate k => 0xD800 + k.val

/-- The code point with the given number; numbers past the last code point give NUL. -/
def ofNat (n : Nat) : CodePoint :=
  if 0xD800 ≤ n then
    if h : n - 0xD800 < 0x800 then surrogate ⟨n - 0xD800, h⟩ else char (Char.ofNat n)
  else char (Char.ofNat n)

/-- A surrogate that opens a pair. -/
def isHigh : CodePoint → Bool
  | char _ => false
  | surrogate k => k.val < 0x400

/-- A surrogate that closes a pair. -/
def isLow : CodePoint → Bool
  | char _ => false
  | surrogate k => 0x400 ≤ k.val

end CodePoint

/-- A sequence of code points. -/
abbrev Text := List CodePoint

/-- Texts that compare as equal are equal. -/
instance lawfulBEqText : LawfulBEq Text := inferInstanceAs (LawfulBEq (List CodePoint))

/-- Lists of characters that compare as equal are equal. -/
instance lawfulBEqChars : LawfulBEq (List Char) := inferInstance

namespace Text

/-- The characters of a list, as text. -/
def ofChars (cs : List Char) : Text := cs.map CodePoint.char

/-- The characters of a string, as text. -/
def ofString (s : String) : Text := ofChars s.toList

instance : Coe String Text := ⟨ofString⟩

/-- Several strings, each as text. -/
def ofStrings (ss : List String) : List Text := ss.map ofString

/-- The characters of a text; a lone surrogate is shown as the replacement character. -/
def toChars (t : Text) : List Char :=
  t.map fun
    | .char c => c
    | .surrogate _ => '�'

/-- The text as a string; a lone surrogate is shown as the replacement character. -/
def toString (t : Text) : String := String.ofList (toChars t)

/-! ### Order -/

/-- Lexicographic order by code point. -/
def le : Text → Text → Bool
  | [], _ => true
  | _ :: _, [] => false
  | a :: s, b :: t => if a.val < b.val then true else if b.val < a.val then false else le s t

/-- The members of a list, each once, in the order by code point. -/
def sortedSet (ts : List Text) : List Text := ts.eraseDups.mergeSort le

/-! ### Numerals -/

/-- The decimal numeral of a natural number. -/
def ofNat (n : Nat) : Text := ofString (Nat.repr n)

/-- The decimal numeral of an integer. -/
def ofInt : Int → Text
  | .ofNat n => ofNat n
  | .negSucc n => .char '-' :: ofNat (n + 1)

/-- The lower-case hexadecimal numeral of `n`, in exactly `width` digits. -/
def hex : (width n : Nat) → Text
  | 0, _ => []
  | w + 1, n => hex w (n / 16) ++ [.char (Nat.digitChar (n % 16))]

/-- The decimal numeral of `n`, with zeros in front up to `width` digits. -/
def padded (width n : Nat) : Text :=
  let digits := ofNat n
  List.replicate (width - digits.length) (.char '0') ++ digits

/-! ### Joining and line ends -/

/-- The texts one after the other, with `sep` between neighbours. -/
def join (sep : Text) (ts : List Text) : Text := List.intercalate sep ts

/-- Every line end, `\r\n` or `\r`, written as `\n`. -/
def unixLines : List Char → List Char
  | '\r' :: '\n' :: cs => '\n' :: unixLines cs
  | '\r' :: cs => '\n' :: unixLines cs
  | c :: cs => c :: unixLines cs
  | [] => []

end Text

end ScriptGate
