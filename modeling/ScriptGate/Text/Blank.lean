import ScriptGate.Text.Basic

/-!
# Blanks

Two classes of blank characters, each for its own job: `isSpace` is the Unicode property of white
space, `isStripped` adds the four ASCII separators and is what is cut off the ends of an excerpt.

## Main definitions

* `Blank.isSpace`, `Blank.isStripped`: the classes.
* `Text.strip`, `Text.trim`: a text without the blanks at its ends.
-/

namespace ScriptGate

namespace Blank

/-- White space in the sense of Unicode. -/
def isSpace (c : Char) : Bool :=
  let n := c.toNat
  (0x9 ≤ n && n ≤ 0xD) || n == 0x20 || n == 0x85 || n == 0xA0 || n == 0x1680 ||
    (0x2000 ≤ n && n ≤ 0x200A) || n == 0x2028 || n == 0x2029 || n == 0x202F || n == 0x205F ||
    n == 0x3000

/-- White space, and the separators `0x1C` to `0x1F`. -/
def isStripped (c : Char) : Bool :=
  isSpace c || (0x1C ≤ c.toNat && c.toNat ≤ 0x1F)

end Blank

namespace CodePoint

/-- A character of the class `p`; a lone surrogate is in none. -/
def isChar (p : Char → Bool) : CodePoint → Bool
  | .char c => p c
  | .surrogate _ => false

end CodePoint

namespace Text

/-- The text without the code points of class `p` at either end. -/
def dropEnds (p : CodePoint → Bool) (t : Text) : Text :=
  ((t.dropWhile p).reverse.dropWhile p).reverse

/-- The text without blanks and separators at either end. -/
def strip (t : Text) : Text := dropEnds (CodePoint.isChar Blank.isStripped) t

/-- The text without white space at either end. -/
def trim (t : Text) : Text := dropEnds (CodePoint.isChar Blank.isSpace) t

end Text

end ScriptGate
