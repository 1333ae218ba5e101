import ScriptGate.Text.Printable

/-!
# Quoted text

Text shown between quotes on one line of printable characters. Single quotes are used unless the
text holds a single quote and no double quote. The quote, the backslash and every code point that is
not printable are written as escapes.

## Main definitions

* `Quoted.escape`: how one code point is written.
* `Text.quoted`: the quoted form of a text.
-/

namespace ScriptGate

namespace Quoted

/-- The written form of a code point between quotes `q`. -/
def escape (q : Char) (c : CodePoint) : Text :=
  if c = .char '\\' then [.char '\\', .char '\\']
  else if c = .char q then [.char '\\', .char q]
  else if c = .char '\n' then [.char '\\', .char 'n']
  else if c = .char '\r' then [.char '\\', .char 'r']
  else if c = .char '\t' then [.char '\\', .char 't']
  else if c.isPrintable then [c]
  else if c.val < 0x100 then [.char '\\', .char 'x'] ++ Text.hex 2 c.val
  else if c.val < 0x10000 then [.char '\\', .char 'u'] ++ Text.hex 4 c.val
  else [.char '\\', .char 'U'] ++ Text.hex 8 c.val

/-- The quote that a text is shown between. -/
def quote (t : Text) : Char :=
  if .char '\'' ∈ t ∧ .char '"' ∉ t then '"' else '\''

end Quoted

/-- The text between quotes, on one line of printable characters. -/
def Text.quoted (t : Text) : Text :=
  let q := Quoted.quote t
  .char q :: t.flatMap (Quoted.escape q) ++ [.char q]

end ScriptGate
