import ScriptGate.Ecma.Lexeme
import ScriptGate.Syntax.Node
import ScriptGate.Text.Utf8

/-!
# Parsers over a script

A parser reads a script from left to right with one lexeme in view and can fail. Comments are set
aside as they are passed and become children of the innermost node that covers them.

## Main definitions

* `Ecma.Token`, `Ecma.State`, `Ecma.Parser`: the lexeme in view, the state and the parsers.
* `Ecma.advance`, `Ecma.expect`, `Ecma.accept`: moving on.
* `Ecma.node`, `Ecma.leaf`: building the tree.
* `Ecma.iterate`: repetition.
-/

namespace ScriptGate.Ecma

/-- The lexeme in view: its place in bytes, the characters from it on, and whether a line ends
between it and the lexeme before it. -/
structure Token where
  lexeme : Lexeme
  start : Nat
  stop : Nat
  chars : List Char
  afterLineBreak : Bool

/-- Where a parser stands: the lexeme in view, the characters after it and their place, the end of
the lexeme before it, the comments that belong to no node yet, and a number that no repetition
exceeds. -/
structure State where
  token : Token
  rest : List Char
  offset : Nat
  lastStop : Nat
  comments : List Node
  bound : Nat

/-- A parser changes the state and gives a result, or fails. -/
abbrev Parser := StateT State Option

/-! ### Blanks, comments and lexemes -/

/-- The number of bytes that characters take. -/
def byteLength : List Char → Nat
  | [] => 0
  | c :: cs => (Utf8.encodeChar c).length + byteLength cs

/-- A node that is marked as a construct of its own, without errors. -/
def bare (kind : String) (start stop : Nat) (children : List Node) : Node :=
  ⟨kind, start, stop, true, false, false, false, none, children⟩

/-- Passes blanks and comments: the characters after them and their place, whether a line ended, and
the comments, latest first. -/
def skipTrivia : (fuel : Nat) → List Char → (offset : Nat) → (lineBreak : Bool) →
    (comments : List Node) → List Char × Nat × Bool × List Node
  | 0, cs, offset, lineBreak, comments => (cs, offset, lineBreak, comments)
  | fuel + 1, cs, offset, lineBreak, comments =>
    let comment (n : Nat) :=
      let body := cs.take n
      let stop := offset + byteLength body
      skipTrivia fuel (cs.drop n) stop (lineBreak || body.any isLineBreak)
        (bare "comment" offset stop [] :: comments)
    match cs with
    | '/' :: '/' :: rest => comment (2 + lineCommentLength rest)
    | '/' :: '*' :: rest =>
      match blockCommentLength? rest with
      | some n => comment (2 + n)
      | none => (cs, offset, lineBreak, comments)
    | c :: rest =>
      if isBlank c then
        skipTrivia fuel rest (offset + byteLength [c]) (lineBreak || isLineBreak c) comments
      else (cs, offset, lineBreak, comments)
    | [] => (cs, offset, lineBreak, comments)

/-- The state whose view is the first lexeme of the given characters. -/
def viewFrom (cs : List Char) (offset lastStop : Nat) (comments : List Node) (bound : Nat) :
    State :=
  let (cs, offset, lineBreak, comments) := skipTrivia (bound + 1) cs offset false comments
  let (lexeme, n) := lex cs
  let stop := offset + byteLength (cs.take n)
  ⟨⟨lexeme, offset, stop, cs, lineBreak⟩, cs.drop n, stop, lastStop, comments, bound⟩

/-! ### Moving on -/

/-- The lexeme in view. -/
def view : Parser Token := do
  let s ← get
  pure s.token

/-- Takes the lexeme in view and brings the next one into view. -/
def advance : Parser Token := do
  let s ← get
  set (viewFrom s.rest s.offset s.token.stop s.comments s.bound)
  pure s.token

/-- Takes `n` characters more than the lexeme in view, as part of it. -/
def extend (n : Nat) : Parser Unit := do
  let s ← get
  let stop := s.offset + byteLength (s.rest.take n)
  set (viewFrom (s.rest.drop n) stop stop s.comments s.bound)

/-- Goes back to the start of the lexeme in view and takes `n` characters from there. -/
def retake (n : Nat) : Parser Unit := do
  let s ← get
  let stop := s.token.start + byteLength (s.token.chars.take n)
  set (viewFrom (s.token.chars.drop n) stop stop s.comments s.bound)

/-- Runs a parser and goes back to where it began. -/
def lookahead {α : Type} (p : Parser α) : Parser (Option α) := fun s =>
  match p s with
  | some (a, _) => some (some a, s)
  | none => some (none, s)

/-- Runs a parser; if it fails, goes back to where it began. -/
def attempt {α : Type} (p : Parser α) : Parser (Option α) := fun s =>
  match p s with
  | some (a, s') => some (some a, s')
  | none => some (none, s)

/-- The lexeme in view is the given punctuator. -/
def sees (p : String) : Parser Bool := do
  let t ← view
  pure (t.lexeme = .punct p)

/-- The lexeme in view is the given word. -/
def seesWord (w : String) : Parser Bool := do
  let t ← view
  pure (t.lexeme = .name w.toList)

/-- Takes the given punctuator. -/
def expect (p : String) : Parser Token := do
  if ← sees p then advance else failure

/-- Takes the given word. -/
def expectWord (w : String) : Parser Token := do
  if ← seesWord w then advance else failure

/-- Takes the given punctuator if it is in view. -/
def accept (p : String) : Parser Bool := do
  if ← sees p then
    let _ ← advance
    pure true
  else pure false

/-- Takes the given word if it is in view. -/
def acceptWord (w : String) : Parser Bool := do
  if ← seesWord w then
    let _ ← advance
    pure true
  else pure false

/-- The lexeme after the one in view. -/
def following : Parser Token := do
  let next ← lookahead (do let _ ← advance; view)
  match next with
  | some t => pure t
  | none => failure

/-- Repeats a step until it gives a result. -/
def iterateWithin {σ α : Type} (step : σ → Parser (σ ⊕ α)) : (fuel : Nat) → σ → Parser α
  | 0, _ => failure
  | fuel + 1, x => do
    match ← step x with
    | .inl next => iterateWithin step fuel next
    | .inr result => pure result

/-- Repeats a step until it gives a result. Every step but the last takes a lexeme, so the number of
characters bounds the repetitions. -/
def iterate {σ α : Type} (step : σ → Parser (σ ⊕ α)) (start : σ) : Parser α := do
  let s ← get
  iterateWithin step (s.bound + 2) start

/-! ### Building the tree -/

/-- The node as the given part of its parent. -/
def inField (n : Node) (f : Field) : Node := { n with field := some f }

/-- Children in the order of their places. -/
def ordered (children : List Node) : List Node := children.mergeSort fun a b => a.start ≤ b.start

/-- A node from `start` to the end of the last lexeme taken. Comments that it covers, and that no
child covers, become its children. -/
def node (kind : String) (start : Nat) (children : List Node) : Parser Node := do
  let s ← get
  let covered := fun (c : Node) => start ≤ c.start && c.stop ≤ s.lastStop
  set { s with comments := s.comments.filter fun c => !covered c }
  pure (bare kind start s.lastStop (ordered (children ++ (s.comments.filter covered).reverse)))

/-- A node over the given token. -/
def leaf (kind : String) (t : Token) : Node := bare kind t.start t.stop []

/-- The token of an operator. -/
def operatorToken (text : String) (t : Token) : Node :=
  { leaf text t with isNamed := false, field := some .operator }

end ScriptGate.Ecma
