import ScriptGate.Ecma.Statement

/-!
# Scripts of ECMAScript

The parser for whole scripts. A script that is none gives a tree that says so and nothing more.

## Main definitions

* `Ecma.Nest.ofDepth`: the parsers for constructs down to a depth.
* `Ecma.parse`: the tree of a script.
-/

namespace ScriptGate.Ecma

/-- The parsers for constructs that go down at most the given number of times. -/
def Nest.ofDepth : Nat → Nest
  | 0 => ⟨fun _ => failure, failure, failure⟩
  | depth + 1 =>
    { assignment := fun withIn s => Ecma.assignment (ofDepth depth) withIn s
      unary := fun s => Ecma.unary (ofDepth depth) s
      statement := fun s => Ecma.statement (ofDepth depth) s }

/-- The statements of a script up to its end. -/
def statements (nest : Nest) : Parser (List Node) :=
  iterate (fun (acc : List Node) => do
    let t ← view
    if t.lexeme = .finish then pure (.inr acc.reverse)
    else
      let n ← nest.statement
      pure (.inl (n :: acc))) []

/-- A first line that names an interpreter: the node for it and the characters after it. -/
def hashBang : List Char → List Node × List Char × Nat
  | '#' :: '!' :: rest =>
    let n := 2 + lineCommentLength rest
    let line := ('#' :: '!' :: rest).take n
    ([bare "hash_bang_line" 0 (byteLength line) []], rest.drop (n - 2), byteLength line)
  | cs => ([], cs, 0)

/-- The tree of a script, if it is one. Of two steps down at least one takes a character, which
bounds their number. -/
def parse? (cs : List Char) : Option Node :=
  let (first, rest, offset) := hashBang cs
  let start := viewFrom rest offset offset [] cs.length
  match (statements (Nest.ofDepth (2 * cs.length + 2))).run start with
  | some (ns, s) =>
    some (bare "program" 0 (byteLength cs) (ordered (first ++ ns ++ s.comments.reverse)))
  | none => none

/-- The tree of a script. For a text that is no script it is a root that has an error in it. -/
def parse (cs : List Char) : Node :=
  (parse? cs).getD { bare "program" 0 (byteLength cs) [] with hasError := true }

end ScriptGate.Ecma
