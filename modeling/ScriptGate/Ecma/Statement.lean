import ScriptGate.Ecma.Expression

/-!
# Statements of ECMAScript

A parser for statements and declarations. A semicolon may be left out before a closing brace, at the
end of the script, and where a line ends.

## Main definitions

* `Ecma.semicolon`: the end of a statement.
* `Ecma.statement`: a statement or declaration.
-/

namespace ScriptGate.Ecma

/-- Takes the semicolon at the end of a statement, or finds that it was left out. -/
def semicolon : Parser Unit := do
  if ← accept ";" then pure ()
  else
    let t ← view
    if t.lexeme = .finish || isPunct ["\x7d"] t || t.afterLineBreak then pure () else failure

section Statements

variable (nest : Nest)

/-! ### Declarations -/

/-- What a declaration binds: a name or a pattern. -/
def binding : Parser Node := do
  let t ← view
  match t.lexeme with
  | .punct "[" | .punct "\x7b" =>
    let n ← if isPunct ["["] t then array nest else object nest
    match toPattern? n with
    | some p => pure p
    | none => failure
  | _ =>
    let t ← freeName
    pure (leaf "identifier" t)

/-- One bound name or pattern, with its value if it has one. -/
def declarator (withIn : Bool) (target : Node) : Parser Node := do
  if ← accept "=" then
    let v ← plain nest withIn
    node "variable_declarator" target.start [target, inField v .value]
  else node "variable_declarator" target.start [target]

/-- The declarators after the first. -/
def moreDeclarators (withIn : Bool) (first : Node) : Parser (List Node) :=
  iterate (fun (acc : List Node) => do
    if ← accept "," then
      let target ← binding nest
      let d ← declarator nest withIn target
      pure (.inl (d :: acc))
    else pure (.inr acc.reverse)) [first]

/-- The kind of declaration that a word begins. -/
def declarationKind (t : Token) : String :=
  if isWord ["var"] t then "variable_declaration" else "lexical_declaration"

/-- The word in view begins a declaration of variables. -/
def beginsDeclaration : Parser Bool := do
  let t ← view
  if isWord ["var", "const"] t then pure true
  else if isWord ["let"] t then
    let next ← following
    match next.lexeme with
    | .name cs => pure (cs ∉ reservedWords)
    | .punct p => pure (p = "[" || p = "\x7b")
    | _ => pure false
  else pure false

/-- A function or class with a name begins here. -/
def beginsNamed : Parser Bool := do
  let name ← lookahead (do
    let _ ← acceptWord "async"
    if ← acceptWord "class" then freeName
    else
      let _ ← expectWord "function"
      let _ ← accept "*"
      freeName)
  pure name.isSome

/-- A declaration of variables. -/
def declaration : Parser Node := do
  let t ← advance
  let target ← binding nest
  let first ← declarator nest true target
  let ds ← moreDeclarators nest true first
  semicolon
  node (declarationKind t) t.start ds

/-! ### Control flow -/

/-- A condition between parentheses. -/
def condition : Parser Node := do
  let _ ← expect "("
  let e ← expression nest
  let _ ← expect ")"
  pure e

/-- A conditional statement. -/
def ifStatement : Parser Node := do
  let t ← advance
  let c ← condition nest
  let yes ← nest.statement
  let no ← if ← acceptWord "else" then do
      let n ← nest.statement
      pure [inField n .alternative]
    else pure []
  node "if_statement" t.start ([inField c .condition, inField yes .consequence] ++ no)

/-- A loop, or another statement, with a condition before its body. -/
def conditioned (kind : String) : Parser Node := do
  let t ← advance
  let c ← condition nest
  let body ← nest.statement
  node kind t.start [inField c .condition, inField body .body]

/-- A loop with its condition after its body. The semicolon may always be left out. -/
def doStatement : Parser Node := do
  let t ← advance
  let body ← nest.statement
  let _ ← expectWord "while"
  let c ← condition nest
  let _ ← accept ";"
  node "do_statement" t.start [inField body .body, inField c .condition]

/-- The rest of a loop over the members of an object, from `in` or `of` on. What it assigns to, with
the first value if one is written, stands before that. -/
def forIn (start : Nat) (left : Node) (value : List Node) : Parser Node := do
  let _ ← advance
  let right ← expression nest
  let _ ← expect ")"
  let body ← nest.statement
  node "for_in_statement" start
    ([inField left .left] ++ value ++ [inField right .right, inField body .body])

/-- The rest of a counting loop, from its first semicolon on. -/
def forCounting (start : Nat) (first : List Node) : Parser Node := do
  let _ ← expect ";"
  let c ← if ← sees ";" then pure [] else do
    let e ← expression nest
    pure [inField e .condition]
  let _ ← expect ";"
  let step ← if ← sees ")" then pure [] else do
    let e ← expression nest
    pure [e]
  let _ ← expect ")"
  let body ← nest.statement
  node "for_statement" start (first ++ c ++ step ++ [inField body .body])

/-- A loop that begins with `for`. With `await` it is no counting loop. -/
def forStatement : Parser Node := do
  let t ← advance
  let awaits ← acceptWord "await"
  let counting := fun first => if awaits then failure else forCounting nest t.start first
  let _ ← expect "("
  if ← sees ";" then counting []
  else if ← beginsDeclaration then
    let word ← advance
    let target ← binding nest
    let next ← view
    if isWord ["in", "of"] next then forIn nest t.start target []
    else
      let first ← declarator nest false target
      let next ← view
      if isWord ["var"] word && isWord ["in", "of"] next then
        forIn nest t.start target (first.children.drop 1)
      else
        let ds ← moreDeclarators nest false first
        let d ← node (declarationKind word) word.start ds
        counting [d]
  else
    let left ← nest.assignment false
    let next ← view
    if isWord ["in", "of"] next then
      match toAssignable? left with
      | some target => forIn nest t.start target []
      | none => failure
    else if isPatternOnly left then failure
    else
      let es ← iterate (fun (acc : List Node) => do
        if ← accept "," then
          let e ← plain nest false
          pure (.inl (e :: acc))
        else pure (.inr acc.reverse)) [left]
      counting es

/-- The statements of a case, up to the next case or the closing brace. -/
def caseBody : Parser (List Node) :=
  iterate (fun (acc : List Node) => do
    let t ← view
    if isWord ["case", "default"] t || isPunct ["\x7d"] t then pure (.inr acc.reverse)
    else
      let n ← nest.statement
      pure (.inl (n :: acc))) []

/-- A choice between cases. -/
def switchStatement : Parser Node := do
  let t ← advance
  let c ← condition nest
  let brace ← expect "\x7b"
  let cases ← iterate (fun (acc : List Node) => do
    let t ← view
    if ← accept "\x7d" then pure (.inr acc.reverse)
    else if ← acceptWord "default" then
      let _ ← expect ":"
      let body ← caseBody nest
      let n ← node "switch_default" t.start body
      pure (.inl (n :: acc))
    else
      let _ ← expectWord "case"
      let v ← expression nest
      let _ ← expect ":"
      let body ← caseBody nest
      let n ← node "switch_case" t.start (inField v .value :: body)
      pure (.inl (n :: acc))) []
  let body ← node "switch_body" brace.start cases
  node "switch_statement" t.start [inField c .value, inField body .body]

/-- A block with the blocks that handle its failure and its end, at least one of them. -/
def tryStatement : Parser Node := do
  let t ← advance
  let body ← block nest
  let word ← view
  let handler ← if ← acceptWord "catch" then do
      let caught ← if ← accept "(" then do
          let p ← binding nest
          let _ ← expect ")"
          pure [inField p .parameter]
        else pure []
      let b ← block nest
      let n ← node "catch_clause" word.start (caught ++ [inField b .body])
      pure [n]
    else pure []
  let word ← view
  let finalizer ← if ← acceptWord "finally" then do
      let b ← block nest
      let n ← node "finally_clause" word.start [inField b .body]
      pure [n]
    else pure []
  if handler.isEmpty && finalizer.isEmpty then failure
  node "try_statement" t.start (inField body .body :: handler ++ finalizer)

/-- A statement that ends the work at hand, with an expression on the same line if there is one. -/
def leaving (kind : String) (required : Bool) : Parser Node := do
  let t ← advance
  let next ← view
  let ends := next.lexeme = .finish || isPunct [";", "\x7d"] next || next.afterLineBreak
  if ends then
    if required then failure
    semicolon
    node kind t.start []
  else
    let e ← expression nest
    semicolon
    node kind t.start [e]

/-- A jump to the end or the next round of a loop, with a label on the same line if there is one. -/
def jump (kind : String) : Parser Node := do
  let t ← advance
  let next ← view
  let label ← match next.lexeme with
    | .name _ =>
      if next.afterLineBreak then pure []
      else do
        let l ← freeName
        pure [leaf "statement_identifier" l]
    | _ => pure []
  semicolon
  node kind t.start label

/-! ### Modules -/

/-- The name of a value outside its module: a free name, `default` or a string. -/
def outerName : Parser Node := do
  let t ← view
  if t.lexeme = .string then
    let _ ← advance
    pure (leaf "string" t)
  else if ← acceptWord "default" then pure (leaf "identifier" t)
  else
    let t ← freeName
    pure (leaf "identifier" t)

/-- A name in a list of exports, with the name that it has outside if that is another. -/
def exportedName : Parser Node := do
  let t ← view
  let name ← outerName
  let outside ← if ← acceptWord "as" then do
      let n ← outerName
      pure [n]
    else pure []
  node "export_specifier" t.start (name :: outside)

/-- A name in a list of imports, with the free name that it has inside if that is another. -/
def importedName : Parser Node := do
  let t ← view
  let name ← outerName
  if ← acceptWord "as" then
    let inside ← freeName
    node "import_specifier" t.start [name, leaf "identifier" inside]
  else if isWord ["default"] t || t.lexeme = .string then failure
  else node "import_specifier" t.start [name]

/-- A list of names between braces. -/
def moduleNames (name : Parser Node) : Parser (List Node) := do
  let _ ← expect "\x7b"
  let (names, _) ← items "\x7d" false name
  pure names

/-- The module that names come from. -/
def moduleSource : Parser Node := do
  let t ← view
  if t.lexeme = .string then
    let _ ← advance
    pure (leaf "string" t)
  else failure

/-- All names of a module under one name, or a list of its names. -/
def moduleBindings : Parser (List Node) := do
  if ← accept "*" then
    let _ ← expectWord "as"
    let t ← freeName
    pure [leaf "identifier" t]
  else moduleNames importedName

/-- An import declaration, which may end with attributes of the module. -/
def importStatement : Parser Node := do
  let t ← advance
  let next ← view
  let names ← if next.lexeme = .string then pure []
    else do
      let first ← if isPunct ["*", "\x7b"] next then moduleBindings
        else do
          let n ← freeName
          let more ← if ← accept "," then moduleBindings else pure []
          pure (leaf "identifier" n :: more)
      let _ ← expectWord "from"
      pure first
  let source ← moduleSource
  let attributes ← if ← acceptWord "with" then do
      let o ← object nest
      if isPatternOnly o then failure else pure [o]
    else pure []
  semicolon
  node "import_statement" t.start (names ++ [source] ++ attributes)

/-- An export declaration. -/
def exportStatement : Parser Node := do
  let t ← advance
  if ← accept "*" then
    let names ← if ← acceptWord "as" then do
        let n ← outerName
        pure [n]
      else pure []
    let _ ← expectWord "from"
    let source ← moduleSource
    semicolon
    node "export_statement" t.start (names ++ [source])
  else if ← sees "\x7b" then
    let names ← moduleNames exportedName
    let source ← if ← acceptWord "from" then do
        let source ← moduleSource
        pure [source]
      else pure []
    semicolon
    node "export_statement" t.start (names ++ source)
  else if ← acceptWord "default" then
    if ← beginsNamed then
      let n ← nest.statement
      node "export_statement" t.start [n]
    else
      let e ← plain nest true
      semicolon
      node "export_statement" t.start [e]
  else
    let n ← nest.statement
    if n.kind ∈ ["variable_declaration", "lexical_declaration", "function_declaration",
        "generator_function_declaration", "class_declaration"] then
      node "export_statement" t.start [n]
    else failure

/-! ### Statements -/

/-- An expression as a statement. -/
def expressionStatement : Parser Node := do
  let e ← expression nest
  semicolon
  node "expression_statement" e.start [e]

/-- A function or class with a name is a declaration that needs no semicolon; without one it is an
expression. -/
def definition : Parser Node := do
  let t ← view
  if ← beginsNamed then
    if ← seesWord "class" then classFrom nest t.start true nest.unary
    else
      let _ ← acceptWord "async"
      functionFrom nest t.start true
  else expressionStatement nest

/-- A statement or declaration. -/
def statement : Parser Node := do
  let t ← view
  match t.lexeme with
  | .punct "\x7b" => block nest
  | .punct ";" =>
    let _ ← advance
    node "empty_statement" t.start []
  | .name cs =>
    let next ← following
    if ← beginsDeclaration then declaration nest
    else if isWord ["if"] t then ifStatement nest
    else if isWord ["while"] t then conditioned nest "while_statement"
    else if isWord ["with"] t then conditioned nest "with_statement"
    else if isWord ["do"] t then doStatement nest
    else if isWord ["for"] t then forStatement nest
    else if isWord ["switch"] t then switchStatement nest
    else if isWord ["try"] t then tryStatement nest
    else if isWord ["return"] t then leaving nest "return_statement" false
    else if isWord ["throw"] t then leaving nest "throw_statement" true
    else if isWord ["break"] t then jump "break_statement"
    else if isWord ["continue"] t then jump "continue_statement"
    else if isWord ["debugger"] t then
      let _ ← advance
      semicolon
      node "debugger_statement" t.start []
    else if isWord ["import"] t && !isPunct ["(", "."] next then importStatement nest
    else if isWord ["export"] t then exportStatement nest
    else if isWord ["function", "class"] t ||
        (isWord ["async"] t && isWord ["function"] next && !next.afterLineBreak) then
      definition nest
    else if cs ∉ reservedWords && isPunct [":"] next then
      let _ ← advance
      let _ ← advance
      let body ← nest.statement
      node "labeled_statement" t.start [leaf "statement_identifier" t, inField body .body]
    else expressionStatement nest
  | _ => expressionStatement nest

end Statements

end ScriptGate.Ecma
