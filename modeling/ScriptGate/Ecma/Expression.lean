import ScriptGate.Ecma.Parser
import ScriptGate.Ecma.Pattern

/-!
# Expressions of ECMAScript

A parser for expressions. Each construct is read by a function of the parsers for what it contains;
a construct takes at least one lexeme before it goes down to its contents.

## Main definitions

* `Ecma.Nest`: the parsers for what a construct contains.
* `Ecma.primary`, `Ecma.leftHand`, `Ecma.unary`, `Ecma.binary`, `Ecma.assignment`: the layers of
  expressions, from the innermost on.
* `Ecma.expression`: an expression with commas.
-/

namespace ScriptGate.Ecma

/-- The parsers for what a construct contains: assignments, in which `in` may be an operator or not,
operands and statements. -/
structure Nest where
  assignment : (withIn : Bool) → Parser Node
  unary : Parser Node
  statement : Parser Node

/-! ### Names -/

/-- Words that are no names. -/
def reservedWords : List (List Char) :=
  ["break", "case", "catch", "class", "const", "continue", "debugger", "default", "delete", "do",
   "else", "export", "extends", "false", "finally", "for", "function", "if", "import", "in",
   "instanceof", "new", "null", "return", "super", "switch", "this", "throw", "true", "try",
   "typeof", "var", "void", "while", "with"].map String.toList

/-- Takes a name, which may be a reserved word. -/
def anyName : Parser Token := do
  let t ← view
  match t.lexeme with
  | .name _ => advance
  | _ => failure

/-- Takes a name that is no reserved word. -/
def freeName : Parser Token := do
  let t ← view
  match t.lexeme with
  | .name cs => if cs ∈ reservedWords then failure else advance
  | _ => failure

/-- A name used as a value. -/
def nameNode (t : Token) : Node :=
  if t.lexeme = .name "undefined".toList then leaf "undefined" t else leaf "identifier" t

/-- The lexeme is one of the given punctuators. -/
def isPunct (ps : List String) (t : Token) : Bool :=
  match t.lexeme with
  | .punct p => p ∈ ps
  | _ => false

/-- The lexeme is one of the given words. -/
def isWord (ws : List String) (t : Token) : Bool :=
  match t.lexeme with
  | .name cs => ws.any fun w => w.toList = cs
  | _ => false

section Layers

variable (nest : Nest)

/-- An expression without commas that is not a mere pattern. -/
def plain (withIn : Bool) : Parser Node := do
  let n ← nest.assignment withIn
  if isPatternOnly n then failure else pure n

/-- An expression with commas. -/
def expressionWith (withIn : Bool) : Parser Node := do
  let first ← plain nest withIn
  if ← sees "," then
    let items ← iterate (fun (acc : List Node) => do
      if ← accept "," then
        let n ← plain nest withIn
        pure (.inl (n :: acc))
      else pure (.inr acc.reverse)) [first]
    node "sequence_expression" first.start items
  else pure first

/-- An expression with commas, in which `in` is an operator. -/
def expression : Parser Node := expressionWith nest true

/-- Items between commas up to and including a closing punctuator, and whether a comma stood last.
With `holes` an item may be left out. -/
def items (close : String) (holes : Bool) (item : Parser Node) : Parser (List Node × Bool) :=
  iterate (fun (acc, comma) => do
    if ← accept close then pure (.inr (acc.reverse, comma))
    else
      let hole ← if holes then accept "," else pure false
      if hole then pure (.inl (acc, true))
      else
        let n ← item
        if ← accept "," then pure (.inl (n :: acc, true))
        else
          let _ ← expect close
          pure (.inr ((n :: acc).reverse, false)))
    (([] : List Node), false)

/-- An item with or without `...` before it. -/
def spreadOr (item : Parser Node) : Parser Node := do
  let t ← view
  if ← accept "..." then
    let n ← item
    node "spread_element" t.start [n]
  else item

/-! ### Literals -/

/-- An array. -/
def array : Parser Node := do
  let t ← expect "["
  let (elements, _) ← items "]" true (spreadOr (nest.assignment true))
  node (if elements.any forcesPattern then "array_pattern" else "array") t.start elements

/-- A template literal; the opening backtick is in view. -/
def template : Parser Node := do
  let t ← view
  let parts ← iterate (fun (acc : List Node) => do
    let s ← get
    match templateChunk? s.rest with
    | none => failure
    | some (n, .closed) =>
      extend n
      pure (.inr acc.reverse)
    | some (n, .substitution) =>
      let start := s.offset + byteLength (s.rest.take (n - 2))
      extend n
      let e ← expression nest
      if ← sees "\x7d" then
        modify fun s => { s with lastStop := s.token.stop }
        let part ← node "template_substitution" start [e]
        pure (.inl (part :: acc))
      else failure) []
  node "template_string" t.start parts

/-- A regular expression; its opening slash is in view, alone or with an equals sign. -/
def regex : Parser Node := do
  let t ← view
  match regexLength? (t.chars.drop 1) with
  | some n =>
    retake (n + 1)
    node "regex" t.start []
  | none => failure

/-! ### Functions -/

/-- Statements between braces. -/
def block : Parser Node := do
  let t ← expect "\x7b"
  let statements ← iterate (fun (acc : List Node) => do
    if ← accept "\x7d" then pure (.inr acc.reverse)
    else
      let n ← nest.statement
      pure (.inl (n :: acc))) []
  node "statement_block" t.start statements

/-- Parameters between parentheses. -/
def parameters : Parser Node := do
  let t ← expect "("
  let (ps, _) ← items ")" false (spreadOr (nest.assignment true))
  match ps.mapM toPattern? with
  | some ps => node "formal_parameters" t.start ps
  | none => failure

/-- A function from its keyword on, which `start` may stand before. -/
def functionFrom (start : Nat) (declared : Bool) : Parser Node := do
  let _ ← expectWord "function"
  let generator ← accept "*"
  let name ← if ← sees "(" then pure [] else do
    let t ← freeName
    pure [leaf "identifier" t]
  let ps ← parameters nest
  let body ← block nest
  let kind := match declared && !name.isEmpty, generator with
    | true, true => "generator_function_declaration"
    | true, false => "function_declaration"
    | false, true => "generator_function"
    | false, false => "function_expression"
  node kind start (name ++ [inField ps .parameters, inField body .body])

/-- The body of an arrow function, after its parameters. The arrow stands on their line. -/
def arrow (withIn : Bool) (start : Nat) (ps : Node) : Parser Node := do
  let t ← expect "=>"
  if t.afterLineBreak then failure
  let body ← if ← sees "\x7b" then block nest else plain nest withIn
  node "arrow_function" start [ps, inField body .body]

/-- The parameters and the body of a method. -/
def method (start : Nat) (name : Node) : Parser Node := do
  let ps ← parameters nest
  let body ← block nest
  node "method_definition" start [name, inField ps .parameters, inField body .body]

/-! ### Objects and classes -/

/-- The name of a property. -/
def propertyName : Parser Node := do
  let t ← view
  match t.lexeme with
  | .name _ =>
    let _ ← advance
    pure (leaf "property_identifier" t)
  | .privateName =>
    let _ ← advance
    pure (leaf "private_property_identifier" t)
  | .string =>
    let _ ← advance
    pure (leaf "string" t)
  | .number =>
    let _ ← advance
    pure (leaf "number" t)
  | .punct "[" =>
    let _ ← advance
    let e ← plain nest true
    let _ ← expect "]"
    node "computed_property_name" t.start [e]
  | _ => failure

/-- The lexeme begins the name of a property. -/
def beginsPropertyName (t : Token) : Bool :=
  match t.lexeme with
  | .name _ | .privateName | .string | .number => true
  | _ => isPunct ["["] t

/-- Takes a word before the name of a member. Without a name after it, or a star where one may
stand, the word is itself the name. -/
def modifier (word : String) (beforeStar sameLine : Bool) : Parser Bool := do
  if ← seesWord word then
    let next ← following
    if (beginsPropertyName next || (beforeStar && isPunct ["*"] next)) &&
        !(sameLine && next.afterLineBreak) then
      let _ ← advance
      pure true
    else pure false
  else pure false

/-- Takes what may stand before the name of a method only: `async`, and one of `get`, `set` and a
star. Tells whether anything stood there. -/
def methodMarks : Parser Bool := do
  let delayed ← modifier "async" true true
  if ← modifier "get" false false then pure true
  else if ← modifier "set" false false then pure true
  else if ← accept "*" then pure true
  else pure delayed

/-- A member of an object. -/
def objectMember : Parser Node := do
  let t ← view
  if ← sees "..." then spreadOr (nest.assignment true)
  else if ← methodMarks then
    let name ← propertyName nest
    method nest t.start name
  else
    let name ← propertyName nest
    if ← sees "(" then method nest t.start name
    else if ← accept ":" then
      let v ← nest.assignment true
      node "pair" t.start [inField name .key, inField v .value]
    else
      match t.lexeme with
      | .name cs =>
        if cs ∈ reservedWords then failure
        else if ← accept "=" then
          let v ← plain nest true
          node "object_assignment_pattern" t.start
            [leaf "shorthand_property_identifier_pattern" t, v]
        else pure (leaf "shorthand_property_identifier" t)
      | _ => failure

/-- An object. -/
def object : Parser Node := do
  let t ← expect "\x7b"
  let (members, _) ← items "\x7d" false (objectMember nest)
  node (if members.any forcesPattern then "object_pattern" else "object") t.start members

/-! ### Calls and members -/

/-- Arguments between parentheses. -/
def arguments : Parser Node := do
  let t ← expect "("
  let (args, _) ← items ")" false (spreadOr (plain nest true))
  node "arguments" t.start args

/-- The name after a dot. -/
def memberName : Parser Node := do
  let t ← view
  match t.lexeme with
  | .name _ =>
    let _ ← advance
    pure (leaf "property_identifier" t)
  | .privateName =>
    let _ ← advance
    pure (leaf "private_property_identifier" t)
  | _ => failure

/-- The index of a subscript between brackets. -/
def subscript (object : Node) (chain : List Node) : Parser Node := do
  let _ ← expect "["
  let i ← expression nest
  let _ ← expect "]"
  node "subscript_expression" object.start (inField object .object :: chain ++ [i])

/-- A call, from its arguments on. -/
def callOf (function : Node) (chain : List Node) : Parser Node := do
  let args ← arguments nest
  node "call_expression" function.start
    (inField function .function :: chain ++ [inField args .arguments])

/-- Members, subscripts, calls and template literals that follow an expression. -/
def chain (calls : Bool) (first : Node) : Parser Node :=
  iterate (fun n => do
    let t ← view
    match t.lexeme with
    | .punct "." =>
      let _ ← advance
      let name ← memberName
      let n ← node "member_expression" n.start [inField n .object, inField name .property]
      pure (.inl n)
    | .punct "?." =>
      let _ ← advance
      let mark := leaf "optional_chain" t
      if ← sees "(" then
        let n ← callOf nest n [mark]
        pure (.inl n)
      else if ← sees "[" then
        let n ← subscript nest n [mark]
        pure (.inl n)
      else
        let name ← memberName
        let n ← node "member_expression" n.start [inField n .object, mark, inField name .property]
        pure (.inl n)
    | .punct "[" =>
      let n ← subscript nest n []
      pure (.inl n)
    | .punct "(" =>
      if calls then
        let n ← callOf nest n []
        pure (.inl n)
      else pure (.inr n)
    | .backtick =>
      let text ← template nest
      let n ← node "call_expression" n.start [inField n .function, inField text .arguments]
      pure (.inl n)
    | _ => pure (.inr n)) first

/-- A class from its keyword on. -/
def classFrom (start : Nat) (declared : Bool) (leftHand : Parser Node) : Parser Node := do
  let _ ← expectWord "class"
  let name ← do
    if ← sees "\x7b" then pure []
    else if ← seesWord "extends" then pure []
    else
      let t ← freeName
      pure [leaf "identifier" t]
  let heritage ← do
    let t ← view
    if ← acceptWord "extends" then
      let parent ← leftHand
      let n ← node "class_heritage" t.start [parent]
      pure [n]
    else pure []
  let brace ← expect "\x7b"
  let members ← iterate (fun (acc : List Node) => do
    if ← accept "\x7d" then pure (.inr acc.reverse)
    else if ← accept ";" then pure (.inl acc)
    else
      let m ← classMember
      pure (.inl (m :: acc))) []
  let body ← node "class_body" brace.start members
  node (if declared && !name.isEmpty then "class_declaration" else "class") start
    (name ++ heritage ++ [inField body .body])
where
  /-- A static block, a method or a field. -/
  classMember : Parser Node := do
    let t ← view
    let next ← following
    if isWord ["static"] t && isPunct ["\x7b"] next then
      let _ ← advance
      let b ← block nest
      node "class_static_block" t.start [inField b .body]
    else
      let _ ← modifier "static" true false
      let marked ← methodMarks
      let name ← propertyName nest
      let called ← sees "("
      if marked || called then method nest t.start name
      else
        let value ← if ← accept "=" then do
            let v ← plain nest true
            pure [inField v .value]
          else pure []
        let field ← node "field_definition" t.start (inField name .property :: value)
        let after ← view
        if isPunct [";", "\x7d"] after || after.afterLineBreak then pure field else failure

/-! ### Parentheses -/

/-- What stands between parentheses, before it is known whether they hold parameters. -/
def parenthesized : Parser (Nat × List Node × Bool) := do
  let t ← expect "("
  let (es, comma) ← items ")" false (spreadOr (nest.assignment true))
  pure (t.start, es, comma)

/-- Parentheses around an expression. -/
def grouping (start : Nat) (es : List Node) (comma : Bool) : Parser Node := do
  if comma || es.any (fun e => e.kind = "spread_element" || isPatternOnly e) then failure
  match es with
  | [] => failure
  | [e] => node "parenthesized_expression" start [e]
  | first :: rest =>
    let stop := (rest.getLast?.map (·.stop)).getD first.stop
    node "parenthesized_expression" start [bare "sequence_expression" first.start stop es]

/-! ### Operands -/

/-- An expression that nothing holds together but itself. -/
def primary (leftHand : Parser Node) : Parser Node := do
  let t ← view
  match t.lexeme with
  | .number =>
    let _ ← advance
    pure (leaf "number" t)
  | .string =>
    let _ ← advance
    pure (leaf "string" t)
  | .backtick => template nest
  | .punct "/" | .punct "/=" => regex
  | .punct "[" =>
    let n ← array nest
    if isPatternOnly n then failure else pure n
  | .punct "\x7b" =>
    let n ← object nest
    if isPatternOnly n then failure else pure n
  | .punct "(" =>
    let (start, es, comma) ← parenthesized nest
    grouping start es comma
  | .name _ =>
    if isWord ["this", "super", "null", "true", "false"] t then
      let _ ← advance
      let kind := ["this", "super", "null", "true", "false"].find? fun w => isWord [w] t
      pure (leaf (kind.getD "this") t)
    else if isWord ["function"] t then functionFrom nest t.start false
    else if isWord ["class"] t then classFrom nest t.start false leftHand
    else if isWord ["import"] t then
      let _ ← advance
      if ← accept "." then
        let _ ← expectWord "meta"
        node "meta_property" t.start []
      else if ← sees "(" then pure (leaf "import" t)
      else failure
    else if isWord ["async"] t then
      let next ← following
      let _ ← if isWord ["function"] next && !next.afterLineBreak then advance else pure t
      if isWord ["function"] next && !next.afterLineBreak then functionFrom nest t.start false
      else
        let t ← advance
        pure (nameNode t)
    else
      let t ← freeName
      pure (nameNode t)
  | _ => failure

/-- The `new` words that stand before a constructor, the outermost first. -/
def newWords : Parser (List Nat) :=
  iterate (fun (acc : List Nat) => do
    if ← seesWord "new" then
      let next ← following
      if isPunct ["."] next then pure (.inr acc.reverse)
      else
        let t ← advance
        pure (.inl (t.start :: acc))
    else pure (.inr acc.reverse)) []

/-- The pseudo property `new.target`, or a primary expression. -/
def constructorOf (leftHand : Parser Node) : Parser Node := do
  let t ← view
  if ← acceptWord "new" then
    let _ ← expect "."
    let _ ← expectWord "target"
    node "meta_property" t.start []
  else primary nest leftHand

/-- A constructor under the given `new` words, the innermost first, each with its own arguments if
there are any left. -/
def newExpressions : List Nat → Node → Parser Node
  | [], n => pure n
  | start :: outer, n => do
    let n ← chain nest false n
    let args ← if ← sees "(" then do
        let args ← arguments nest
        pure [inField args .arguments]
      else pure []
    let n ← node "new_expression" start (n :: args)
    newExpressions outer n

/-- Calls, members and constructors. What `import` calls is no constructor. The expression after
`extends` is of this layer too; it is read by the operand parser of the contents. -/
def leftHand : Parser Node := do
  let starts ← newWords
  let first ← constructorOf nest nest.unary
  if !starts.isEmpty && first.kind = "import" then failure
  let n ← newExpressions nest starts.reverse first
  chain nest true n

/-- An increment or decrement after an operand on the same line. -/
def postfixOf (n : Node) : Parser Node := do
  let t ← view
  match t.lexeme with
  | .punct p =>
    if (p = "++" || p = "--") && !t.afterLineBreak then
      let _ ← advance
      node "update_expression" n.start [inField n .argument, operatorToken p t]
    else pure n
  | _ => pure n

/-- The lexeme begins an operand, so that `await` before it is an operator and `yield` takes it. -/
def startsOperand (t : Token) : Bool :=
  match t.lexeme with
  | .name _ => !isWord ["in", "instanceof"] t
  | .number | .string | .backtick | .privateName => true
  | .punct p => p ∈ ["(", "[", "\x7b", "!", "~", "+", "-", "++", "--", "/", "/="]
  | _ => false

/-- An operand with the operators before and after it. -/
def unary : Parser Node := do
  let t ← view
  match t.lexeme with
  | .punct p =>
    if p ∈ ["!", "~", "+", "-"] then
      let _ ← advance
      let n ← nest.unary
      node "unary_expression" t.start [operatorToken p t, inField n .argument]
    else if p = "++" || p = "--" then
      let _ ← advance
      let n ← nest.unary
      node "update_expression" t.start [operatorToken p t, inField n .argument]
    else
      let n ← leftHand nest
      postfixOf n
  | .privateName =>
    let _ ← advance
    if ← seesWord "in" then pure (leaf "private_property_identifier" t) else failure
  | .name _ =>
    match ["typeof", "void", "delete"].find? fun w => isWord [w] t with
    | some w =>
      let _ ← advance
      let n ← nest.unary
      node "unary_expression" t.start [operatorToken w t, inField n .argument]
    | none =>
      let next ← following
      if isWord ["await"] t && startsOperand next then
        let _ ← advance
        let n ← nest.unary
        node "await_expression" t.start [n]
      else
        let n ← leftHand nest
        postfixOf n
  | _ =>
    let n ← leftHand nest
    postfixOf n

/-! ### Operators -/

/-- Builds a binary operation. -/
def operation (left : Node) (op : String) (t : Token) (right : Node) : Parser Node :=
  node "binary_expression" left.start
    [inField left .left, operatorToken op t, inField right .right]

/-- Operands between `**`, which groups to the right. -/
def power (first : Parser Node) : Parser Node := do
  let base ← first
  if ← sees "**" then
    let links ← iterate (fun (acc : List (Node × Token)) => do
      let t ← view
      if ← accept "**" then
        let n ← unary nest
        pure (.inl ((n, t) :: acc))
      else pure (.inr acc)) []
    match links with
    | [] => pure base
    | (n, t) :: links => group base t n links
  else pure base
where
  /-- Joins the operands, the last of which come first: `n` stands last, after the operator `t`. -/
  group (base : Node) (t : Token) (n : Node) : List (Node × Token) → Parser Node
    | [] => operation base "**" t n
    | (m, u) :: links => do
      let n ← operation m "**" t n
      group base u n links

/-- Binary operators that group to the left, from the weakest layer on. -/
def operatorLayers : List (List String) :=
  [["??"], ["||"], ["&&"], ["|"], ["^"], ["&"], ["==", "!=", "===", "!=="],
   ["<", ">", "<=", ">=", "instanceof", "in"], ["<<", ">>", ">>>"], ["+", "-"], ["*", "/", "%"]]

/-- The operator of a layer in view, if there is one. -/
def operatorIn (layer : List String) (withIn : Bool) : Parser (Option String) := do
  let t ← view
  match t.lexeme with
  | .punct p => pure (if p ∈ layer then some p else none)
  | .name _ =>
    pure (layer.find? fun w => isWord [w] t && (w = "instanceof" || (w = "in" && withIn)))
  | _ => pure none

/-- Operations of the given layers, of which the first operand is read by `first`. -/
def binary (withIn : Bool) (first : Parser Node) : (layers : List (List String)) → Parser Node
  | [] => power nest first
  | layer :: stronger => do
    let left ← binary withIn first stronger
    iterate (fun left => do
      match ← operatorIn layer withIn with
      | none => pure (.inr left)
      | some op =>
        let t ← advance
        let right ← binary withIn (unary nest) stronger
        let n ← operation left op t right
        pure (.inl n)) left

/-- A conditional expression, or operations alone. -/
def conditional (withIn : Bool) (first : Parser Node) : Parser Node := do
  let c ← binary nest withIn first operatorLayers
  if ← accept "?" then
    let a ← plain nest true
    let _ ← expect ":"
    let b ← plain nest withIn
    node "ternary_expression" c.start
      [inField c .condition, inField a .consequence, inField b .alternative]
  else pure c

/-- Operators that change what they assign to. -/
def updatingOperators : List String :=
  ["+=", "-=", "*=", "/=", "%=", "**=", "<<=", ">>=", ">>>=", "&=", "^=", "|=", "&&=", "||=", "??="]

/-- Kinds that may be updated. -/
def updatable : List String :=
  ["identifier", "member_expression", "subscript_expression", "parenthesized_expression"]

/-- An assignment, or a conditional expression alone. -/
def assigned (withIn : Bool) (first : Parser Node) : Parser Node := do
  let left ← conditional nest withIn first
  let t ← view
  match t.lexeme with
  | .punct p =>
    if p = "=" then
      match toAssignable? left with
      | some target =>
        let _ ← advance
        let right ← plain nest withIn
        node "assignment_expression" left.start [inField target .left, inField right .right]
      | none => failure
    else if p ∈ updatingOperators then
      if left.kind ∈ updatable then
        let _ ← advance
        let right ← plain nest withIn
        node "augmented_assignment_expression" left.start [inField left .left, inField right .right]
      else failure
    else pure left
  | _ => pure left

/-- A `yield`. Its operand stands on the same line; if none does, `yield` can itself be one. -/
def yielded (withIn : Bool) : Parser Node := do
  let t ← advance
  let next ← view
  let operand := isPunct ["*"] next || startsOperand next
  if operand && !next.afterLineBreak then
    let _ ← accept "*"
    let n ← plain nest withIn
    node "yield_expression" t.start [n]
  else
    let n ← node "yield_expression" t.start []
    if operand then pure n else assigned nest withIn (chain nest true n)

/-- An arrow stands next, on the line of what comes before it. -/
def seesArrow : Parser Bool := do
  let t ← view
  pure (t.lexeme = .punct "=>" && !t.afterLineBreak)

/-- The rest of an arrow function after its parameters were read as expressions. -/
def arrowOf (withIn : Bool) (start paramsStart : Nat) (es : List Node) : Parser Node :=
  match es.mapM toPattern? with
  | some ps => do
    let ps ← node "formal_parameters" paramsStart ps
    arrow nest withIn start (inField ps .parameters)
  | none => failure

/-- An expression that begins with parentheses: an arrow function, or what they group and what
follows it. -/
def parenthesizedFirst (withIn : Bool) : Parser Node := do
  let (start, es, comma) ← parenthesized nest
  if ← seesArrow then arrowOf nest withIn start start es
  else
    let n ← grouping start es comma
    assigned nest withIn (do let n ← chain nest true n; postfixOf n)

/-- An expression that begins with an object or array. One that can only be a pattern stands alone
or is assigned to. -/
def literalFirst (withIn : Bool) : Parser Node := do
  let n ← if ← sees "[" then array nest else object nest
  if !isPatternOnly n then assigned nest withIn (do let n ← chain nest true n; postfixOf n)
  else if ← sees "=" then assigned nest withIn (pure n)
  else pure n

/-- An expression that begins with `async` and parentheses: an arrow function, or a call and what
follows it. -/
def asyncFirst (withIn : Bool) : Parser Node := do
  let t ← advance
  let (start, es, _) ← parenthesized nest
  if ← seesArrow then arrowOf nest withIn t.start start es
  else if es.any forcesPattern then failure
  else
    let args ← node "arguments" start es
    let n ← node "call_expression" t.start
      [inField (nameNode t) .function, inField args .arguments]
    assigned nest withIn (do let n ← chain nest true n; postfixOf n)

/-- The parameter of an arrow function without parentheses, after `async` or alone. -/
def bareParameter : Parser (Option Node) :=
  attempt (do
    let first ← freeName
    let next ← view
    let t ← if isWord ["async"] first && next.lexeme ≠ .punct "=>" && !next.afterLineBreak then
        freeName
      else pure first
    if !isWord ["undefined"] t && (← seesArrow) then pure (inField (leaf "identifier" t) .parameter)
    else failure)

/-- An expression without commas. -/
def assignment (withIn : Bool) : Parser Node := do
  let t ← view
  match t.lexeme with
  | .punct "(" => parenthesizedFirst nest withIn
  | .punct "[" | .punct "\x7b" => literalFirst nest withIn
  | .name _ =>
    let next ← following
    if isWord ["yield"] t then yielded nest withIn
    else if isWord ["async"] t && isPunct ["("] next && !next.afterLineBreak then
      asyncFirst nest withIn
    else
      match ← bareParameter with
      | some p => arrow nest withIn t.start p
      | none => assigned nest withIn (unary nest)
  | _ => assigned nest withIn (unary nest)

end Layers

end ScriptGate.Ecma
