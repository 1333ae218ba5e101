import ScriptGate.Number.Numeral
import ScriptGate.Text.Quoted

/-!
# Options of the command

The arguments of the command are options with values. Options may be shortened as long as they can
be told apart, and a value may be joined to its option by an equals sign.

## Main definitions

* `Command.Flag`: the options; `Command.Flag.spellings`: how they are written.
* `Command.Word`, `Command.classify`: what an argument is.
* `Command.Options`: what the arguments say.
* `Command.UsageError`, `Command.Stop`: why the command does not run.
* `Command.Options.parse`: from arguments to options.
-/

namespace ScriptGate.Command

/-! ### The options -/

/-- An option. -/
inductive Flag where
  | help
  | input
  | script
  | allow
  | output
  | policy
  | workers
  | auditLog
  deriving DecidableEq, Repr

/-- The spellings of all options, in order. -/
def spellings : List (String × Flag) :=
  [("-h", .help), ("--help", .help), ("--input", .input), ("--script", .script),
   ("--allow", .allow), ("--output", .output), ("--policy", .policy), ("--workers", .workers),
   ("--audit-log", .auditLog)]

/-- The spellings of one option, with slashes between them. -/
def Flag.title (f : Flag) : Text :=
  Text.join "/" ((spellings.filter fun s => s.2 = f).map fun s => Text.ofString s.1)

/-- Why arguments are refused. -/
inductive UsageError where
  | ambiguous (arg : List Char) (candidates : List String)
  | noValue (flag : Flag)
  | needlessValue (flag : Flag) (value : List Char)
  | notInteger (flag : Flag) (value : List Char)
  | conflict (flag other : Flag)
  | unrecognized (args : List (List Char))
  deriving DecidableEq, Repr

/-- The wording of an error about one option. -/
def aboutFlag (f : Flag) (what : Text) : Text := "argument " ++ f.title ++ ": " ++ what

/-- The wording of a usage error. -/
def UsageError.message : UsageError → Text
  | ambiguous arg candidates =>
    "ambiguous option: " ++ Text.ofChars arg ++ " could match " ++
      Text.join ", " (Text.ofStrings candidates)
  | noValue flag => aboutFlag flag "expected one argument"
  | needlessValue flag value =>
    aboutFlag flag ("ignored explicit argument " ++ (Text.ofChars value).quoted)
  | notInteger flag value =>
    aboutFlag flag ("invalid int value: " ++ (Text.ofChars value).quoted)
  | conflict flag other => aboutFlag flag ("not allowed with argument " ++ other.title)
  | unrecognized args => "unrecognized arguments: " ++ Text.join " " (args.map Text.ofChars)

/-! ### Arguments -/

/-- What is joined to an option: nothing, characters that follow a short option at once, or a value
after an equals sign. -/
inductive Joined where
  | nothing
  | tail (cs : List Char)
  | value (cs : List Char)
  deriving DecidableEq, Repr

/-- What an argument is: an option, something that looks like one, or anything else. -/
inductive Word where
  | option (spelling : String) (flag : Flag) (joined : Joined)
  | unknown
  | plain
  deriving DecidableEq, Repr

/-- The parts of an argument before and after its first equals sign. -/
def splitEquals (arg : List Char) : List Char × Joined :=
  match arg.span (· ≠ '=') with
  | (name, '=' :: value) => (name, .value value)
  | (name, _) => (name, .nothing)

/-- The option with just the given spelling. -/
def spelled? (name : List Char) : Option (String × Flag) :=
  spellings.find? fun s => s.1.toList = name

/-- The options that an argument could mean. A long option may be cut short; after a short one its
value may follow at once. -/
def candidates (arg : List Char) : List (String × Flag × Joined) :=
  match arg with
  | '-' :: '-' :: _ =>
    let (name, joined) := splitEquals arg
    (spellings.filter fun s => name.isPrefixOf s.1.toList).map fun s => (s.1, s.2, joined)
  | _ =>
    (spellings.filter fun s => s.1.toList = arg.take 2).map fun s => (s.1, s.2, .tail (arg.drop 2))

/-- Digits, or digits around a point of which those after it are not missing, perhaps with a line
end after them. -/
def isUnsignedNumber (cs : List Char) : Bool :=
  let cs := if cs.getLast? = some '\n' then cs.dropLast else cs
  match cs.span Digit.isDigit with
  | (whole, []) => !whole.isEmpty
  | (_, '.' :: fraction) => !fraction.isEmpty && fraction.all Digit.isDigit
  | _ => false

/-- A negative number. -/
def isNegativeNumber : List Char → Bool
  | '-' :: cs => isUnsignedNumber cs
  | _ => false

/-- What an argument is. What begins with a dash is taken for an option unless it is a dash alone, a
negative number or a text with a blank in it. -/
def classify (arg : List Char) : Except UsageError Word :=
  if arg.head? ≠ some '-' then .ok .plain
  else match spelled? arg with
    | some (spelling, flag) => .ok (.option spelling flag .nothing)
    | none =>
      if arg = ['-'] then .ok .plain
      else
        let (name, joined) := splitEquals arg
        match spelled? name, joined with
        | some (spelling, flag), .value v => .ok (.option spelling flag (.value v))
        | _, _ =>
          match candidates arg with
          | [(spelling, flag, joined)] => .ok (.option spelling flag joined)
          | [] => .ok (if isNegativeNumber arg || ' ' ∈ arg then .plain else .unknown)
          | cs => .error (.ambiguous arg (cs.map (·.1)))

/-- What the arguments are, up to a `--`, after which all that comes is told by `none`. -/
def classifyAll : List (List Char) → Except UsageError (List (List Char × Option Word))
  | [] => .ok []
  | arg :: args =>
    if arg = "--".toList then .ok ((arg :: args).map fun a => (a, none))
    else do
      let w ← classify arg
      let rest ← classifyAll args
      pure ((arg, some w) :: rest)

/-! ### What the arguments say -/

/-- The values of the options. The scripts of a batch do not depend on each other, so the number of
workers is read and checked but never shows in an answer. -/
structure Options where
  input : List Char := ['-']
  script : Option (List Char) := none
  allow : List (List Char) := []
  output : Option (List Char) := none
  policy : Option (List Char) := none
  workers : Int := 1
  auditLog : Option (List Char) := none
  deriving DecidableEq, Repr

/-- Why the command does not run: help was asked for, or the arguments make no sense. -/
inductive Stop where
  | help
  | error (e : UsageError)
  deriving DecidableEq, Repr

/-- The options so far, whether an input and a script were given, and the arguments that mean
nothing, latest first. -/
structure Progress where
  options : Options := {}
  inputGiven : Bool := false
  scriptGiven : Bool := false
  extras : List (List Char) := []

/-- Gives an option its value. An input and a script exclude each other, but the standard input that
`-` names does not count. -/
def Progress.set (p : Progress) (flag : Flag) (v : List Char) : Except Stop Progress :=
  match flag with
  | .help => .error .help
  | .input =>
    if v = ['-'] then .ok { p with options.input := v }
    else if p.scriptGiven then .error (.error (.conflict .input .script))
    else .ok { p with options.input := v, inputGiven := true }
  | .script =>
    if p.inputGiven then .error (.error (.conflict .script .input))
    else .ok { p with options.script := some v, scriptGiven := true }
  | .allow => .ok { p with options.allow := p.options.allow ++ [v] }
  | .output => .ok { p with options.output := some v }
  | .policy => .ok { p with options.policy := some v }
  | .workers =>
    match Numeral.ofText? v with
    | some n => .ok { p with options.workers := n }
    | none => .error (.error (.notInteger .workers v))
  | .auditLog => .ok { p with options.auditLog := some v }

/-- The help option with short options joined to it. Only help itself can be repeated; a value makes
no sense, and other characters do not matter. -/
def helpTail : List Char → Stop
  | [] => .help
  | '-' :: cs => .error (.needlessValue .help ('-' :: cs))
  | ['h'] => .help
  | 'h' :: '=' :: v => .error (.needlessValue .help v)
  | 'h' :: cs => helpTail cs
  | _ => .help

/-- What the help option means with what is joined to it. -/
def helpWith : Joined → Stop
  | .nothing => .help
  | .tail cs => helpTail cs
  | .value v => .error (.needlessValue .help v)

/-- Takes the arguments in order. The value of an option is joined to it or is the next argument. -/
def Progress.take (p : Progress) : List (List Char × Option Word) → Except Stop Progress
  | [] => .ok p
  | (_, some (.option _ .help joined)) :: _ => .error (helpWith joined)
  | (_, some (.option _ flag (.value v))) :: rest => do
    let p ← p.set flag v
    p.take rest
  | (_, some (.option _ flag (.tail v))) :: rest => do
    let p ← p.set flag v
    p.take rest
  | (_, some (.option _ flag .nothing)) :: (v, some .plain) :: rest => do
    let p ← p.set flag v
    p.take rest
  | (_, some (.option _ flag .nothing)) :: _ => .error (.error (.noValue flag))
  | (arg, _) :: rest => { p with extras := arg :: p.extras }.take rest

/-- The options that arguments say. -/
def Options.parse (args : List (List Char)) : Except Stop Options := do
  let words ← (classifyAll args).mapError Stop.error
  let p ← Progress.take {} words
  match p.extras.reverse with
  | [] => pure p.options
  | extras => .error (.error (.unrecognized extras))

end ScriptGate.Command
