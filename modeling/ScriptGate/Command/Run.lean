import ScriptGate.Audit.Log
import ScriptGate.Batch.Basic
import ScriptGate.Command.Host
import ScriptGate.Command.Options
import ScriptGate.Command.Usage
import ScriptGate.Policy.File

/-!
# The command

Checks one script or a batch. The exit code tells whether all scripts were accepted, and it is 2 if
the arguments or the batch make no sense.

## Main definitions

* `Command.Crash`: what ends a run without an exit code.
* `Command.Outcome`: what a run leaves besides files.
* `Command.run`: the command.
-/

namespace ScriptGate.Command

/-- What ends a run without an exit code. -/
inductive Crash where
  | policy (e : Policy.LoadError)
  | file (e : FileError)
  | batch (e : Batch.ParseError)
  | fault (f : Check.Fault)
  | entry (e : Audit.EntryError)

/-- What a run writes to its two outputs, and its exit code. -/
structure Exit where
  code : Nat
  output : Text := []
  errors : Text := []

/-- The end of a run: an exit or a crash, before which nothing is written to the outputs. -/
abbrev Outcome := Except Crash Exit

section Run

variable {m : Type → Type} [Monad m]

/-- A run on a host. -/
abbrev Run (m : Type → Type) := ExceptT Crash m

/-- An operation on files, the failure of which ends the run. -/
def onFile {α : Type} (x : m (Except FileError α)) : Run m α :=
  ExceptT.mk (do return (← x).mapError Crash.file)

/-- A computation, the failure of which ends the run. -/
def orCrash {ε α : Type} (crash : ε → Crash) (x : Except ε α) : Run m α :=
  ExceptT.mk (pure (x.mapError crash))

/-- The policy of the given file, or the standard policy. -/
def loadPolicy (host : Host m) : Option (List Char) → Run m Policy
  | none => pure Policy.standard
  | some path => do
    let text ← onFile (host.read (Path.ofChars path).chars)
    orCrash Crash.policy (Policy.load text)

/-- Writes the entries of the audit log, each with the directories that the log lies in. -/
def audit (host : Host m) (log : Path) : List Audit.Entry → Run m Unit
  | [] => pure ()
  | e :: es => do
    let now ← ExceptT.lift host.now
    let line ← orCrash Crash.entry (e.print now)
    onFile (host.makeAll log.parent)
    onFile (host.append log.chars line)
    audit host log es

/-- Checks scripts and writes the audit log if there is one. -/
def checkAll (host : Host m) (grammar : Grammar) (policy : Policy) (log : Option (List Char))
    (requests : List Request) : Run m (List Report) := do
  let reports ← orCrash Crash.fault (Batch.check grammar policy requests)
  match log with
  | none => pure ()
  | some path => audit host (Path.ofChars path) (Audit.entries reports)
  pure reports

/-- The text of a batch: the standard input or a file. -/
def payload (host : Host m) (input : List Char) : Run m (List Char) := do
  if input = ['-'] then
    let text ← ExceptT.lift host.input
    pure (Text.unixLines text)
  else
    let text ← onFile (host.read input)
    pure (Text.unixLines text)

/-- Tells which scripts were rejected. -/
def rejectionNote (reports : List Report) : Text :=
  let places := Batch.rejected reports
  "Rejected " ++ Text.ofNat places.length ++ " of " ++ Text.ofNat reports.length ++ " scripts: " ++
    Text.join ", " (places.map Text.ofNat) ++ "\n"

/-- Checks the script of the command line. -/
def runScript (host : Host m) (grammar : Grammar) (policy : Policy) (o : Options)
    (script : List Char) : Run m Exit := do
  let request : Request := ⟨Text.ofChars script, o.allow.map Text.ofChars⟩
  let reports ← checkAll host grammar policy o.auditLog [request]
  let lines := Text.join "\n" (reports.map Report.lines)
  pure { code := if reports.all Report.accepted then 0 else 1, output := lines ++ "\n" }

/-- Checks a batch. -/
def runBatch (host : Host m) (grammar : Grammar) (policy : Policy) (o : Options) : Run m Exit := do
  let text ← payload host o.input
  match Batch.parse .builtIn text with
  | .error (.malformed e) => pure { code := 2, errors := "Invalid batch: " ++ e.message ++ "\n" }
  | .error e => throw (.batch e)
  | .ok requests =>
    let reports ← checkAll host grammar policy o.auditLog requests
    let response := (Batch.response reports).writeIndented 2 0 ++ "\n"
    let output ← match o.output with
      | none => pure response
      | some path => do
        let path := Path.ofChars path
        onFile (host.makeAll path.parent)
        onFile (host.write path.chars response)
        pure []
    if (Batch.rejected reports).isEmpty then pure { code := 0, output }
    else pure { code := 1, output, errors := rejectionNote reports }

/-- Runs the command with options that make sense. -/
def runWith (host : Host m) (grammar : Grammar) (o : Options) : Run m Exit := do
  let policy ← loadPolicy host o.policy
  match o.script with
  | some script => runScript host grammar policy o script
  | none => runBatch host grammar policy o

/-- The end of a run with arguments that ask for help or make no sense. -/
def Stop.exit : Stop → Exit
  | .help => { code := 0, output := Command.help }
  | .error e =>
    { code := 2, errors := usage ++ (program ++ ": error: " : String) ++ e.message ++ "\n" }

/-- Runs the command with the given arguments. -/
def run (host : Host m) (grammar : Grammar) (args : List (List Char)) : m Outcome :=
  match Options.parse args with
  | .error stop => pure (.ok stop.exit)
  | .ok o => (runWith host grammar o).run

end Run

end ScriptGate.Command
