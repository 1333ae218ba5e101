import ScriptGate.Command.Run
import ScriptGate.Ecma.Program
import Std.Time.DateTime

/-!
# The command line

The command on a real machine.

## Main definitions

* `Machine.host`: the operations of the machine.
* `main`: the command.
-/

namespace ScriptGate.Machine

/-- The number of an error, which may be told as it is or negated. -/
def unsigned (code : UInt32) : Nat :=
  if code.toNat < 0x80000000 then code.toNat else 0x100000000 - code.toNat

/-- The number that the operating system gives to an error of a file. -/
def errorNumber : IO.Error → Nat
  | .noFileOrDirectory _ code _ => unsigned code
  | .alreadyExists _ code _ => unsigned code
  | .inappropriateType _ code _ => unsigned code
  | .invalidArgument _ code _ => unsigned code
  | .otherError code _ => unsigned code
  | _ => 0

/-- The faults of files that the command tells by their numbers. -/
def faultOf? (e : IO.Error) : Option FileFault :=
  [FileFault.notFound, .alreadyExists, .notDirectory, .isDirectory, .nameTooLong].find? fun fault =>
    (fault.describe.map (·.1)) = some (errorNumber e)

/-- Runs an operation on a file and tells its fault. -/
def guarded {α : Type} (path : List Char) (x : IO α) : IO (Except FileError α) := do
  if '\x00' ∈ path then return .error ⟨.nullByte, path⟩
  try
    let a ← x
    return .ok a
  catch e =>
    match faultOf? e with
    | some fault => return .error ⟨fault, path⟩
    | none => throw e

/-- All that a stream still holds. -/
partial def readAll (s : IO.FS.Stream) (acc : ByteArray) : IO ByteArray := do
  let chunk ← s.read 65536
  if chunk.isEmpty then return acc else readAll s (acc ++ chunk)

/-- The time in coordinated universal time. -/
def now : IO Audit.Time := do
  let stamp ← Std.Time.Timestamp.now
  let t := Std.Time.PlainDateTime.ofWallTime (Std.Time.WallTime.ofTimestamp stamp .zero)
  return ⟨t.year.toInt.toNat, t.month.toNat, t.day.toNat, t.hour.toNat, t.minute.toNat,
    t.second.toNat⟩

/-- Opens a file and writes a text into it. -/
def save (path : List Char) (mode : IO.FS.Mode) (text : Text) : IO (Except FileError Unit) := do
  match ← guarded path (IO.FS.Handle.mk (String.ofList path) mode) with
  | .error e => return .error e
  | .ok handle =>
    match Utf8.scalars 0 text with
    | .error e => return .error ⟨.unencodable e, path⟩
    | .ok cs => guarded path (handle.putStr (String.ofList cs))

/-- The operations of the machine. -/
def host : Host IO where
  read path := guarded path do
    let text ← IO.FS.readFile (String.ofList path)
    return text.toList
  write path text := save path .write text
  append path text := save path .append text
  makeDirectory path := guarded path (IO.FS.createDir (String.ofList path))
  isDirectory path := do
    let opened ← (IO.FS.Handle.mk (String.ofList path ++ "/.") .read).toBaseIO
    match opened with
    | .ok _ => return true
    | .error _ => return false
  input := do
    let bytes ← readAll (← IO.getStdin) ByteArray.empty
    return (String.fromUTF8? bytes).getD "" |>.toList
  now := now

/-- The wording of a crash. -/
def crashText : Command.Crash → Text
  | .policy (.unreadable e) => e.message
  | .policy (.invalid es) =>
    Text.join "\n" (es.map fun e => Text.ofString e.problem.message)
  | .file e => e.message
  | .batch (.malformed e) => e.message
  | .batch (.unreadable e) => e.message
  | .batch (.invalid es) => Text.join "\n" (es.map fun e => Text.ofString e.problem.message)
  | .fault f => f.message
  | .entry e => e.message

end ScriptGate.Machine

/-- Runs the command. -/
def main (args : List String) : IO UInt32 := do
  let outcome ← ScriptGate.Command.run ScriptGate.Machine.host ScriptGate.Ecma.parse
    (args.map String.toList)
  match outcome with
  | .ok exit =>
    IO.print exit.output.toString
    IO.eprint exit.errors.toString
    return exit.code.toUInt32
  | .error crash =>
    IO.eprintln (ScriptGate.Machine.crashText crash).toString
    return 1
