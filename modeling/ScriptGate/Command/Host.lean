import ScriptGate.Audit.Entry
import ScriptGate.Command.Path

/-!
# What the command asks of its host

The command reads and writes files, reads its standard input and asks for the time. It does so
through a record of operations, so that it runs on a real machine and on a folder that is a mere
value.

## Main definitions

* `Host`: the operations.
* `Host.makeAll`: makes a directory with all that it lies in.
-/

namespace ScriptGate

/-- The operations of a host. -/
structure Host (m : Type → Type) where
  /-- The text of a file. -/
  read : (path : List Char) → m (Except FileError (List Char))
  /-- Replaces the text of a file. A text that cannot be encoded leaves the file empty. -/
  write : (path : List Char) → (text : Text) → m (Except FileError Unit)
  /-- Adds a text at the end of a file. A text that cannot be encoded adds nothing. -/
  append : (path : List Char) → (text : Text) → m (Except FileError Unit)
  /-- Makes one directory. -/
  makeDirectory : (path : List Char) → m (Except FileError Unit)
  /-- A directory is there. -/
  isDirectory : (path : List Char) → m Bool
  /-- The standard input. -/
  input : m (List Char)
  /-- The time. -/
  now : m Audit.Time

namespace Host

variable {m : Type → Type} [Monad m]

/-- A directory that is there already need not be made. -/
def allowExisting (host : Host m) (path : List Char) (e : FileError) :
    m (Except FileError Unit) := do
  if e.fault ≠ .nullByte && (← host.isDirectory path) then pure (.ok ()) else pure (.error e)

/-- Makes a directory after the directories that it lies in; its parts are given last first. -/
def makeFrom (host : Host m) (slashes : Nat) :
    (parts : List (List Char)) → m (Except FileError Unit)
  | [] => do
    let path := (Path.mk slashes []).chars
    match ← host.makeDirectory path with
    | .ok _ => pure (.ok ())
    | .error e => host.allowExisting path e
  | part :: outer => do
    let path := (Path.mk slashes (part :: outer).reverse).chars
    match ← host.makeDirectory path with
    | .ok _ => pure (.ok ())
    | .error e =>
      if e.fault = .notFound then
        match ← host.makeFrom slashes outer with
        | .error e => pure (.error e)
        | .ok _ =>
          match ← host.makeDirectory path with
          | .ok _ => pure (.ok ())
          | .error e => host.allowExisting path e
      else host.allowExisting path e

/-- Makes a directory, and those that it lies in, unless it is there. -/
def makeAll (host : Host m) (p : Path) : m (Except FileError Unit) :=
  host.makeFrom p.slashes p.parts.reverse

end Host

end ScriptGate
