import ScriptGate.Command.Host
import ScriptGate.Text.Utf8

/-!
# Folders as values

A host whose files are a value: a tree of directories and files, in which the command runs at some
place.

## Main definitions

* `Folder`: the tree.
* `Folder.walk`: where a path leads.
* `Folder.save`: writes a text into a file.
* `Folder.host`: the operations of a host.
* `Folder.changes`: the files that a run made or changed.
-/

namespace ScriptGate

/-- A place in a tree: the names on the way to it from the root. -/
abbrev Place := List (List Char)

/-- A tree of directories and files, and the directory in which the command runs. The root is always
a directory. -/
structure Folder where
  home : Place
  directories : List Place
  files : List (Place × Text)

namespace Folder

/-- All directories that a place lies in, itself included. -/
def ancestors : Place → List Place
  | [] => [[]]
  | name :: p => [] :: (ancestors p).map (name :: ·)

/-- A folder with nothing but the directory in which the command runs. -/
def empty (home : Place) : Folder := ⟨home, ancestors home, []⟩

/-- The place is a directory. -/
def isDirectoryAt (f : Folder) (p : Place) : Bool := p = [] || p ∈ f.directories

/-- Sets the text of a file. -/
def put (f : Folder) (p : Place) (text : Text) : Folder :=
  { f with files := (p, text) :: f.files.filter fun entry => entry.1 ≠ p }

/-- The folder with a file in it and with the directories that the file lies in; the path is
relative to where the command runs. -/
def add (f : Folder) (path : List Char) (text : Text) : Folder :=
  let p := f.home ++ (Path.ofChars path).parts
  { f.put p text with directories := ancestors p.dropLast ++ f.directories }

/-- The longest name of a file or directory, in bytes. -/
def longestName : Nat := 255

/-- Where parts of a path lead from a place. Each part but the last has to lead to a directory. -/
def walk (f : Folder) (here : Place) : (parts : List (List Char)) → Except FileFault Place
  | [] => .ok here
  | part :: rest =>
    if f.isDirectoryAt here then
      if part = [] || part = ['.'] then f.walk here rest
      else if part = ['.', '.'] then f.walk here.dropLast rest
      else if longestName < (Utf8.encodeChars part).length then .error .nameTooLong
      else f.walk (here ++ [part]) rest
    else if (f.files.lookup here).isSome then .error .notDirectory
    else .error .notFound

/-- Where a path leads. -/
def find (f : Folder) (path : List Char) : Except FileError Place :=
  let fault (x : FileFault) : FileError := ⟨x, path⟩
  if '\x00' ∈ path then .error (fault .nullByte)
  else match path with
    | [] => .error (fault .notFound)
    | '/' :: _ => (f.walk [] (splitSlashes path)).mapError fault
    | _ => (f.walk f.home (splitSlashes path)).mapError fault

/-- The text of the file that a path leads to. -/
def read (f : Folder) (path : List Char) : Except FileError (List Char) := do
  let p ← f.find path
  if f.isDirectoryAt p then .error ⟨.isDirectory, path⟩
  else match f.files.lookup p with
    | some text => .ok text.toChars
    | none => .error ⟨.notFound, path⟩

/-- Changes the text of the file that a path leads to; a file that is not there has no text. -/
def change (f : Folder) (path : List Char) (g : Text → Text) : Except FileError Folder := do
  let p ← f.find path
  if f.isDirectoryAt p then .error ⟨.isDirectory, path⟩
  else .ok (f.put p (g ((f.files.lookup p).getD [])))

/-- Makes a directory. -/
def makeDirectory (f : Folder) (path : List Char) : Except FileError Folder := do
  let p ← f.find path
  if f.isDirectoryAt p || (f.files.lookup p).isSome then .error ⟨.alreadyExists, path⟩
  else .ok { f with directories := p :: f.directories }

/-- The path leads to a directory. -/
def isDirectory (f : Folder) (path : List Char) : Bool :=
  match f.find path with
  | .ok p => f.isDirectoryAt p
  | .error _ => false

/-- A change of a folder as an operation. -/
def step (g : Folder → Except FileError Folder) : StateM Folder (Except FileError Unit) := fun f =>
  match g f with
  | .ok after => (.ok (), after)
  | .error e => (.error e, f)

/-- Opens the file that a path leads to, which keeps what `kept` tells of its text, and adds a text
to it. A lone surrogate in the text is found out only when the file is open. -/
def save (path : List Char) (kept : Text → Text) (text : Text) :
    StateM Folder (Except FileError Unit) :=
  match Utf8.scalars 0 text with
  | .ok _ => step fun f => f.change path fun old => kept old ++ text
  | .error e => do
    let opened ← step fun f => f.change path kept
    pure (opened.bind fun _ => .error ⟨.unencodable e, path⟩)

/-- The host whose files are a folder, with the given standard input and time. -/
def host (input : List Char) (now : Audit.Time) : Host (StateM Folder) where
  read path := fun f => (f.read path, f)
  write path text := save path (fun _ => []) text
  append path text := save path id text
  makeDirectory path := step fun f => f.makeDirectory path
  isDirectory path := fun f => (f.isDirectory path, f)
  input := pure input
  now := pure now

/-- The path of a place from where the command runs, unless the place lies elsewhere. -/
def relative? (f : Folder) (p : Place) : Option (List Char) :=
  if f.home.isPrefixOf p then some (List.intercalate ['/'] (p.drop f.home.length)) else none

/-- The files that are in the folder `after` and that are not the same in the folder `before`. -/
def changes (before after : Folder) : List (List Char × Text) :=
  after.files.filterMap fun (p, text) =>
    if before.files.lookup p = some text then none
    else (after.relative? p).map fun path => (path, text)

end Folder

end ScriptGate
