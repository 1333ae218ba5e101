import ScriptGate.Text.Quoted
import ScriptGate.Text.Utf8

/-!
# Paths and files that cannot be used

## Main definitions

* `Path`: a path in its normal form, without empty parts and parts that mean nothing.
* `FileError`: why a file or directory cannot be used.
-/

namespace ScriptGate

/-- The parts of a text between slashes. -/
def splitSlashes (cs : List Char) : List (List Char) :=
  match cs with
  | [] => [[]]
  | c :: cs =>
    if c = '/' then [] :: splitSlashes cs
    else match splitSlashes cs with
      | [] => [[c]]
      | part :: parts => (c :: part) :: parts

/-- A path: the slashes at its front, none to two, and its parts. -/
structure Path where
  slashes : Nat
  parts : List (List Char)
  deriving DecidableEq, Repr

namespace Path

/-- The normal form of a path. Parts that are empty or a single dot mean nothing. More than two
slashes at the front mean the same as one. -/
def ofChars (cs : List Char) : Path :=
  let slashes := (cs.takeWhile (· = '/')).length
  ⟨if 2 < slashes then 1 else slashes,
    (splitSlashes cs).filter fun part => part ≠ [] && part ≠ ['.']⟩

/-- The characters of a path. An empty path is a single dot. -/
def chars (p : Path) : List Char :=
  match List.replicate p.slashes '/' ++ List.intercalate ['/'] p.parts with
  | [] => ['.']
  | cs => cs

/-- The path without its last part. -/
def parent (p : Path) : Path := { p with parts := p.parts.dropLast }

end Path

/-- Why a file or directory cannot be used. -/
inductive FileFault where
  | notFound
  | alreadyExists
  | notDirectory
  | isDirectory
  | nameTooLong
  | nullByte
  | unencodable (e : Utf8.EncodeError)
  deriving DecidableEq, Repr

/-- A fault and the path that has it. -/
structure FileError where
  fault : FileFault
  path : List Char
  deriving DecidableEq, Repr

namespace FileFault

/-- The number and the wording of a fault; two have no number. -/
def describe : FileFault → Option (Nat × String)
  | notFound => some (2, "No such file or directory")
  | alreadyExists => some (17, "File exists")
  | notDirectory => some (20, "Not a directory")
  | isDirectory => some (21, "Is a directory")
  | nameTooLong => some (36, "File name too long")
  | nullByte => none
  | unencodable _ => none

end FileFault

/-- The wording of an error of a file. -/
def FileError.message (e : FileError) : Text :=
  match e.fault, e.fault.describe with
  | .unencodable x, _ => x.message
  | _, some (number, wording) =>
    "[Errno " ++ Text.ofNat number ++ "] " ++ (wording : Text) ++ ": " ++
      (Text.ofChars e.path).quoted
  | _, none => "embedded null byte"

end ScriptGate
