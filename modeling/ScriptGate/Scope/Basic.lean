import ScriptGate.Text.Basic

/-!
# Scopes

The names that function parameters bind, as a stack of frames. A name is bound if any frame holds
it.

## Main definitions

* `Scope`: the stack.
* `Scope.enter`, `Scope.exit`, `Scope.isBound`: opening and closing a frame, and the test.
* `Scope.leave`, `Scope.within`: an action inside a frame that is closed again however the action
  ends.
-/

namespace ScriptGate

/-- A stack of frames of names, the innermost first. -/
structure Scope where
  frames : List (List Text) := []
  deriving DecidableEq, Repr

/-- The one misuse of a stack. -/
inductive ScopeError where
  | noOpenFrame
  deriving DecidableEq, Repr

/-- The wording of the misuse. -/
def ScopeError.message : ScopeError → Text
  | noOpenFrame => "exit_scope called with no open scope"

namespace Scope

/-- The number of open frames. -/
def depth (s : Scope) : Nat := s.frames.length

/-- Opens a frame. -/
def enter (names : List Text) (s : Scope) : Scope := ⟨names :: s.frames⟩

/-- Closes the innermost frame. -/
def exit (s : Scope) : Except ScopeError Scope :=
  match s.frames with
  | [] => .error .noOpenFrame
  | _ :: frames => .ok ⟨frames⟩

/-- Some frame holds the name. -/
def isBound (s : Scope) (name : Text) : Bool := s.frames.any fun frame => name ∈ frame

/-- The stack with the given frames opened one after the other. -/
def ofFrames (frames : List (List Text)) : Scope := frames.foldl (fun s names => s.enter names) {}

/-- Closes the innermost frame after an action, whose outcome stands unless no frame is left to
close: then that misuse is the outcome. -/
def leave {α ε : Type} (misuse : ScopeError → ε) (outcome : Except ε α) (s : Scope) :
    Except ε α × Scope :=
  match s.exit with
  | .ok outer => (outcome, outer)
  | .error e => (.error (misuse e), s)

/-- Runs an action inside a new frame and closes a frame afterwards, whatever the outcome of the
action is. -/
def within {α ε : Type} (misuse : ScopeError → ε) (names : List Text)
    (act : ExceptT ε (StateM Scope) α) : ExceptT ε (StateM Scope) α :=
  fun s =>
    let (outcome, inner) := act.run (s.enter names)
    leave misuse outcome inner

end Scope

end ScriptGate
