import ScriptGate.Scope.Basic

/-!
# Programs over a scope

Sequences of operations on one scope, with frames that enclose further operations. A failure inside
such a frame ends the rest of the frame, closes it, and goes no further.

## Main definitions

* `Scope.Op`: an operation.
* `Scope.Event`, `Scope.Failure`: what is seen of a run.
* `Scope.runOps`: the run of a sequence of operations.
-/

namespace ScriptGate.Scope

/-- An operation on a scope. -/
inductive Op where
  | enter (names : List Text)
  | exit
  | bound (name : Text)
  | frame (names : List Text) (body : List Op)
  | fail (message : Text)

/-- A failure of an operation. -/
inductive Failure where
  | misuse (e : ScopeError)
  | raised (message : Text)
  deriving DecidableEq, Repr

/-- The wording of a failure. -/
def Failure.message : Failure → Text
  | misuse e => e.message
  | raised m => m

/-- What is seen after an operation: the number of open frames, the answer to a test and a failure
that the operation took up. -/
structure Event where
  depth : Nat
  bound : Option Bool := none
  failure : Option Failure := none
  deriving DecidableEq, Repr

/-- What a run shows: its events, the failure that ended it, if any, and the scope after it. -/
structure Run where
  events : List Event
  outcome : Except Failure Unit
  scope : Scope

/-- The failure that ended a run. -/
def failureOf : Except Failure Unit → Option Failure
  | .ok _ => none
  | .error f => some f

mutual

/-- Runs one operation on a scope. Closing a frame that is not there is told, and the run goes on;
so does a run after a frame whose body failed. -/
def runOp (s : Scope) : Op → Run
  | .enter names => ⟨[⟨(s.enter names).depth, none, none⟩], .ok (), s.enter names⟩
  | .exit =>
    match s.exit with
    | .ok outer => ⟨[⟨outer.depth, none, none⟩], .ok (), outer⟩
    | .error e => ⟨[⟨s.depth, none, some (.misuse e)⟩], .ok (), s⟩
  | .bound name => ⟨[⟨s.depth, some (s.isBound name), none⟩], .ok (), s⟩
  | .frame names body =>
    let inner := runOps (s.enter names) body
    let (outcome, after) := leave Failure.misuse inner.outcome inner.scope
    ⟨⟨(s.enter names).depth, none, none⟩ :: inner.events ++
        [⟨after.depth, none, failureOf outcome⟩],
      .ok (), after⟩
  | .fail message => ⟨[⟨s.depth, none, none⟩], .error (.raised message), s⟩

/-- Runs operations in order until one fails. -/
def runOps (s : Scope) : List Op → Run
  | [] => ⟨[], .ok (), s⟩
  | op :: ops =>
    let first := runOp s op
    match first.outcome with
    | .error f => ⟨first.events, .error f, first.scope⟩
    | .ok _ =>
      let rest := runOps first.scope ops
      ⟨first.events ++ rest.events, rest.outcome, rest.scope⟩

end

end ScriptGate.Scope
