import ScriptGate.Proofs.Check.Reach

/-!
# Checks that the nesting limit does not cut short

Every visit goes down by a level at least, so that a check of a tree with fewer levels than the
limit never comes to the limit. What it gives is then the same for all such limits, and obeys
simpler laws: a chain of binary operators, whose operands are looked at as one level, gives what its
left part and its right part give.

## Main definitions

* `Check.verdict`: what a check of a node gives if the nesting limit does not cut it short.

## Main results

* `Check.height_lt_of_visit`: a visit goes down.
* `Check.outcome_eq_verdict`: limits above the height of a tree make no difference.
* `Check.verdict_of_form`: a check carries out the steps of the form of its node.
* `Check.verdict_of_binary`: a chain gives what its left part and its right part give.
-/

namespace ScriptGate.Check

variable {ctx : Context} {s t : Scope} {n m : Node} {room : Nat}

/-- Steps give the same if their visits do. -/
theorem perform_congr {find find' : Scope → Node → Except Fault (List Diagnostic)}
    {steps : List Step} (h : ∀ t m, .visit t m ∈ steps → find t m = find' t m) :
    perform ctx find steps = perform ctx find' steps := by
  induction steps with
  | nil => rfl
  | cons step rest ih =>
    have hfirst : step.result ctx find = step.result ctx find' := by
      cases step with
      | report m message => rfl
      | visit t m => exact h t m (List.mem_cons_self ..)
      | fail fault => rfl
    rw [perform_cons, perform_cons, hfirst,
      ih fun t m hm => h t m (List.mem_cons_of_mem _ hm)]

/-! ### Limits above the height -/

/-- **A visit goes down** by a level at least. -/
theorem height_lt_of_visit (h : .visit t m ∈ plan ctx s room n) : m.height < n.height := by
  obtain ⟨above, hroute, -, hne, -⟩ := reach_plan _ h
  have hle := hroute.path.length_add_height_le
  have hpos := List.length_pos_iff.mpr hne
  omega

theorem outcome_eq_outcome {room' : Nat} (h : n.height < room) (h' : n.height < room') :
    outcome ctx room s n = outcome ctx room' s n := by
  induction room generalizing room' s n with
  | zero => omega
  | succ room ih =>
    obtain ⟨room', rfl⟩ : ∃ k, room' = k + 1 := ⟨room' - 1, by omega⟩
    refine perform_congr fun t m hm => ?_
    have hlt := height_lt_of_visit hm
    exact ih (by omega) (by omega)

/-- What a check of a node gives if the nesting limit does not cut it short. -/
def verdict (ctx : Context) (s : Scope) (n : Node) : Except Fault (List Diagnostic) :=
  outcome ctx (n.height + 1) s n

/-- **Limits above the height of a tree make no difference.** -/
theorem outcome_eq_verdict (h : n.height < room) : outcome ctx room s n = verdict ctx s n :=
  outcome_eq_outcome h (Nat.lt_succ_self _)

theorem verdict_eq : verdict ctx s n = perform ctx (verdict ctx) (plan ctx s 1 n) :=
  perform_congr fun _ _ hm => outcome_eq_verdict (height_lt_of_visit hm)

/-! ### Forms -/

/-- A kind that has a form is not rejected. -/
theorem Form.not_rejected {form : Form} {kind : String} (h : kind ∈ form.kinds) :
    Rejection.ofKind? kind = none := by
  have hall : ∀ kind ∈ form.kinds, Rejection.ofKind? kind = none := by cases form <;> decide
  exact hall kind h

theorem plan_of_form {form : Form} (hk : n.kind ∈ form.kinds) :
    plan ctx s (room + 1) n = steps ctx s form n := by
  rw [plan, Form.not_rejected hk, Form.ofKind?_eq_some_iff.mpr hk]

/-- **A check carries out the steps of the form of its node.** -/
theorem verdict_of_form {form : Form} (hk : n.kind ∈ form.kinds) :
    verdict ctx s n = perform ctx (verdict ctx) (steps ctx s form n) := by
  rw [verdict_eq, plan_of_form hk]

/-- What is said about a node of a kind that has no form. -/
def refusal (kind : String) : Text :=
  match Rejection.ofKind? kind with
  | some r => r.message
  | none => unsupportedTemplate.fill kind

/-- A node that has no form gives its own report alone. -/
theorem verdict_of_no_form (hk : ∀ form : Form, n.kind ∉ form.kinds) :
    verdict ctx s n = ctx.report n (refusal n.kind) := by
  have hform : Form.ofKind? n.kind = none :=
    Option.eq_none_iff_forall_ne_some.mpr fun form hform =>
      hk form (Form.mem_kinds_of_ofKind? hform)
  rw [verdict_eq, plan, refusal]
  cases Rejection.ofKind? n.kind with
  | some r => exact perform_singleton ctx _ _
  | none =>
    rw [hform]
    exact perform_singleton ctx _ _

/-! ### Chains of binary operators -/

theorem Form.mem_kinds_binary {kind : String} (hk : kind = "binary_expression") :
    kind ∈ Form.binary.kinds := by
  simp [Form.kinds, hk]

/-- The operands of any node, of which a node that is no chain is itself the only one, give what the
node gives. -/
theorem perform_binarySteps : perform ctx (verdict ctx) (binarySteps s n) = verdict ctx s n := by
  by_cases hk : n.kind = "binary_expression"
  · exact (verdict_of_form (Form.mem_kinds_binary hk)).symm
  · rw [binarySteps, Node.operands_of_not_binary hk]
    exact perform_singleton ctx _ _

/-- **A chain gives what its left part and its right part give**, though its operands are looked at
as one level. -/
theorem verdict_of_binary (hk : n.kind = "binary_expression") :
    verdict ctx s n =
      perform ctx (verdict ctx) [.part s (n.child? .left), .part s (n.child? .right)] := by
  rw [← perform_binarySteps, binarySteps, Node.operands_of_binary hk]
  cases n.child? .left with
  | none => rfl
  | some l =>
    have hleft : perform ctx (verdict ctx) (binarySteps s l) = verdict ctx s l :=
      perform_binarySteps
    rw [perform_cons, Step.part, Step.result, ← hleft, binarySteps, Option.bind_some]
    cases l.operands with
    | none => rfl
    | some ops => exact (congrArg _ List.map_append).trans (perform_append ctx _ _ _)

end ScriptGate.Check
