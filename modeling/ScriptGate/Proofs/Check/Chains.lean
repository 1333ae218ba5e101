import ScriptGate.Proofs.Check.Acceptance
import ScriptGate.Proofs.Check.Unbounded
import ScriptGate.Proofs.Outcome

/-!
# Chains of binary operators

The grammar nests `a + b + c + …` to the left. The checker walks down the left parts of such a chain
and looks at its operands as one level of nesting, however many there are. Recursion into the left
part and then into the right part would look at the same operands in the same order, but would take
a level for each operator. Where the nesting limit lies above the height of the tree, this is the
only difference, and it cannot be seen.

## Main definitions

* `Node.Chain`: operands that are nested to the left.
* `Check.recursiveWalk`: the checker that looks into the left part and the right part of a binary
  expression like into those of any other construct.

## Main results

* `Check.walk_of_chain`: a chain gives what its operands give, one level below.
* `Check.settles_recursiveWalk`, `Check.recursiveOutcome_eq_verdict`: what recursion gives.
* `Check.binary_walk_eq_recursive`: the loop over a chain is the recursion without its levels.
-/

namespace ScriptGate

/-- The node is a chain of binary operators, nested to the left, over two operands or more. The
first operand is not a chain itself, but all others may be. -/
inductive Node.Chain : Node → List Node → Prop
  | pair {n first right : Node} (hk : n.kind = "binary_expression")
      (hfirst : n.child? .left = some first) (hright : n.child? .right = some right)
      (hend : first.kind ≠ "binary_expression") : Chain n [first, right]
  | more {n left right : Node} {operands : List Node} (hk : n.kind = "binary_expression")
      (hleft : n.child? .left = some left) (hright : n.child? .right = some right)
      (h : Chain left operands) : Chain n (operands ++ [right])

namespace Node.Chain

variable {n : Node} {ops : List Node}

theorem kind (h : n.Chain ops) : n.kind = "binary_expression" := by
  cases h with
  | pair hk => exact hk
  | more hk => exact hk

theorem operands_eq (h : n.Chain ops) : n.operands = some (ops.map some) := by
  induction h with
  | pair hk hfirst hright hend =>
    rw [operands_of_binary hk, hfirst, hright, Option.bind_some, operands_of_not_binary hend]
    rfl
  | more hk hleft hright _ ih =>
    rw [operands_of_binary hk, hleft, hright, Option.bind_some, ih, List.map_append]
    rfl

end Node.Chain

namespace Check

/-! ### Chains as one level -/

/-- Visits one after the other give what each of them gives, put together. -/
theorem perform_map_visit {ctx : Context} {find : Scope → Node → Except Fault (List Diagnostic)}
    {s : Scope} (ns : List Node) :
    perform ctx find (ns.map (.visit s)) = (ns.mapM (find s)).map List.flatten := by
  induction ns with
  | nil => rfl
  | cons n ns ih =>
    rw [List.map_cons, perform_cons, Step.result, ih, List.mapM_cons]
    cases find s n with
    | error fault => rfl
    | ok first =>
      cases ns.mapM (find s) with
      | error fault => rfl
      | ok others => rfl

/-- **A chain gives what its operands give**, one after the other and all of them one level below,
however many there are. -/
theorem walk_of_chain {ctx : Context} {room : Nat} {s : Scope} {n : Node} {ops : List Node}
    (h : n.Chain ops) :
    (walk ctx (room + 1) n).run s =
      ((ops.mapM fun e => ((walk ctx room e).run s).1).map List.flatten, s) := by
  have hoperand (e : Node) : ((walk ctx room e).run s).1 = outcome ctx room s e :=
    congrArg Prod.fst (settles_walk ctx room s e)
  have hsteps : plan ctx s (room + 1) n = ops.map (.visit s) := by
    rw [plan_of_form (Form.mem_kinds_binary h.kind), steps, binarySteps, h.operands_eq]
    exact List.map_map
  have hwalk : (walk ctx (room + 1) n).run s = (outcome ctx (room + 1) s n, s) :=
    settles_walk ctx (room + 1) s n
  simp only [hoperand]
  rw [hwalk, outcome, hsteps, perform_map_visit]

/-! ### Chains by recursion -/

section Recursive

variable (ctx : Context)

/-- What is checked of a form, where the rule for a binary expression is to check its left part and
then its right part. -/
def recursiveRule (sub : Node → Checked (List Diagnostic)) (form : Form) (n : Node) :
    Checked (List Diagnostic) :=
  if form = .binary then parts sub [n.child? .left, n.child? .right] else rule ctx sub form n

/-- The checker with this rule. -/
def recursiveWalk : (room : Nat) → Node → Checked (List Diagnostic)
  | 0, n => walk ctx 0 n
  | room + 1, n =>
    match Rejection.ofKind? n.kind with
    | some r => ctx.report n r.message
    | none =>
      match Form.ofKind? n.kind with
      | some form => recursiveRule ctx (recursiveWalk room) form n
      | none => ctx.unsupported n n.kind

/-- The steps of a node under this rule. -/
def recursivePlan (s : Scope) (room : Nat) (n : Node) : List Step :=
  if n.kind = "binary_expression" then [.part s (n.child? .left), .part s (n.child? .right)]
  else plan ctx s (room + 1) n

/-- What this checker gives. -/
def recursiveOutcome : (room : Nat) → Scope → Node → Except Fault (List Diagnostic)
  | 0, s, n => outcome ctx 0 s n
  | room + 1, s, n => perform ctx (recursiveOutcome room) (recursivePlan ctx s room n)

variable {ctx}

/-- **The recursive checker gives its outcome and restores the scope.** -/
theorem settles_recursiveWalk (room : Nat) (s : Scope) (n : Node) :
    Settles (recursiveWalk ctx room n) s (recursiveOutcome ctx room s n) := by
  induction room generalizing s n with
  | zero => exact settles_walk ctx 0 s n
  | succ room ih =>
    rw [recursiveWalk, recursiveOutcome, recursivePlan]
    by_cases hk : n.kind = "binary_expression"
    · have hform : n.kind ∈ Form.binary.kinds := Form.mem_kinds_binary hk
      rw [if_pos hk, Form.not_rejected hform, Form.ofKind?_eq_some_iff.mpr hform]
      exact settles_parts ih s [n.child? .left, n.child? .right]
    · rw [if_neg hk, plan]
      cases Rejection.ofKind? n.kind with
      | some r => exact settles_report s n _
      | none =>
        cases hform : Form.ofKind? n.kind with
        | none => exact settles_report s n _
        | some form =>
          have hother : form ≠ .binary := by
            rintro rfl
            exact hk (by simpa [Form.kinds] using Form.ofKind?_eq_some_iff.mp hform)
          dsimp only
          rw [recursiveRule, if_neg hother]
          exact settles_rule ih s form n

/-- **Recursion gives what the checker gives** where the nesting limit does not cut it short. The
induction is on the levels that are left; a chain gives what its left part and its right part
give. -/
theorem recursiveOutcome_eq_verdict {room : Nat} {s : Scope} {n : Node} (h : n.height < room) :
    recursiveOutcome ctx room s n = verdict ctx s n := by
  induction room generalizing s n with
  | zero => omega
  | succ room ih =>
    rw [recursiveOutcome, recursivePlan]
    by_cases hk : n.kind = "binary_expression"
    · rw [if_pos hk, verdict_of_binary hk]
      refine perform_congr fun t m hm => ih ?_
      have hchild (f : Field) (hf : .visit t m = Step.part s (n.child? f)) : m.height < n.height :=
        Node.height_lt_of_mem_children (Node.child?_eq_some (eq_of_part_eq_visit hf.symm).2).1
      have hlower : m.height < n.height := by
        simp only [List.mem_cons, List.not_mem_nil, or_false] at hm
        exact hm.elim (hchild .left) (hchild .right)
      omega
    · rw [if_neg hk, verdict_eq]
      refine perform_congr fun t m hm => ih ?_
      have hlower := height_lt_of_visit hm
      omega

end Recursive

/-- **The loop over a chain is the recursion without its levels.** At every level above the limit, a
chain of operators gives what its operands give at the next level, in order and put together. Hence
a check of a tree with fewer levels than the limit gives what the recursive checker gives, in every
scope, be it diagnostics or a fault. -/
theorem binary_walk_eq_recursive (ctx : Context) (s : Scope) (n : Node) :
    (∀ (ops : List Node) (d : Nat), n.Chain ops → d < ctx.policy.maxDepth →
      (walk ctx (ctx.policy.maxDepth - d) n).run s =
        ((ops.mapM fun e => ((walk ctx (ctx.policy.maxDepth - (d + 1)) e).run s).1).map
          List.flatten, s)) ∧
    (n.height < ctx.policy.maxDepth →
      (recursiveWalk ctx ctx.policy.maxDepth n).run s = validate ctx n s) := by
  constructor
  · intro ops d hchain hd
    have hroom : ctx.policy.maxDepth - d = ctx.policy.maxDepth - (d + 1) + 1 := by omega
    rw [hroom]
    exact walk_of_chain hchain
  · intro hheight
    have hrecursive : (recursiveWalk ctx ctx.policy.maxDepth n).run s =
        (recursiveOutcome ctx ctx.policy.maxDepth s n, s) :=
      settles_recursiveWalk ctx.policy.maxDepth s n
    rw [hrecursive, recursiveOutcome_eq_verdict hheight, validate_eq, outcome_eq_verdict hheight]

section Sum

open Ecma

/-- The tree of `b*c` in `a+b*c+d`. -/
def sumProduct : Node :=
  inField (bare "binary_expression" 2 5
    [inField (bare "identifier" 2 3 []) .left, inField (bare "identifier" 4 5 []) .right]) .right

/-- The tree of `a+b*c` there. -/
def sumLeft : Node :=
  inField (bare "binary_expression" 0 5
    [inField (bare "identifier" 0 1 []) .left, sumProduct]) .left

/-- The tree of `a+b*c+d`. -/
def sumChain : Node :=
  bare "binary_expression" 0 7 [sumLeft, inField (bare "identifier" 6 7 []) .right]

/-- The operands of `a+b*c+d`. -/
def sumOperands : List Node :=
  [inField (bare "identifier" 0 1 []) .left, sumProduct, inField (bare "identifier" 6 7 []) .right]

/-- The product, which is a chain itself, is one of three operands. Its names are found between the
others, with the loop and by recursion. -/
theorem sumChain_recursive :
    let ctx := standardContext "a+b*c+d" []
    let found : List Diagnostic := [⟨0, 1, "unidetified: a"⟩, ⟨2, 3, "unidetified: b"⟩,
      ⟨4, 5, "unidetified: c"⟩, ⟨6, 7, "unidetified: d"⟩]
    sumChain.Chain sumOperands ∧ (validate ctx sumChain {}).1 = .ok found ∧
      (sumOperands.mapM fun e => ((walk ctx 99 e).run {}).1).map List.flatten = .ok found ∧
      ((recursiveWalk ctx 100 sumChain).run {}).1 = .ok found := by
  intro ctx found
  have hchain : sumChain.Chain sumOperands :=
    .more rfl rfl rfl (.pair rfl rfl rfl (by decide))
  have hfound : (validate ctx sumChain {}).1 = .ok found := eq_ok_of_toOption (by decide +kernel)
  obtain ⟨hwalk, hrecursive⟩ := binary_walk_eq_recursive ctx {} sumChain
  have hoperands := congrArg Prod.fst (hwalk sumOperands 0 hchain (by decide))
  exact ⟨hchain, hfound, hoperands.symm.trans hfound,
    (congrArg Prod.fst (hrecursive (by decide))).trans hfound⟩

end Sum

end Check

end ScriptGate
