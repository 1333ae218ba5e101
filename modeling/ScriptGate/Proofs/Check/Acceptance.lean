import ScriptGate.Ecma.Parser
import ScriptGate.Proofs.Check.Permission

/-!
# Exact acceptance

A check finds nothing in a well-shaped construct if and only if everything that is evaluated inside
it keeps the local rule of its kind, each in its own scope and at its own level of nesting. Which
nodes are evaluated is said by the tree alone: `Evaluated` follows the immediate evaluated parts of
constructs, and no check has to be run to know them.

## Main definitions

* `Check.Evaluated`: the nodes evaluated inside a construct, with their scopes and levels.
* `Context.LocalRule`: what is asked of an evaluated node, whatever is below it.

## Main results

* `Check.EvaluatedIn.wellShaped`: the evaluated parts of a well-shaped construct are well-shaped.
* `Check.outcome_succ_eq_nil_iff`: nothing is found at one level if and only if the node keeps its
  rule and nothing is found in its evaluated parts.
* `Check.validate_eq_nil_iff`: a check finds nothing if and only if all evaluated nodes keep their
  local rules.
-/

namespace ScriptGate.Check

/-! ### Evaluated nodes -/

/-- The nodes that are evaluated inside a construct which stands in the scope `s` at the level `d`
of nesting: each with its own scope and level, and the manner in which it is judged. -/
inductive Evaluated (ctx : Context) : Scope → Nat → Node → Scope → Nat → Manner → Node → Prop
  | self {s : Scope} {d : Nat} {n : Node} : Evaluated ctx s d n s d .construct n
  | inside {s s' t : Scope} {d e : Nat} {n c m : Node} {form : Form} {manner : Manner}
      (hk : n.kind ∈ form.kinds) (hc : EvaluatedIn ctx s n form s' .construct c)
      (hm : Evaluated ctx s' (d + 1) c t e manner m) : Evaluated ctx s d n t e manner m
  | name {s s' : Scope} {d : Nat} {n m : Node} {form : Form} (hk : n.kind ∈ form.kinds)
      (hm : EvaluatedIn ctx s n form s' .name m) : Evaluated ctx s d n s' (d + 1) .name m

/-- What is asked of a node that is evaluated in the scope `s` at the level `d` of nesting. A bare
name has to be permitted. A construct has to be of a kind that is known and not rejected, to stand
above the nesting limit, and to be permitted as its form asks. -/
def Context.LocalRule (ctx : Context) (s : Scope) (d : Nat) : Manner → Node → Prop
  | .name, n => ctx.PermitsName s n
  | .construct, n => Rejection.ofKind? n.kind = none ∧ d < ctx.policy.maxDepth ∧
      ∃ form : Form, n.kind ∈ form.kinds ∧ ctx.Permits s form n

/-! ### Evaluated parts are well-shaped -/

section Acceptance

variable {ctx : Context} {s s' : Scope} {n c : Node}

theorem Suffices.operand {src : Source} {Q : Node → Prop} (hQ : Suffices src Q)
    (ho : Operand n c) (h : Q n) (hk : n.kind = "binary_expression") : Q c := by
  have hpart {n c : Node} {f : Field} (h : Q n) (hk : n.kind = "binary_expression")
      (hc : n.child? f = some c) (hf : f ≠ .operator) : Q c :=
    hQ.child? h (by rw [hk]; decide) (shape_binary hk) hc hf
  induction ho with
  | right hc => exact hpart h hk hc (by decide)
  | left hc => exact hpart h hk hc (by decide)
  | spine hl hleft _ ih => exact ih (hpart h hk hl (by decide)) hleft

/-- **The evaluated parts of a well-shaped construct are well-shaped.** -/
theorem EvaluatedIn.wellShaped {form : Form} {manner : Manner}
    (he : EvaluatedIn ctx s n form s' manner c) (h : WellShaped ctx.source n)
    (hk : n.kind ∈ form.kinds) : WellShaped ctx.source c := by
  cases he with
  | element hc => exact h.part hc
  | substitution ht _ hc =>
    obtain ⟨hmem, hnamed⟩ := Node.mem_namedChildren.mp ht
    exact (h.child hmem hnamed).part hc
  | inner hc => exact h.part (by simp [hc])
  | computedKey hm hp hkey _ hc =>
    exact ((h.part hm).child? (shape_pair hp) hkey (by decide)).part hc
  | pairValue hm hp hc => exact (h.part hm).child? (shape_pair hp) hc (by decide)
  | shorthand hm => exact h.part hm
  | argument hc => exact h.child? (shape_unary (by simpa [Form.kinds] using hk)) hc (by decide)
  | operand hc =>
    exact (suffices_wellShaped ctx.source).operand hc h (by simpa [Form.kinds] using hk)
  | branch hf hc =>
    exact h.child? (shape_ternary (by simpa [Form.kinds] using hk)) hc (by rintro rfl; simp at hf)
  | object _ hc => exact h.child? (shape_member (by simpa [Form.kinds] using hk)) hc (by decide)
  | methodObject hf hmember hc =>
    have hcallee := (h.child? (shape_call (by simpa [Form.kinds] using hk)) hf (by decide)).unwrap
    exact hcallee.child? (shape_member hmember) hc (by decide)
  | callArgument ha _ hc =>
    exact (h.child? (shape_call (by simpa [Form.kinds] using hk)) ha (by decide)).part hc
  | taggedTemplate ha => exact h.child? (shape_call (by simpa [Form.kinds] using hk)) ha (by decide)
  | body hc => exact h.child? (shape_function hk) hc (by decide)

/-! ### One level -/

theorem outcome_zero_ne_nil : outcome ctx 0 s n ≠ .ok [] := by
  rw [outcome, plan]
  cases Rejection.ofKind? n.kind <;> simp [Step.result, report_ne_nil]

/-- **Nothing is found at one level** if and only if the node is of a kind that is known and not
rejected, is permitted, and nothing is found in its evaluated parts. -/
theorem outcome_succ_eq_nil_iff {room : Nat} (h : WellShaped ctx.source n) :
    outcome ctx (room + 1) s n = .ok [] ↔ Rejection.ofKind? n.kind = none ∧
      ∃ form : Form, n.kind ∈ form.kinds ∧ ctx.Permits s form n ∧
        (∀ s' c, EvaluatedIn ctx s n form s' .construct c → outcome ctx room s' c = .ok []) ∧
        ∀ s' m, EvaluatedIn ctx s n form s' .name m → ctx.PermitsName s' m := by
  rw [outcome, perform_eq_nil_iff, plan]
  cases hr : Rejection.ofKind? n.kind with
  | some r => simp
  | none =>
    cases hform : Form.ofKind? n.kind with
    | none =>
      have hno : ∀ form : Form, n.kind ∉ form.kinds := fun form hk => by
        rw [Form.ofKind?_eq_some_iff.mpr hk] at hform
        cases hform
      simp [hno]
    | some form =>
      have hk := Form.ofKind?_eq_some_iff.mp hform
      simp only [clean_steps_iff h hk, true_and]
      constructor
      · exact fun hclean => ⟨form, hk, hclean⟩
      · rintro ⟨other, hother, hclean⟩
        obtain rfl := Form.eq_of_mem_kinds hk hother
        exact hclean

/-! ### All levels -/

/-- Nothing is found in a node at the level `d` of nesting if and only if all nodes evaluated inside
it keep their local rules. -/
theorem outcome_eq_nil_iff {room d : Nat} (h : WellShaped ctx.source n)
    (hd : d + room = ctx.policy.maxDepth) :
    outcome ctx room s n = .ok [] ↔
      ∀ t e manner m, Evaluated ctx s d n t e manner m → ctx.LocalRule t e manner m := by
  -- The level of a node and the room that is left below it add up to the nesting limit.
  induction room generalizing d s n with
  | zero =>
    refine ⟨fun hnil => absurd hnil outcome_zero_ne_nil, fun hall => ?_⟩
    obtain ⟨-, hlt, -⟩ := hall s d .construct n .self
    omega
  | succ room ih =>
    rw [outcome_succ_eq_nil_iff h]
    constructor
    · rintro ⟨hr, form, hk, hpermits, hparts, hnames⟩ t e manner m hev
      cases hev with
      | self => exact ⟨hr, by omega, form, hk, hpermits⟩
      | inside hk' hc hm =>
        obtain rfl := Form.eq_of_mem_kinds hk hk'
        exact (ih (hc.wellShaped h hk) (by omega)).mp (hparts _ _ hc) t e manner m hm
      | name hk' hm =>
        obtain rfl := Form.eq_of_mem_kinds hk hk'
        exact hnames _ _ hm
    · intro hall
      obtain ⟨hr, -, form, hk, hpermits⟩ := hall s d .construct n .self
      refine ⟨hr, form, hk, hpermits, fun s' c hc => ?_, fun s' m hm => ?_⟩
      · refine (ih (hc.wellShaped h hk) (d := d + 1) (by omega)).mpr fun t e manner m hm => ?_
        exact hall t e manner m (.inside hk hc hm)
      · exact hall _ _ _ _ (.name hk hm)

/-- **A check finds nothing in a well-shaped construct if and only if every node that is evaluated
inside it keeps its local rule in its own scope.** -/
theorem validate_eq_nil_iff (h : WellShaped ctx.source n) :
    (validate ctx n s).1 = .ok [] ↔
      ∀ t d manner m, Evaluated ctx s 0 n t d manner m → ctx.LocalRule t d manner m := by
  rw [validate_eq]
  exact outcome_eq_nil_iff h (Nat.zero_add _)

end Acceptance

/-! ### A script that is accepted -/

/-- The context of a script under the standard policy. -/
def standardContext (script : String) (allowed : List Text) : Context :=
  ⟨Source.ofChars script.toList .utf16, allowed, Policy.standard⟩

open Ecma in
/-- The tree of `x => Math.max(x, a.b)`. -/
def limitCallback : Node :=
  let callee := bare "member_expression" 5 13
    [inField (bare "identifier" 5 9 []) .object,
     inField (bare "property_identifier" 10 13 []) .property]
  let chain := bare "member_expression" 17 20
    [inField (bare "identifier" 17 18 []) .object,
     inField (bare "property_identifier" 19 20 []) .property]
  let arguments := bare "arguments" 13 21 [bare "identifier" 14 15 [], chain]
  let call := bare "call_expression" 5 21 [inField callee .function, inField arguments .arguments]
  let function := bare "arrow_function" 0 21
    [inField (bare "identifier" 0 1 []) .parameter, inField call .body]
  bare "program" 0 21 [bare "expression_statement" 0 21 [function]]

/-- The context of that script, with the variable `a.b`. -/
def limitContext : Context := standardContext "x => Math.max(x, a.b)" ["a.b"]

/-- A parameter, a method of a namespace and an accepted variable in one script. -/
theorem limitCallback_keeps_localRule : WellShaped limitContext.source limitCallback ∧
    ∀ t d manner m, Evaluated limitContext {} 0 limitCallback t d manner m →
      limitContext.LocalRule t d manner m :=
  ⟨by decide, (validate_eq_nil_iff (by decide)).mp rfl⟩

end ScriptGate.Check
