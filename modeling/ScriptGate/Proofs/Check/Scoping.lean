import ScriptGate.Check.Script
import ScriptGate.Proofs.Check.Acceptance
import ScriptGate.Proofs.Check.Reach

/-!
# Names are scoped by where they stand

The checker keeps the names of parameters on a stack, which it changes on its way through a tree.
What the stack answers is nevertheless determined by the place of the node that is asked about: a
name is bound if it was bound to begin with, or if it is a parameter of a function whose body the
node is in. To see every single test, the rules of the checker are run by a walker that keeps a
record of them. The walker counts the levels that it is below its start, as it goes down and comes
back up, and goes by this count when it looks at the nesting limit. It finds what the checker finds.
However a check ends, also with a fault in the middle of nested functions, the stack and the count
are back where they were.

## Main definitions

* `Check.Test`, `Check.Walker`: a test of a name, and what a walker carries along.
* `Check.Walking`: the actions of a walker; `Check.observe`: the check that it carries out.
* `Context.BoundAround`: a parameter of a function whose body holds a node.
* `Check.Test.Lexical`: a test that is answered by the place of its node.

## Main results

* `Check.Route.isBound_iff`: what the scope of a place binds.
* `Check.settles_observe`: the walker finds what the checker finds, restores what it carries along
  and tests names at their places.
* `Script.validate_lexically_scoped`: this, for the check of any node of a script.
-/

namespace ScriptGate

namespace Check

/-! ### A walker that keeps a record -/

/-- A test of a name, with the node that spells it, the nodes whose rules were under way, from the
outside in, and what the scope answered. -/
structure Test where
  under : List Node
  node : Node
  name : Text
  answer : Bool

/-- What a walker carries along: the scope, the count of levels, the nodes whose rules are under
way, and the tests so far. -/
structure Walker where
  scope : Scope
  depth : Nat := 0
  under : List Node := []
  tests : List Test := []

/-- Puts a test on record. -/
def Walker.note (w : Walker) (n : Node) (name : Text) : Walker :=
  { w with tests := w.tests ++ [⟨w.under, n, name, w.scope.isBound name⟩] }

/-- The actions of a walker. What it carries along outlives a fault. -/
abbrev Walking := ExceptT Fault (StateM Walker)

instance : MonadScope Walking where
  isBound n name := do
    let w ← get
    set (w.note n name)
    pure (w.scope.isBound name)
  within names act := fun w =>
    let inner := act.run { w with scope := w.scope.enter names }
    let outer := Scope.leave Fault.scope inner.1 inner.2.scope
    (outer.1, { inner.2 with scope := outer.2 })

/-- Carries out the rule of a node one level down, and comes back up whatever the outcome is. -/
def Walking.nested {α : Type} (n : Node) (act : Walking α) : Walking α := fun w =>
  let inner := act.run { w with depth := w.depth + 1, under := w.under ++ [n] }
  (inner.1, { inner.2 with depth := inner.2.depth - 1, under := inner.2.under.dropLast })

/-- The check of a node by a walker. How far it goes down is decided by the count of the walker; the
argument `levels` only has to be larger than what the limit leaves. -/
def observe (ctx : Context) : (levels : Nat) → Node → Walking (List Diagnostic)
  | 0, _ => pure []
  | levels + 1, n =>
    match Rejection.ofKind? n.kind with
    | some r => ctx.report n r.message
    | none => do
      let w ← get
      if ctx.policy.maxDepth ≤ w.depth then ctx.report n nestingMessage
      else
        match Form.ofKind? n.kind with
        | some form => Walking.nested n (rule ctx (observe ctx levels) form n)
        | none => ctx.unsupported n n.kind

/-! ### Names and places -/

/-- The name is a parameter of a function among the nodes above `m`, whose body holds `m`. -/
def Context.BoundAround (ctx : Context) (above : List Node) (m : Node) (name : Text) : Prop :=
  ∃ up f down body p, above = up ++ f :: down ∧ f.kind ∈ functionKinds ∧
    f.child? .body = some body ∧ body.Path down m ∧
    p ∈ parameters f ∧ p.kind = "identifier" ∧ ctx.text p = .ok name

/-- The functions among nodes. -/
def functionsAmong (ns : List Node) : List Node := ns.filter fun f => f.kind ∈ functionKinds

/-- The test is about the name that its node spells, and is answered by the place of the node inside
`root`: the name is bound if it was bound in the scope `start` or is a parameter of a function whose
body holds the node. The functions around that place are those whose rules were under way. -/
structure Test.Lexical (ctx : Context) (start : Scope) (root : Node) (t : Test) : Prop where
  text : ctx.text t.node = .ok t.name
  place : ∃ above, root.Path above t.node ∧ functionsAmong above = functionsAmong t.under ∧
    (t.answer = true ↔
      (∃ frame ∈ start.frames, t.name ∈ frame) ∨ ctx.BoundAround above t.node t.name)

section Places

variable {ctx : Context} {s : Scope} {n m f : Node} {above up down : List Node} {name : Text}

theorem isBound_enterAll {frames : List (List Text)} : (s.enterAll frames).isBound name ↔
    (∃ frame ∈ s.frames, name ∈ frame) ∨ ∃ frame ∈ frames, name ∈ frame := by
  induction frames generalizing s with
  | nil => simp [Scope.enterAll, Scope.isBound]
  | cons names frames ih =>
    have hfirst : s.enterAll (names :: frames) = (s.enter names).enterAll frames := rfl
    rw [hfirst, ih]
    simp only [Scope.enter, List.mem_cons, or_and_right, exists_or, exists_eq_left]
    rw [or_assoc, or_left_comm]

/-- On the way down, a function is followed by its body. -/
theorem Route.split (h : Route n (up ++ f :: down) m) :
    ∃ c, (f.kind ∈ functionKinds → f.child? .body = some c) ∧ Route c down m := by
  induction up generalizing n with
  | nil =>
    cases h with
    | down _ hbody h => exact ⟨_, hbody, h⟩
  | cons a up ih =>
    cases h with
    | down _ _ h => exact ih h

/-- **What the scope of a place binds**: what was bound to begin with, and the parameters of the
functions whose bodies hold the place. -/
theorem Route.isBound_iff (h : Route n above m) :
    (s.enterAll (ctx.frames above)).isBound name ↔
      (∃ frame ∈ s.frames, name ∈ frame) ∨ ctx.BoundAround above m name := by
  rw [isBound_enterAll]
  refine or_congr_right ?_
  simp only [Context.frames, List.mem_map, List.mem_filter, decide_eq_true_eq]
  constructor
  · rintro ⟨_, ⟨f, ⟨hf, hk⟩, rfl⟩, hname⟩
    obtain ⟨p, hp, hident, htext⟩ := mem_boundNames_iff.mp hname
    obtain ⟨up, down, rfl⟩ := List.append_of_mem hf
    obtain ⟨body, hbody, hroute⟩ := h.split
    exact ⟨up, f, down, body, p, rfl, hk, hbody hk, hroute.path, hp, hident, htext⟩
  · rintro ⟨up, f, down, body, p, rfl, hk, -, -, hp, hident, htext⟩
    exact ⟨_, ⟨f, ⟨by simp, hk⟩, rfl⟩, mem_boundNames_iff.mpr ⟨p, hp, hident, htext⟩⟩

theorem functionsAmong_append {ns ms : List Node} :
    functionsAmong (ns ++ ms) = functionsAmong ns ++ functionsAmong ms := List.filter_append ..

theorem functionsAmong_eq_nil {ns : List Node} (h : ∀ a ∈ ns, a.kind ∉ functionKinds) :
    functionsAmong ns = [] := by
  simpa [functionsAmong] using h

/-- A visit passes no other function than the one that it begins at. -/
theorem Route.functionsAmong_eq (h : Route n above m) (hne : above ≠ [])
    (htail : ∀ a ∈ above.tail, a.kind ∉ functionKinds) :
    functionsAmong above = functionsAmong [n] := by
  cases h with
  | here => exact absurd rfl hne
  | @down _ _ _ rest _ _ _ =>
    have hrest : functionsAmong rest = [] := functionsAmong_eq_nil htail
    have hsplit : functionsAmong ([n] ++ rest) = functionsAmong [n] ++ functionsAmong rest :=
      functionsAmong_append
    rwa [hrest, List.append_nil] at hsplit

/-- The nodes whose names a rule tests are inside its node, with no function on the way. -/
theorem Form.Tests.exists_path {form : Form} (h : form.Tests n m) (hk : n.kind ∈ form.kinds) :
    ∃ above, n.Path above m ∧ (∀ a ∈ above, a.kind ∉ functionKinds) ∧ n.kind ∉ functionKinds := by
  have hparens (e : Node) :
      ∃ above, e.Path above e.unwrap ∧ ∀ a ∈ above, a.kind ∉ functionKinds := by
    obtain ⟨above, hpath, hkinds⟩ := e.exists_path_unwrap
    exact ⟨above, hpath, fun a ha => by rw [hkinds a ha]; decide⟩
  have hn : n.kind ∉ functionKinds :=
    Form.not_mem_functionKinds hk (by rintro rfl; cases h)
  cases h with
  | name => exact ⟨[], .here, by simp, hn⟩
  | shorthand hc _ => exact ⟨[n], .part hc, by simpa using hn, hn⟩
  | @read _ object ho _ =>
    obtain ⟨above, hpath, hplain⟩ := hparens object
    exact ⟨n :: above, (Node.Path.child? ho).trans hpath,
      List.forall_mem_cons.mpr ⟨hn, hplain⟩, hn⟩
  | @called _ function object hf hm ho _ =>
    obtain ⟨outer, houter, houterPlain⟩ := hparens function
    obtain ⟨inner, hinner, hinnerPlain⟩ := hparens object
    have hcallee : function.unwrap.kind ∉ functionKinds := by rw [hm]; decide
    refine ⟨n :: (outer ++ function.unwrap :: inner),
      (Node.Path.child? hf).trans (houter.trans ((Node.Path.child? ho).trans hinner)), ?_, hn⟩
    exact List.forall_mem_cons.mpr ⟨hn, List.forall_mem_append.mpr
      ⟨houterPlain, List.forall_mem_cons.mpr ⟨hcallee, hinnerPlain⟩⟩⟩

end Places

/-! ### What the walker does -/

/-- What is known of a walker at a level: an action ends with its outcome, restores all that the
walker carries along, and makes tests that are as `P` says. -/
def Walking.account (P : Test → Prop) (depth : Nat) (under : List Node) : Account Walking where
  Settles c s r := ∀ before, ∃ tests, (∀ t ∈ tests, P t) ∧
    c.run ⟨s, depth, under, before⟩ = (r, ⟨s, depth, under, before ++ tests⟩)
  Admits s n name := P ⟨under, n, name, s.isBound name⟩
  settles_pure s a before := ⟨[], by simp, by rw [List.append_nil]; rfl⟩
  settles_throw s fault before := ⟨[], by simp, by rw [List.append_nil]; rfl⟩
  settles_lift s r before := ⟨[], by simp, by rw [List.append_nil]; rfl⟩
  settles_bind {_ _ s c f r g} hc hf before := by
    obtain ⟨first, hfirst, hrun⟩ := hc before
    rw [ExceptT.run_bind]
    simp only [bind, StateT.bind, hrun]
    cases r with
    | error fault => exact ⟨first, hfirst, rfl⟩
    | ok a =>
      obtain ⟨second, hsecond, hrun'⟩ := hf a rfl (before ++ first)
      exact ⟨first ++ second, List.forall_mem_append.mpr ⟨hfirst, hsecond⟩,
        by rw [← List.append_assoc]; exact hrun'⟩
  settles_isBound {s n name} h before := ⟨[⟨under, n, name, s.isBound name⟩], by simpa using h, rfl⟩
  settles_within {_ s c names r} hc before := by
    -- The frame that is opened around an action is closed again.
    obtain ⟨tests, htests, hrun⟩ := hc before
    have hwithin (w : Walker) : (MonadScope.within names c : Walking _).run w =
      let inner := c.run { w with scope := w.scope.enter names }
      let outer := Scope.leave Fault.scope inner.1 inner.2.scope
      (outer.1, { inner.2 with scope := outer.2 }) := rfl
    refine ⟨tests, htests, ?_⟩
    rw [hwithin, hrun]
    rfl

section Walk

variable {P : Test → Prop} {ctx : Context} {s : Scope} {n : Node} {depth : Nat} {under : List Node}

theorem settles_nested {α : Type} {c : Walking α} {r : Except Fault α}
    (h : (Walking.account P (depth + 1) (under ++ [n])).Settles c s r) :
    (Walking.account P depth under).Settles (Walking.nested n c) s r := by
  intro before
  obtain ⟨tests, htests, hrun⟩ := h before
  have hnested (w : Walker) : (Walking.nested n c).run w =
    let inner := c.run { w with depth := w.depth + 1, under := w.under ++ [n] }
    (inner.1, { inner.2 with depth := inner.2.depth - 1, under := inner.2.under.dropLast }) := rfl
  refine ⟨tests, htests, ?_⟩
  rw [hnested, hrun]
  simp only [Nat.add_sub_cancel, List.dropLast_concat]

theorem settles_get {α : Type} {c : Walker → Walking α} {r : Except Fault α}
    (h : ∀ before, (Walking.account P depth under).Settles (c ⟨s, depth, under, before⟩) s r) :
    (Walking.account P depth under).Settles (get >>= c) s r := fun before => h before before

/-- One level of the walk: the walker finds what the checker finds, if it does so in the rule of the
node, for which it goes down. -/
theorem settles_observe_succ {levels : Nat}
    (hrule : depth < ctx.policy.maxDepth → ∀ form, Form.ofKind? n.kind = some form →
      (Walking.account P (depth + 1) (under ++ [n])).Settles
        (rule ctx (observe ctx levels) form n) s
        (perform ctx (outcome ctx (ctx.policy.maxDepth - (depth + 1))) (steps ctx s form n))) :
    (Walking.account P depth under).Settles (observe ctx (levels + 1) n) s
      (outcome ctx (ctx.policy.maxDepth - depth) s n) := by
  rw [observe]
  cases hrejected : Rejection.ofKind? n.kind with
  | some r =>
    rw [outcome_of_rejected hrejected]
    exact (Walking.account P depth under).settles_lift s _
  | none =>
    refine settles_get fun before => ?_
    dsimp only
    split
    case isTrue hlimit =>
      rw [Nat.sub_eq_zero_of_le hlimit, outcome_at_limit hrejected]
      exact (Walking.account P depth under).settles_lift s _
    case isFalse hlimit =>
      have hroom : ctx.policy.maxDepth - depth = ctx.policy.maxDepth - (depth + 1) + 1 := by omega
      rw [hroom, outcome, plan, hrejected]
      cases hform : Form.ofKind? n.kind with
      | none =>
        dsimp only
        rw [perform_singleton]
        exact (Walking.account P depth under).settles_lift s _
      | some form => exact settles_nested (hrule (by omega) form hform)

/-- **The walker finds what the checker finds, restores what it carries along, and tests names at
their places.** The induction is on the levels. A rule tests names where no further function has
been passed, and its visits go down by ways on which the node itself is the only function. -/
theorem settles_observe {start : Scope} {root : Node} {levels : Nat} {above : List Node}
    (hlevels : ctx.policy.maxDepth ≤ depth + levels) (hroute : Route root above n)
    (hunder : functionsAmong above = functionsAmong under) :
    (Walking.account (Test.Lexical ctx start root) depth under).Settles (observe ctx (levels + 1) n)
      (start.enterAll (ctx.frames above))
      (outcome ctx (ctx.policy.maxDepth - depth) (start.enterAll (ctx.frames above)) n) := by
  induction levels generalizing depth under n above with
  | zero => exact settles_observe_succ fun hdepth => by omega
  | succ levels ih =>
    refine settles_observe_succ fun hdepth form hform => ?_
    have hkind : n.kind ∈ form.kinds := Form.ofKind?_eq_some_iff.mp hform
    refine Account.carries_rule (fun q hq name hname => ?_) fun t c hc => ?_
    · obtain ⟨own, hown, hplain, hn⟩ := hq.exists_path hkind
      have hframes : ctx.frames own = [] := frames_eq_nil hplain
      have hplace : Route root (above ++ own) q := hroute.trans (.of_path hown hframes)
      have hnode : functionsAmong [n] = [] := functionsAmong_eq_nil (by simpa using hn)
      refine ⟨hname, above ++ own, hplace.path, ?_, ?_⟩
      · rw [functionsAmong_append, functionsAmong_append, hunder, hnode,
          functionsAmong_eq_nil hplain]
      · rw [← hplace.isBound_iff, frames_append, hframes, List.append_nil]
    · obtain ⟨below, hbelow, rfl, hne, htail⟩ := reach_steps hkind _ hc
      rw [← enterAll_append, ← frames_append]
      refine ih (by omega) (hroute.trans hbelow) ?_
      rw [functionsAmong_append, functionsAmong_append, hunder, hbelow.functionsAmong_eq hne htail]

end Walk

end Check

/-- **Names are scoped by where they stand, and a check restores its scope.** Take any tree, in
which parts may be missing or stand at impossible places, any stack of frames, policy and accepted
expressions. However the check of a node ends, the stack has the frames that it had before. A walker
that records what the rules ask, and counts the levels for the nesting limit, ends the check in the
same way, with the stack and the count as they were; and every test of a name that it makes is
answered by the place of its node: the name is bound if and only if it is in one of the given frames
or is a parameter, no more than a name, of a function whose body holds the node. -/
theorem Script.validate_lexically_scoped (script : Script) (policy : Policy) (allowed : List Text)
    (n : Node) (scope : Scope) :
    (script.validate policy allowed n scope).2 = scope ∧
    ∃ tests : List Check.Test,
      (Check.observe ⟨script.source, allowed, policy⟩ (policy.maxDepth + 1) n).run
          { scope := scope, depth := 0, under := [], tests := [] } =
        ((script.validate policy allowed n scope).1,
          { scope := scope, depth := 0, under := [], tests := tests }) ∧
      ∀ t ∈ tests, t.Lexical ⟨script.source, allowed, policy⟩ scope n := by
  have hvalidate : script.validate policy allowed n scope =
      (Check.outcome ⟨script.source, allowed, policy⟩ policy.maxDepth scope n, scope) :=
    Check.validate_eq ⟨script.source, allowed, policy⟩ n scope
  have hobserve : (Check.Walking.account
      (Check.Test.Lexical ⟨script.source, allowed, policy⟩ scope n) 0 []).Settles
        (Check.observe ⟨script.source, allowed, policy⟩ (policy.maxDepth + 1) n) scope
        (Check.outcome ⟨script.source, allowed, policy⟩ policy.maxDepth scope n) :=
    Check.settles_observe (by simp) .here rfl
  obtain ⟨tests, htests, hrun⟩ := hobserve []
  rw [hvalidate]
  exact ⟨rfl, tests, hrun, htests⟩

open Ecma in
/-- The tree of `[x => x, x]`, where the second element is outside of the function. -/
def besideCallback : Node :=
  bare "array" 0 11 [bare "arrow_function" 1 7
    [inField (bare "identifier" 1 2 []) .parameter, inField (bare "identifier" 6 7 []) .body],
   bare "identifier" 9 10 []]

example : ((Check.observe (Check.standardContext "[x => x, x]" []) 9 besideCallback).run
    { scope := {} }).2.tests.map (fun t => (t.name, t.answer)) =
      [(Text.ofString "x", true), (Text.ofString "x", false)] := by decide

end ScriptGate
