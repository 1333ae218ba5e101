import ScriptGate.Proofs.Check.Permission
import ScriptGate.Proofs.Syntax.Descent

/-!
# Where a check goes and what it says

The steps of a check of a node are about nodes inside it, whatever the tree looks like. A visit goes
down, and takes place in the scope that belongs to the place of the node that is visited: the
functions that are passed on the way down to it have bound their parameters, and nothing else has
bound a name. The way into a function leads through its body, and a visit passes no function but the
one that it may begin at. A report says one of a few things about its node.

## Main definitions

* `Context.frames`: the names that the functions among enclosing nodes bind.
* `Check.Route`: a way down that enters functions by their bodies.
* `Context.Tells`: what a report may say about a node.
* `Check.Reach`: steps that stay inside a node, visit in the right scope and say what may be said.

## Main results

* `Check.Reach.below`: what stays inside a part of a node stays inside the node.
* `Check.reach_steps`, `Check.reach_plan`: the steps of a node stay inside it.
-/

namespace ScriptGate

/-- The scope with further frames opened, one after the other. -/
def Scope.enterAll (s : Scope) (frames : List (List Text)) : Scope :=
  frames.foldl (fun s names => s.enter names) s

namespace Check

/-- The names that the functions among enclosing nodes bind, a frame for each function. -/
def Context.frames (ctx : Context) (above : List Node) : List (List Text) :=
  (above.filter fun f => f.kind ∈ functionKinds).map fun f => boundNames ctx (parameters f)

/-- A way from a node down to another that enters every function by its body. -/
inductive Route : Node → List Node → Node → Prop
  | here {n : Node} : Route n [] n
  | down {n c m : Node} {above : List Node} (hc : c ∈ n.children)
      (hbody : n.kind ∈ functionKinds → n.child? .body = some c) (h : Route c above m) :
      Route n (n :: above) m

/-! ### Messages -/

/-- The messages that are the same for every script. -/
def fixedMessages : List String :=
  [computedMemberMessage, globalCallMessage, memberMessage, nestingMessage] ++
    Rejection.table.map fun entry => entry.2.message

/-- The kinds of the nodes that are reported by their text. -/
def nameKinds : List String := ["identifier", "shorthand_property_identifier"]

/-- What a report may say about a node. -/
inductive Context.Tells (ctx : Context) (n : Node) : Text → Prop
  | name {name : Text} (hkind : n.kind ∈ nameKinds) (h : ctx.text n = .ok name) :
      ctx.Tells n (identifierTemplate.fill name)
  | operator {operator : Node} (h : n.child? .operator = some operator) :
      ctx.Tells n (operatorTemplate.fill operator.kind)
  | kind : ctx.Tells n (unsupportedTemplate.fill n.kind)
  | optionalChain : ctx.Tells n (unsupportedTemplate.fill "optional chaining")
  | callOf {function : Node} (h : n.child? .function = some function) :
      ctx.Tells n (unsupportedTemplate.fill ("call of " ++ function.unwrap.kind : String))
  | fixed {message : String} (h : message ∈ fixedMessages) : ctx.Tells n message

/-- The step is about a node inside `n`. A visit is of a node below `n`, passes no function after
`n` and takes place in the scope of its place, and a report says what may be said about its node. -/
def Step.Reaches (ctx : Context) (s : Scope) (n : Node) : Step → Prop
  | .report m message => (∃ above, n.Path above m) ∧ ctx.Tells m message
  | .visit t m => ∃ above, Route n above m ∧ t = s.enterAll (ctx.frames above) ∧ above ≠ [] ∧
      ∀ a ∈ above.tail, a.kind ∉ functionKinds
  | .fail _ => True

/-- All steps are about nodes inside `n`. -/
def Reach (ctx : Context) (s : Scope) (n : Node) (steps : List Step) : Prop :=
  ∀ step ∈ steps, step.Reaches ctx s n

section Frames

variable {ctx : Context} {l k : List Node} {n : Node}

theorem frames_append : ctx.frames (l ++ k) = ctx.frames l ++ ctx.frames k := by
  simp [Context.frames]

theorem frames_eq_nil_iff : ctx.frames l = [] ↔ ∀ a ∈ l, a.kind ∉ functionKinds := by
  simp [Context.frames]

theorem frames_eq_nil (h : ∀ a ∈ l, a.kind ∉ functionKinds) : ctx.frames l = [] :=
  frames_eq_nil_iff.mpr h

theorem frames_function (h : n.kind ∈ functionKinds) :
    ctx.frames [n] = [boundNames ctx (parameters n)] := by
  simp [Context.frames, h]

theorem enterAll_append {s : Scope} {fs gs : List (List Text)} :
    s.enterAll (fs ++ gs) = (s.enterAll fs).enterAll gs := List.foldl_append

/-- Nodes of one kind that is not a function bind nothing. -/
theorem frames_of_kind {kind : String} (h : ∀ a ∈ l, a.kind = kind)
    (hk : kind ∉ functionKinds) : ctx.frames l = [] :=
  frames_eq_nil fun a ha => h a ha ▸ hk

end Frames

/-! ### Ways through bodies -/

namespace Route

variable {n m k : Node} {above below : List Node}

theorem path (h : Route n above m) : n.Path above m := by
  induction h with
  | here => exact .here
  | down hc _ _ ih => exact .down hc ih

theorem trans (h : Route n above m) (h' : Route m below k) : Route n (above ++ below) k := by
  induction h with
  | here => exact h'
  | down hc hbody _ ih => exact .down hc hbody (ih h')

theorem body (h : n.child? .body = some m) : Route n [n] m :=
  .down (Node.child?_eq_some h).1 (fun _ => h) .here

/-- A way on which no function lies. -/
theorem of_path {ctx : Context} (h : n.Path above m) (hf : ctx.frames above = []) :
    Route n above m := by
  have hplain := frames_eq_nil_iff.mp hf
  induction h with
  | here => exact .here
  | down hc _ ih =>
    obtain ⟨hn, hbelow⟩ := List.forall_mem_cons.mp hplain
    exact .down hc (fun hfunction => absurd hfunction hn)
      (ih (frames_eq_nil hbelow) hbelow)

end Route

/-! ### Steps inside a node -/

namespace Reach

variable {ctx : Context} {s : Scope} {n m : Node} {above : List Node}

protected theorem nil : Reach ctx s n [] := by simp [Reach]

protected theorem fail {fault : Fault} : Reach ctx s n [.fail fault] := by
  simp [Reach, Step.Reaches]

protected theorem append {a b : List Step} (ha : Reach ctx s n a) (hb : Reach ctx s n b) :
    Reach ctx s n (a ++ b) := fun step hstep =>
  (List.mem_append.mp hstep).elim (ha step) (hb step)

protected theorem flatMap {α : Type} {l : List α} {f : α → List Step}
    (h : ∀ a ∈ l, Reach ctx s n (f a)) : Reach ctx s n (l.flatMap f) := by
  intro step hstep
  obtain ⟨a, ha, hmem⟩ := List.mem_flatMap.mp hstep
  exact h a ha step hmem

/-- A report of a node inside `n`. -/
theorem report {message : Text} (hp : n.Path above m) (ht : ctx.Tells m message) :
    Reach ctx s n [.report m message] := by
  simpa [Reach, Step.Reaches] using ⟨⟨above, hp⟩, ht⟩

/-- A report of the node itself. -/
theorem self {message : Text} (ht : ctx.Tells n message) : Reach ctx s n [.report n message] :=
  report .here ht

/-- A visit of a node below `n` to which no function lies on the way. -/
theorem visit (hp : n.Path above m) (hf : ctx.frames above = []) (hne : above ≠ []) :
    Reach ctx s n [.visit s m] := by
  have hreach : ∃ above, Route n above m ∧ s = s.enterAll (ctx.frames above) ∧ above ≠ [] ∧
      ∀ a ∈ above.tail, a.kind ∉ functionKinds :=
    ⟨above, .of_path hp hf, by rw [hf]; rfl, hne, fun a ha =>
      frames_eq_nil_iff.mp hf a (List.mem_of_mem_tail ha)⟩
  simpa only [Reach, List.forall_mem_singleton, Step.Reaches] using hreach

theorem map_visit {ns : List Node}
    (h : ∀ m ∈ ns, ∃ above, n.Path above m ∧ ctx.frames above = [] ∧ above ≠ []) :
    Reach ctx s n (ns.map (.visit s)) := by
  intro step hstep
  obtain ⟨m, hm, rfl⟩ := List.mem_map.mp hstep
  obtain ⟨above, hp, hf, hne⟩ := h m hm
  exact visit hp hf hne _ (List.mem_singleton_self _)

/-- A visit of a part, which may be missing, of a construct that is not a function. -/
theorem part {f : Field} (hn : n.kind ∉ functionKinds) : Reach ctx s n [.part s (n.child? f)] := by
  cases hc : n.child? f with
  | none => exact .fail
  | some c => exact visit (.child? hc) (frames_eq_nil (by simpa using hn)) (by simp)

/-- A visit of all parts of a construct that is not a function. -/
theorem parts (hn : n.kind ∉ functionKinds) : Reach ctx s n (n.parts.map (.visit s)) :=
  map_visit fun _ hm => ⟨[n], .part hm, frames_eq_nil (by simpa using hn), by simp⟩

/-- Steps that depend on something that may fail. -/
theorem settled_bind {α : Type} {x : Except Fault α} {f : α → Except Fault (List Step)}
    (h : ∀ a, x = .ok a → Reach ctx s n (settled (f a))) : Reach ctx s n (settled (x >>= f)) := by
  cases x with
  | error fault => exact .fail
  | ok a => exact h a rfl

/-- **What stays inside a part of a node stays inside the node**, if neither the part nor what lies
on the way to it is a function. -/
theorem below {steps : List Step} (hp : n.Path above m) (hf : ctx.frames above = [])
    (hm : m.kind ∉ functionKinds) (h : Reach ctx s m steps) : Reach ctx s n steps := by
  intro step hstep
  have hreach := h step hstep
  cases step with
  | report k message =>
    obtain ⟨⟨below, hbelow⟩, ht⟩ := hreach
    exact ⟨⟨above ++ below, hp.trans hbelow⟩, ht⟩
  | visit t k =>
    obtain ⟨below, hbelow, ht, hne, hplain⟩ := hreach
    have hbelow' : ∀ a ∈ below, a.kind ∉ functionKinds := by
      cases hbelow with
      | here => simp
      | down _ _ _ => exact List.forall_mem_cons.mpr ⟨hm, hplain⟩
    have hall := List.forall_mem_append.mpr ⟨frames_eq_nil_iff.mp hf, hbelow'⟩
    exact ⟨above ++ below, (Route.of_path hp hf).trans hbelow, by rw [ht, frames_append, hf]; rfl,
      List.append_ne_nil_of_right_ne_nil above hne, fun a ha => hall a (List.mem_of_mem_tail ha)⟩
  | fail fault => trivial

end Reach

/-! ### The steps of each form -/

section Forms

variable {ctx : Context} {s : Scope} {n : Node}

theorem reach_nameSteps (hkind : n.kind ∈ nameKinds) : Reach ctx s n (nameSteps ctx s n) := by
  refine .settled_bind fun name hname => ?_
  split
  · exact .nil
  split
  · exact .nil
  refine .settled_bind fun accepted _ => ?_
  cases accepted with
  | true => exact .nil
  | false => exact .self (.name hkind hname)

theorem reach_objectMemberSteps {m : Node} (hn : n.kind ∉ functionKinds) (hm : m ∈ n.parts) :
    Reach ctx s n (objectMemberSteps ctx s m) := by
  have hframes : ctx.frames [n] = [] := frames_eq_nil (by simpa using hn)
  rw [objectMemberSteps]
  split
  case isTrue hpair =>
    have hmk : m.kind ∉ functionKinds := by rw [hpair]; decide
    refine .below (.part hm) hframes hmk (.append ?_ (.part hmk))
    cases hkey : m.child? .key with
    | none => exact .nil
    | some key =>
      dsimp only
      split
      case isTrue hcomputed =>
        have hk : key.kind ∉ functionKinds := by rw [hcomputed]; decide
        exact .below (.child? hkey) (frames_eq_nil (by simpa using hmk)) hk (.parts hk)
      · exact .nil
  split
  case isTrue hshort =>
    exact .below (.part hm) hframes (by rw [hshort]; decide)
      (reach_nameSteps (by rw [hshort]; decide))
  · exact .report (.part hm) .kind

theorem reach_unarySteps (hn : n.kind ∉ functionKinds) : Reach ctx s n (unarySteps ctx s n) := by
  refine .settled_bind fun operator hoperator => ?_
  rw [settled_pure]
  split
  · exact .part hn
  · exact .self (.operator (need_eq_ok hoperator))

theorem reach_accessSteps {trusted : Text → Text → Bool} {listed : List Text}
    (hn : n.kind ∉ functionKinds) : Reach ctx s n (accessSteps ctx s trusted listed n) := by
  refine .settled_bind fun property hproperty => .settled_bind fun name _ =>
    .settled_bind fun ns _ => ?_
  have hreport : Reach ctx s n [.report property memberMessage] :=
    .report (.child? (need_eq_ok hproperty)) (.fixed (by decide))
  rw [settled_pure]
  cases ns with
  | some ns =>
    dsimp only
    split
    · exact .nil
    · exact hreport
  | none =>
    dsimp only
    split
    · exact .part hn
    · exact .append (a := [_]) (.part hn) hreport

theorem reach_memberSteps (hn : n.kind ∉ functionKinds) : Reach ctx s n (memberSteps ctx s n) := by
  rw [memberSteps]
  split
  · exact .self .optionalChain
  refine .settled_bind fun accepted _ => ?_
  cases accepted with
  | true => exact .nil
  | false => exact reach_accessSteps hn

theorem reach_methodSteps (hn : n.kind ∉ functionKinds) : Reach ctx s n (methodSteps ctx s n) := by
  rw [methodSteps]
  split
  · exact .self .optionalChain
  · exact reach_accessSteps hn

theorem reach_argumentSteps (hn : n.kind ∉ functionKinds) :
    Reach ctx s n (argumentSteps s n) := by
  refine .settled_bind fun arguments harguments => ?_
  have hpath : n.Path [n] arguments := .child? (need_eq_ok harguments)
  have hframes : ctx.frames [n] = [] := frames_eq_nil (by simpa using hn)
  rw [settled_pure]
  split
  case isTrue hk =>
    have harguments : arguments.kind ∉ functionKinds := by rw [hk]; decide
    exact .below hpath hframes harguments (.parts harguments)
  · exact .visit hpath hframes (by simp)

/-- The callee of a call is looked at without its parentheses, and none of these is a function. -/
theorem reach_callSteps (hn : n.kind ∉ functionKinds) : Reach ctx s n (callSteps ctx s n) := by
  rw [callSteps]
  split
  · exact .self .optionalChain
  refine .settled_bind fun function hfunction => ?_
  have hf := need_eq_ok hfunction
  obtain ⟨wrappers, hwrappers, hparens⟩ := function.exists_path_unwrap
  have hpath : n.Path ([n] ++ wrappers) function.unwrap := (Node.Path.child? hf).trans hwrappers
  have hframes : ctx.frames ([n] ++ wrappers) = [] := by
    rw [frames_append, frames_eq_nil (l := [n]) (by simpa using hn),
      frames_of_kind hparens (by decide)]
    rfl
  dsimp only
  split
  · exact .self (.fixed (by decide))
  split
  case isTrue hmember =>
    have hcallee : function.unwrap.kind ∉ functionKinds := by rw [hmember]; decide
    exact .append (.below hpath hframes hcallee (reach_methodSteps hcallee))
      (reach_argumentSteps hn)
  split
  · exact .append (a := [_]) (.report hpath (.fixed (by decide))) (reach_argumentSteps hn)
  · exact .self (.callOf hf)

/-- Where the parameters of a function can be found, they are its parameters. -/
theorem eq_parameters {ps : List Node} (h : parametersOf n = .ok ps) : ps = parameters n := by
  rw [parametersOf] at h
  rw [parameters]
  cases hsingle : n.child? .parameter with
  | some p => simpa [hsingle, pure, Except.pure, eq_comm] using h
  | none =>
    rw [hsingle] at h
    cases hlist : n.child? .parameters with
    | none =>
      rw [hlist] at h
      cases h
    | some list => simpa [hlist, need, pure, Except.pure, bind, Except.bind, eq_comm] using h

theorem exists_path_parameter {p : Node} (h : p ∈ parameters n) : ∃ above, n.Path above p := by
  rw [parameters] at h
  cases hsingle : n.child? .parameter with
  | some single =>
    obtain rfl : p = single := by simpa [hsingle] using h
    exact ⟨_, .child? hsingle⟩
  | none =>
    cases hlist : n.child? .parameters with
    | none => simp [hsingle, hlist] at h
    | some list =>
      have hp : p ∈ list.parts := by simpa [hsingle, hlist] using h
      exact ⟨_, (Node.Path.child? hlist).trans (.part hp)⟩

theorem reach_functionSteps (hn : n.kind ∈ functionKinds) :
    Reach ctx s n (functionSteps ctx s n) := by
  refine .settled_bind fun ps hps => ?_
  obtain rfl := eq_parameters hps
  rw [settled_pure]
  refine .append (.flatMap fun p hp => ?_) ?_
  · obtain ⟨above, hpath⟩ := exists_path_parameter hp
    rw [parameterSteps]
    split
    · cases ctx.text p with
      | ok name => exact .nil
      | error fault => exact .fail
    · exact .report hpath .kind
  · cases hbody : n.child? .body with
    | none => exact .fail
    | some body =>
      -- The body is visited in the frame of the function itself, the only one on the way.
      have hreach : ∃ above, Route n above body ∧
          s.enter (boundNames ctx (parameters n)) = s.enterAll (ctx.frames above) ∧ above ≠ [] ∧
          ∀ a ∈ above.tail, a.kind ∉ functionKinds :=
        ⟨[n], .body hbody, by rw [frames_function hn]; rfl, by simp, by simp⟩
      simpa only [Reach, List.forall_mem_singleton, Step.part, Step.Reaches] using hreach

/-- Only operators lie between a chain and its operands, and at least one of them. -/
theorem exists_path_operand {ops : List (Option Node)} {c : Node} (hops : n.operands = some ops)
    (hc : some c ∈ ops) : ∃ above, n.Path above c ∧ (∀ a ∈ above, a.kind = "binary_expression") ∧
      (n.kind = "binary_expression" → above ≠ []) := by
  induction n using Node.tree_induction generalizing ops with
  | step n ih =>
    by_cases hk : n.kind = "binary_expression"
    · rw [Node.operands_of_binary hk] at hops
      obtain ⟨lops, hlops, rfl⟩ := Option.map_eq_some_iff.mp hops
      obtain ⟨l, hl, hlops⟩ := Option.bind_eq_some_iff.mp hlops
      rcases List.mem_append.mp hc with hc | hc
      · obtain ⟨above, hpath, hkinds, -⟩ := ih l (Node.child?_eq_some hl).1 hlops hc
        exact ⟨n :: above, .down (Node.child?_eq_some hl).1 hpath,
          List.forall_mem_cons.mpr ⟨hk, hkinds⟩, fun _ => List.cons_ne_nil _ _⟩
      · exact ⟨[n], .child? (List.mem_singleton.mp hc).symm, by simpa using hk, by simp⟩
    · rw [Node.operands_of_not_binary hk] at hops
      obtain rfl : [some n] = ops := Option.some.inj hops
      obtain rfl : c = n := Option.some.inj (List.mem_singleton.mp hc)
      exact ⟨[], .here, by simp, fun hbinary => absurd hbinary hk⟩

theorem reach_binarySteps (hk : n.kind = "binary_expression") :
    Reach ctx s n (binarySteps s n) := by
  rw [binarySteps]
  cases hops : n.operands with
  | none => exact .fail
  | some ops =>
    intro step hstep
    obtain ⟨o, ho, rfl⟩ := List.mem_map.mp hstep
    cases o with
    | none => trivial
    | some c =>
      obtain ⟨above, hpath, hkinds, hne⟩ := exists_path_operand hops ho
      exact Reach.visit hpath (frames_of_kind hkinds (by decide)) (hne hk) _
        (List.mem_singleton_self _)

theorem reach_templateSteps (hn : n.kind ∉ functionKinds) :
    Reach ctx s n ((substitutions n).map (.visit s)) := by
  refine .map_visit fun c hc => ?_
  obtain ⟨t, ht, htk, hc⟩ := mem_substitutions.mp hc
  refine ⟨[n] ++ [t], (Node.Path.child (Node.mem_namedChildren.mp ht).1).trans (.part hc), ?_,
    by simp⟩
  rw [frames_append, frames_eq_nil (l := [n]) (by simpa using hn),
    frames_of_kind (l := [t]) (by simpa using htk) (by decide)]
  rfl

theorem reach_parenthesizedSteps (hn : n.kind ∉ functionKinds) :
    Reach ctx s n (parenthesizedSteps s n) := by
  rw [parenthesizedSteps]
  split
  next inner hinner =>
    exact .visit (.part (by simp [hinner])) (frames_eq_nil (by simpa using hn)) (by simp)
  · exact .self .kind

/-- The kinds of all forms but one are no functions. -/
theorem Form.not_mem_functionKinds {form : Form} {kind : String} (h : kind ∈ form.kinds)
    (hform : form ≠ .function) : kind ∉ functionKinds := fun hfunction =>
  hform (Form.eq_of_mem_kinds h (show kind ∈ Form.function.kinds from hfunction))

theorem reach_steps {form : Form} (hk : n.kind ∈ form.kinds) :
    Reach ctx s n (steps ctx s form n) := by
  by_cases hform : form = .function
  · subst hform
    exact reach_functionSteps hk
  have hn := Form.not_mem_functionKinds hk hform
  cases form with
  | sequence => exact .parts hn
  | literal => exact .nil
  | template => exact reach_templateSteps hn
  | identifier => exact reach_nameSteps (List.mem_cons.mpr (.inl (by simpa [Form.kinds] using hk)))
  | parenthesized => exact reach_parenthesizedSteps hn
  | object =>
    exact .flatMap fun m hm => reach_objectMemberSteps hn hm
  | unary => exact reach_unarySteps hn
  | binary => exact reach_binarySteps (by simpa [Form.kinds] using hk)
  | ternary =>
    rw [steps]
    exact .append (a := [_]) (.part hn) (.append (a := [_]) (.part hn) (.part hn))
  | member => exact reach_memberSteps hn
  | subscript => exact .self (.fixed (by decide))
  | call => exact reach_callSteps hn
  | function => exact absurd rfl hform

theorem Rejection.message_mem_fixedMessages {kind : String} {r : Rejection}
    (h : Rejection.ofKind? kind = some r) : r.message ∈ fixedMessages := by
  obtain ⟨before, after, htable, -⟩ := List.lookup_eq_some_iff.mp h
  refine List.mem_append_right _ (List.mem_map.mpr ⟨(kind, r), ?_, rfl⟩)
  rw [htable]
  exact List.mem_append_right _ (List.mem_cons_self ..)

/-- **The steps of a node stay inside it**, visit nodes below it in the scopes of their places, and
say what may be said. -/
theorem reach_plan {room : Nat} : Reach ctx s n (plan ctx s room n) := by
  unfold plan
  split
  next r hr => exact .self (.fixed (Rejection.message_mem_fixedMessages hr))
  cases room with
  | zero => exact .self (.fixed (by decide))
  | succ room =>
    dsimp only
    split
    next form hform => exact reach_steps (Form.ofKind?_eq_some_iff.mp hform)
    · exact .self .kind

end Forms

end Check

end ScriptGate
