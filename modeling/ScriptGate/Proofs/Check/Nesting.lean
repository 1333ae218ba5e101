import ScriptGate.Proofs.Check.Spans
import ScriptGate.Proofs.Check.Subtree
import ScriptGate.Proofs.Check.Wording

/-!
# The nesting limit only cuts

A check with a lower nesting limit takes the same steps as one with a higher limit, down to the
limit. A node at the limit is not looked into; it is reported as nested too deeply, in place of all
that the other check finds in it. No rule says anything like it, so that the places where a check
was cut short can be told from its diagnostics: where none of them speaks of nesting, nothing was
cut, and a higher limit makes no difference.

## Main definitions

* `Check.Unlimited`: steps of which none reports a node as nested too deeply.
* `Check.Shortened`: diagnostics that arise from others by cutting at the nesting limit.

## Main results

* `Check.unlimited_plan`: above the limit no node is reported as nested too deeply.
* `Check.Shortened.eq_of_forall_ne`: without a report of nesting nothing was cut.
* `Check.shortened_outcome`: what a check with a lower limit finds, node by node.
* `Check.validate_withDepth_shortened`: the nesting limit only cuts, and says so.
-/

namespace ScriptGate.Check

/-! ### Rules do not speak of nesting -/

/-- No step reports a node as nested too deeply. -/
def Unlimited (steps : List Step) : Prop :=
  ∀ (n : Node) (message : Text), .report n message ∈ steps → message ≠ nestingMessage

namespace Unlimited

variable {s : Scope} {n : Node}

protected theorem nil : Unlimited [] := by simp [Unlimited]

protected theorem report {message : Text} (h : message ≠ nestingMessage) :
    Unlimited [.report n message] := by
  simpa [Unlimited] using h

protected theorem append {first rest : List Step} (hfirst : Unlimited first)
    (hrest : Unlimited rest) : Unlimited (first ++ rest) := fun m message hm =>
  (List.mem_append.mp hm).elim (hfirst m message) (hrest m message)

protected theorem flatMap {ns : List Node} {f : Node → List Step} (h : ∀ c, Unlimited (f c)) :
    Unlimited (ns.flatMap f) := by
  intro m message hm
  obtain ⟨c, -, hc⟩ := List.mem_flatMap.mp hm
  exact h c m message hc

theorem visits (ns : List Node) : Unlimited (ns.map (.visit s)) := by simp [Unlimited]

theorem parts (os : List (Option Node)) : Unlimited (os.map (.part s)) := by
  intro m message hm
  obtain ⟨o, -, ho⟩ := List.mem_map.mp hm
  cases o with
  | none => cases ho
  | some c => cases ho

theorem settled_bind {α : Type} {r : Except Fault α} {f : α → Except Fault (List Step)}
    (h : ∀ a, Unlimited (settled (f a))) : Unlimited (settled (r >>= f)) := by
  cases r with
  | ok a => exact h a
  | error fault => simp [Unlimited, settled, bind, Except.bind]

end Unlimited

/-- A message that does not begin like the report of nesting is another one. -/
theorem fill_ne_nestingMessage {t : Template} {thing : Text} (hlen : 1 ≤ (t.before : Text).length)
    (hhead : (t.before : Text).take 1 ≠ ("E" : Text)) : t.fill thing ≠ nestingMessage := by
  intro heq
  have htake : (t.fill thing).take 1 = (t.before : Text).take 1 := Template.take_fill hlen
  rw [heq] at htake
  exact hhead htake.symm

section Forms

variable {ctx : Context} {s : Scope} {n : Node}

theorem unlimited_unsupported (kind : Text) :
    Unlimited [.report n (unsupportedTemplate.fill kind)] :=
  .report (fill_ne_nestingMessage (by decide) (by decide))

theorem unlimited_nameSteps : Unlimited (nameSteps ctx s n) := by
  refine .settled_bind fun name => ?_
  split
  · exact .nil
  split
  · exact .nil
  refine .settled_bind fun accepted => ?_
  cases accepted with
  | true => exact .nil
  | false => exact .report (fill_ne_nestingMessage (by decide) (by decide))

theorem unlimited_objectMemberSteps : Unlimited (objectMemberSteps ctx s n) := by
  rw [objectMemberSteps]
  split
  · refine .append ?_ (.parts [n.child? .value])
    split
    · split
      · exact .visits _
      · exact .nil
    · exact .nil
  split
  · exact unlimited_nameSteps
  · exact unlimited_unsupported _

theorem unlimited_unarySteps : Unlimited (unarySteps ctx s n) := by
  refine .settled_bind fun operator => ?_
  rw [settled_pure]
  split
  · exact .parts [n.child? .argument]
  · exact .report (fill_ne_nestingMessage (by decide) (by decide))

theorem unlimited_accessSteps {trusted : Text → Text → Bool} {listed : List Text} :
    Unlimited (accessSteps ctx s trusted listed n) := by
  refine .settled_bind fun property => .settled_bind fun name => .settled_bind fun ns => ?_
  have hreport : Unlimited [.report property memberMessage] := .report (by decide)
  have hobject : Unlimited [.part s (n.child? .object)] := .parts [n.child? .object]
  rw [settled_pure]
  cases ns with
  | some ns =>
    dsimp only
    split
    · exact .nil
    · exact hreport
  | none =>
    dsimp only
    split
    · exact hobject
    · exact .append hobject hreport

theorem unlimited_memberSteps : Unlimited (memberSteps ctx s n) := by
  rw [memberSteps]
  split
  · exact unlimited_unsupported _
  refine .settled_bind fun accepted => ?_
  cases accepted with
  | true => exact .nil
  | false => exact unlimited_accessSteps

theorem unlimited_methodSteps : Unlimited (methodSteps ctx s n) := by
  rw [methodSteps]
  split
  · exact unlimited_unsupported _
  · exact unlimited_accessSteps

theorem unlimited_argumentSteps : Unlimited (argumentSteps s n) := by
  refine .settled_bind fun arguments => ?_
  rw [settled_pure]
  split
  · exact .visits _
  · exact .visits [arguments]

theorem unlimited_callSteps : Unlimited (callSteps ctx s n) := by
  rw [callSteps]
  split
  · exact unlimited_unsupported _
  refine .settled_bind fun function => ?_
  dsimp only [settled_pure]
  split
  · exact .report (by decide)
  split
  · exact .append unlimited_methodSteps unlimited_argumentSteps
  split
  · exact .append (.report (by decide)) unlimited_argumentSteps
  · exact unlimited_unsupported _

theorem unlimited_functionSteps : Unlimited (functionSteps ctx s n) := by
  refine .settled_bind fun ps => .append (.flatMap fun p => ?_) (.parts [n.child? .body])
  rw [parameterSteps]
  split
  · cases ctx.text p with
    | ok name => exact .nil
    | error fault => simp [Unlimited]
  · exact unlimited_unsupported _

theorem unlimited_binarySteps : Unlimited (binarySteps s n) := by
  rw [binarySteps]
  split
  · exact .parts _
  · simp [Unlimited]

theorem unlimited_parenthesizedSteps : Unlimited (parenthesizedSteps s n) := by
  rw [parenthesizedSteps]
  split
  · exact .visits [_]
  · exact unlimited_unsupported _

theorem unlimited_steps (form : Form) : Unlimited (steps ctx s form n) := by
  cases form with
  | sequence => exact .visits _
  | literal => exact .nil
  | template => exact .visits _
  | identifier => exact unlimited_nameSteps
  | parenthesized => exact unlimited_parenthesizedSteps
  | object => exact .flatMap fun _ => unlimited_objectMemberSteps
  | unary => exact unlimited_unarySteps
  | binary => exact unlimited_binarySteps
  | ternary => exact .parts _
  | member => exact unlimited_memberSteps
  | subscript => exact .report (by decide)
  | call => exact unlimited_callSteps
  | function => exact unlimited_functionSteps

theorem rejection_ne_nestingMessage (r : Rejection) : (r.message : Text) ≠ nestingMessage := by
  cases r <;> decide

/-- **Above the limit no node is reported as nested too deeply.** -/
theorem unlimited_plan {room : Nat} : Unlimited (plan ctx s (room + 1) n) := by
  rw [plan]
  split
  · exact .report (rejection_ne_nestingMessage _)
  split
  · exact unlimited_steps _
  · exact unlimited_unsupported _

end Forms

/-! ### Diagnostics that were cut -/

/-- The first diagnostics arise from the second by cutting. `low` and `high` are the contexts of two
checks of `root`, of which the first has the lower limit. For a node at this limit the report that
it is nested too deeply stands in place of the run that the other check finds in it. All other
diagnostics are the same, and none of them is such a report. -/
inductive Shortened (low high : Context) (start : Scope) (root : Node) :
    List Diagnostic → List Diagnostic → Prop
  | nil : Shortened low high start root [] []
  | kept {d : Diagnostic} {short full : List Diagnostic} (hd : d.message ≠ nestingMessage)
      (h : Shortened low high start root short full) :
      Shortened low high start root (d :: short) (d :: full)
  | cut {t : Scope} {c : Node} {d : Diagnostic} {run short full : List Diagnostic}
      (hlow : Visits low start root low.policy.maxDepth t c)
      (hhigh : Visits high start root low.policy.maxDepth t c)
      (hkind : Rejection.ofKind? c.kind = none)
      (hd : diagnostic low.source c nestingMessage = .ok d)
      (hrun : (walk high (high.policy.maxDepth - low.policy.maxDepth) c).run t = (.ok run, t))
      (h : Shortened low high start root short full) :
      Shortened low high start root (d :: short) (run ++ full)

namespace Shortened

variable {low high : Context} {start : Scope} {root : Node}
  {short full short' full' : List Diagnostic}

protected theorem append (h : Shortened low high start root short full)
    (h' : Shortened low high start root short' full') :
    Shortened low high start root (short ++ short') (full ++ full') := by
  induction h with
  | nil => exact h'
  | kept hd _ ih => exact .kept hd ih
  | cut hlow hhigh hkind hd hrun _ ih =>
    rw [List.append_assoc]
    exact .cut hlow hhigh hkind hd hrun ih

/-- Diagnostics that do not speak of nesting are kept. -/
theorem of_forall_ne (h : ∀ d ∈ short, d.message ≠ nestingMessage) :
    Shortened low high start root short short := by
  induction short with
  | nil => exact .nil
  | cons d short ih =>
    obtain ⟨hd, hshort⟩ := List.forall_mem_cons.mp h
    exact .kept hd (ih hshort)

/-- **Without a report of nesting nothing was cut.** -/
theorem eq_of_forall_ne (h : Shortened low high start root short full)
    (hno : ∀ d ∈ short, d.message ≠ nestingMessage) : short = full := by
  induction h with
  | nil => rfl
  | kept _ _ ih => rw [ih (List.forall_mem_cons.mp hno).2]
  | cut _ _ _ hd =>
    have hmessage := message_of_diagnostic hd
    exact absurd hmessage (List.forall_mem_cons.mp hno).1

end Shortened

/-! ### Two checks side by side -/

section Checks

variable {ctx low high : Context} {start s : Scope} {root n : Node} {short full : List Diagnostic}

/-- The same steps give shortened diagnostics, if their visits do. -/
theorem shortened_perform {find find' : Scope → Node → Except Fault (List Diagnostic)}
    {steps : List Step} (hsteps : Unlimited steps)
    (hfind : ∀ t c xs ys, .visit t c ∈ steps → find t c = .ok xs → find' t c = .ok ys →
      Shortened low high start root xs ys)
    (hshort : perform ctx find steps = .ok short) (hfull : perform ctx find' steps = .ok full) :
    Shortened low high start root short full := by
  induction steps generalizing short full with
  | nil =>
    cases hshort
    cases hfull
    exact .nil
  | cons step rest ih =>
    obtain ⟨first, others, hfirst, hothers, rfl⟩ := perform_cons_eq_ok hshort
    obtain ⟨first', others', hfirst', hothers', rfl⟩ := perform_cons_eq_ok hfull
    have hrest := ih (fun m message hm => hsteps m message (List.mem_cons_of_mem _ hm))
      (fun t c xs ys hc => hfind t c xs ys (List.mem_cons_of_mem _ hc)) hothers hothers'
    refine .append ?_ hrest
    cases step with
    | report m message =>
      have hsame : first = first' := Except.ok.inj (hfirst.symm.trans hfirst')
      have hmessage := hsteps m message (List.mem_cons_self ..)
      rw [← hsame]
      refine .of_forall_ne fun d hd => ?_
      rwa [message_of_report hfirst d hd]
    | visit t c => exact hfind t c first first' (List.mem_cons_self ..) hfirst hfirst'
    | fail fault => cases hfirst

variable {m : Nat} {hm : 1 ≤ m} (hle : m ≤ ctx.policy.maxDepth)

/-- At the limit, a node that is not rejected anyway is cut. -/
theorem shortened_at_limit (hlow : Visits (ctx.withDepth m hm) start root m s n)
    (hhigh : Visits ctx start root m s n) (hshort : outcome ctx 0 s n = .ok short)
    (hfull : outcome ctx (ctx.policy.maxDepth - m) s n = .ok full) :
    Shortened (ctx.withDepth m hm) ctx start root short full := by
  cases hkind : Rejection.ofKind? n.kind with
  | some r =>
    rw [outcome_of_rejected hkind] at hshort hfull
    obtain rfl : short = full := Except.ok.inj (hshort.symm.trans hfull)
    refine .of_forall_ne fun d hd => ?_
    rw [message_of_report hshort d hd]
    exact rejection_ne_nestingMessage r
  | none =>
    rw [outcome_at_limit hkind, Context.report] at hshort
    obtain ⟨d, hd, hone⟩ := bind_eq_ok hshort
    cases hone
    have hrun : (walk ctx (ctx.policy.maxDepth - m) n).run s = (.ok full, s) := by
      rw [← hfull]
      exact settles_walk ctx _ s n
    rw [← List.append_nil full]
    exact .cut hlow hhigh hkind hd hrun .nil

include hle

/-- **What a check with a lower limit finds**, at a node that both checks visit inside of `d`
others. The induction is on the levels that are left below the lower limit: above it both checks
take the same steps. -/
theorem shortened_outcome {d : Nat} (hd : d ≤ m) (hn : WellShaped ctx.source n)
    (hlow : Visits (ctx.withDepth m hm) start root d s n) (hhigh : Visits ctx start root d s n)
    (hshort : outcome ctx (m - d) s n = .ok short)
    (hfull : outcome ctx (ctx.policy.maxDepth - d) s n = .ok full) :
    Shortened (ctx.withDepth m hm) ctx start root short full := by
  induction hroom : m - d generalizing d s n short full with
  | zero =>
    obtain rfl : d = m := by omega
    rw [hroom] at hshort
    exact shortened_at_limit hlow hhigh hshort hfull
  | succ room ih =>
    obtain ⟨more, hmore⟩ : ∃ more, ctx.policy.maxDepth - d = more + 1 :=
      ⟨ctx.policy.maxDepth - d - 1, by omega⟩
    rw [hroom, outcome] at hshort
    rw [hmore, outcome] at hfull
    refine shortened_perform unlimited_plan (fun t c xs ys hc hxs hys => ?_) hshort hfull
    have hlowc : Visits (ctx.withDepth m hm) start root (d + 1) t c := by
      refine hlow.step ?_
      rw [plan_withDepth, show (ctx.withDepth m hm).policy.maxDepth - d = room + 1 from hroom]
      exact hc
    have hhighc : Visits ctx start root (d + 1) t c := by
      refine hhigh.step ?_
      rw [hmore]
      exact hc
    have hlevel : m - (d + 1) = room := by omega
    have hlevel' : ctx.policy.maxDepth - (d + 1) = more := by omega
    exact ih (by omega) (sound_plan hn _ hc) hlowc hhighc (by rwa [hlevel]) (by rwa [hlevel'])
      hlevel

end Checks

/-- **The nesting limit only cuts, and says so.** Check a well-shaped construct twice, under
policies that differ only in their nesting limits. The diagnostics with the lower limit arise from
those with the higher one by cutting: each node at the lower limit is reported as nested too deeply,
in place of what is found in it with the higher limit, and all else is the same. If there is no such
report, nothing was cut, and the diagnostics are the same. -/
theorem validate_withDepth_shortened {ctx : Context} {n : Node} (hn : WellShaped ctx.source n)
    {m : Nat} (hm : 1 ≤ m) (hle : m ≤ ctx.policy.maxDepth) (s : Scope) :
    ∃ short full, validate (ctx.withDepth m hm) n s = (.ok short, s) ∧
      validate ctx n s = (.ok full, s) ∧
      Shortened (ctx.withDepth m hm) ctx s n short full ∧
      ((∀ d ∈ short, d.message ≠ nestingMessage) → short = full) := by
  obtain ⟨short, hshort⟩ : ∃ short, outcome ctx m s n = .ok short := outcome_eq_ok hn
  obtain ⟨full, hfull⟩ : ∃ full, outcome ctx ctx.policy.maxDepth s n = .ok full :=
    outcome_eq_ok hn
  have hcut : Shortened (ctx.withDepth m hm) ctx s n short full :=
    shortened_outcome hle (Nat.zero_le m) hn .root .root hshort hfull
  refine ⟨short, full, ?_, ?_, hcut, hcut.eq_of_forall_ne⟩
  · rw [validate_eq, outcome_withDepth]
    exact congrArg (·, s) hshort
  · rw [validate_eq, hfull]

section Row

open Ecma

/-- The tree of `[a,[b,1]]`. -/
def nestedRow : Node :=
  let inner := bare "array" 3 8 [bare "identifier" 4 5 [], bare "number" 6 7 []]
  bare "program" 0 9 [bare "expression_statement" 0 9
    [bare "array" 0 9 [bare "identifier" 1 2 [], inner]]]

/-- With four levels the elements of the inner list are cut: the name `b`, in which one diagnostic
is found otherwise, and the number, in which none is found. With five levels nothing is cut. -/
theorem nestedRow_shortened :
    let ctx := standardContext "[a,[b,1]]" []
    let low := ctx.withDepth 4 (by decide)
    let short : List Diagnostic :=
      [⟨1, 2, "unidetified: a"⟩, ⟨4, 5, nestingMessage⟩, ⟨6, 7, nestingMessage⟩]
    let full : List Diagnostic := [⟨1, 2, "unidetified: a"⟩, ⟨4, 5, "unidetified: b"⟩]
    (validate low nestedRow {}).1 = .ok short ∧ (validate ctx nestedRow {}).1 = .ok full ∧
      Shortened low ctx {} nestedRow short full ∧
      validate (ctx.withDepth 5 (by decide)) nestedRow {} = validate ctx nestedRow {} := by
  intro ctx low short full
  have hshort : (validate low nestedRow {}).1 = .ok short := eq_ok_of_toOption (by decide +kernel)
  have hfull : (validate ctx nestedRow {}).1 = .ok full := eq_ok_of_toOption (by decide +kernel)
  have hwhole : (validate (ctx.withDepth 5 (by decide)) nestedRow {}).1 = .ok full :=
    eq_ok_of_toOption (by decide +kernel)
  have hn : WellShaped ctx.source nestedRow := by decide
  have hfour : 4 ≤ ctx.policy.maxDepth := by decide
  have hfive : 5 ≤ ctx.policy.maxDepth := by decide
  obtain ⟨xs, ys, hxs, hys, hcut, -⟩ := validate_withDepth_shortened hn (by decide) hfour {}
  obtain ⟨zs, ys', hzs, hys', -, hsame⟩ := validate_withDepth_shortened hn (by decide) hfive {}
  rw [hxs] at hshort
  rw [hys] at hfull
  rw [hzs] at hwhole
  cases hshort
  cases hfull
  cases hwhole
  exact ⟨by rw [hxs], by rw [hys], hcut, by rw [hzs, hys', hsame (by decide)]⟩

end Row

end ScriptGate.Check
