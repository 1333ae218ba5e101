import ScriptGate.Proofs.Check.Totality

/-!
# Checking a part of a script on its own

A check visits the nodes of a tree one below the other. What it finds in a node that it visits is
what a check of this node alone finds, if that starts in the scope of the node's place and with the
levels that are left there. In a tree that is laid out in order and whose nodes all cover some of
the script, these findings are a segment of all that is found: what is found before stands before
the node in the script, and what is found after stands after it.

## Main definitions

* `Check.Visits`: the nodes that a check visits, with their levels and scopes.

## Main results

* `Check.visits_path`: a visit takes place in the scope that the enclosing functions make.
* `Check.segment_of_visit`: what is found in a visited part of a node is a segment of what is found
  in the node.
* `Check.segment_of_visits`: the same for all nodes that a check visits.
* `subtree_segment`: a check of a part of a script finds what a check of the script finds there.
-/

namespace ScriptGate

/-- Of a row, the nodes before one of its nodes end where that node begins. -/
theorem InRow.split {s : Source} {lo hi : Nat} {xs ys : List Node} {c : Node}
    (h : InRow s lo hi (xs ++ c :: ys)) : InRow s lo c.start xs ∧ InRow s c.stop hi ys := by
  obtain ⟨hbefore, -, hcross⟩ := List.pairwise_append.mp h.ordered
  refine ⟨⟨fun m hm => h.laid m (List.mem_append_left _ hm), fun m hm => ⟨?_, ?_⟩, hbefore⟩,
    (h.sublist (List.sublist_append_right xs (c :: ys))).tail⟩
  · exact (h.within m (List.mem_append_left _ hm)).1
  · exact hcross m hm c (List.mem_cons_self ..)

namespace Check

/-- The nodes that a check of `root` in the scope `start` visits, each with the number of visits
that it is inside of and the scope in which it is visited. -/
inductive Visits (ctx : Context) (start : Scope) (root : Node) : Nat → Scope → Node → Prop
  | root : Visits ctx start root 0 start root
  | step {d : Nat} {s t : Scope} {n c : Node} (h : Visits ctx start root d s n)
      (hc : .visit t c ∈ plan ctx s (ctx.policy.maxDepth - d) n) :
      Visits ctx start root (d + 1) t c

/-- The context of a check that may go down fewer or more levels. -/
def Context.withDepth (ctx : Context) (depth : Nat) (h : 1 ≤ depth) : Context :=
  { ctx with policy := { ctx.policy with maxDepth := depth, maxDepth_pos := h } }

section Depth

variable {ctx : Context} {depth room : Nat} {h : 1 ≤ depth} {s : Scope} {n : Node}

theorem plan_withDepth : plan (ctx.withDepth depth h) s room n = plan ctx s room n := rfl

theorem perform_withDepth {find : Scope → Node → Except Fault (List Diagnostic)}
    {steps : List Step} :
    perform (ctx.withDepth depth h) find steps = perform ctx find steps := by
  induction steps with
  | nil => rfl
  | cons step rest ih =>
    rw [perform_cons, perform_cons, ih]
    rfl

/-- What a check finds with some levels left does not depend on how many it began with. -/
theorem outcome_withDepth : outcome (ctx.withDepth depth h) room s n = outcome ctx room s n := by
  induction room generalizing s n with
  | zero => rw [outcome, outcome, plan_withDepth, perform_withDepth]
  | succ room ih =>
    have hfind : outcome (ctx.withDepth depth h) room = outcome ctx room :=
      funext fun _ => funext fun _ => ih
    rw [outcome, outcome, plan_withDepth, perform_withDepth, hfind]

end Depth

section Segments

variable {ctx : Context} {start s t : Scope} {root n c : Node} {d room : Nat}

/-- **A visit takes place in the scope of the node's place**: the enclosing functions have bound
their parameters. -/
theorem visits_path (h : Visits ctx start root d s n) :
    ∃ above, root.Path above n ∧ s = start.enterAll (ctx.frames above) := by
  induction h with
  | root => exact ⟨[], .here, rfl⟩
  | step _ hc ih =>
    obtain ⟨above, hpath, rfl⟩ := ih
    obtain ⟨below, hbelow, ht, -⟩ := reach_plan _ hc
    exact ⟨above ++ below, hpath.trans hbelow.path, by rw [ht, frames_append, enterAll_append]⟩

theorem wellShaped_of_visits (hroot : WellShaped ctx.source root)
    (h : Visits ctx start root d s n) : WellShaped ctx.source n := by
  induction h with
  | root => exact hroot
  | step _ hc ih => exact sound_plan ih _ hc

/-- **What is found in a visited part of a node is a segment of what is found in the node.** The
rest is found before the part or after it. -/
theorem segment_of_visit (hshape : WellShaped ctx.source n) (hlaid : Laid ctx.source n)
    (hc : .visit t c ∈ plan ctx s (room + 1) n) :
    ∃ before inner after, outcome ctx (room + 1) s n = .ok (before ++ inner ++ after) ∧
      outcome ctx room t c = .ok inner ∧
      Ordered (ctx.source.place n.start) (ctx.source.place c.start) before ∧
      Ordered (ctx.source.place c.stop) (ctx.source.place n.stop) after := by
  have hreach : Reach ctx s n (plan ctx s (room + 1) n) := reach_plan
  have hsound : Sound (WellShaped ctx.source) (plan ctx s (room + 1) n) := sound_plan hshape
  have hrow : InRow ctx.source n.start n.stop (nodes (plan ctx s (room + 1) n)) := inRow_plan hlaid
  obtain ⟨first, rest, hplan⟩ := List.append_of_mem hc
  rw [hplan] at hreach hsound hrow
  obtain ⟨hreachFirst, hreachRest⟩ := List.forall_mem_append.mp hreach
  obtain ⟨hsoundFirst, hsoundRest⟩ := List.forall_mem_append.mp hsound
  obtain ⟨hshapec, hsoundRest⟩ := List.forall_mem_cons.mp hsoundRest
  rw [nodes_append, nodes_visit_cons] at hrow
  have hlaidc := hrow.laid c (List.mem_append_right _ (List.mem_cons_self ..))
  obtain ⟨hrowFirst, hrowRest⟩ := hrow.split
  -- Nothing fails on the way, so there are diagnostics before the part, in it and after it.
  have hfind (t : Scope) (m : Node) (hm : WellShaped ctx.source m) :
      ∃ ds, outcome ctx room t m = .ok ds := outcome_eq_ok hm
  obtain ⟨before, hbefore⟩ := perform_eq_ok hlaid.placed hreachFirst hsoundFirst hfind
  obtain ⟨inner, hinner⟩ := hfind t c hshapec
  obtain ⟨after, hafter⟩ :=
    perform_eq_ok hlaid.placed (List.forall_mem_cons.mp hreachRest).2 hsoundRest hfind
  have hordered (t : Scope) (m : Node) (ds : List Diagnostic) (hm : Laid ctx.source m)
      (hds : outcome ctx room t m = .ok ds) : OrderedIn ctx.source m ds := orderedIn_outcome hm hds
  refine ⟨before, inner, after, ?_, hinner,
    ordered_perform hordered hlaid.isBoundary.1 hlaidc.isBoundary.1 hrowFirst hbefore,
    ordered_perform hordered hlaidc.isBoundary.2 hlaid.isBoundary.2 hrowRest hafter⟩
  rw [outcome, hplan, perform_append, perform_cons, hbefore, hafter, Step.result, hinner]
  exact congrArg Except.ok (List.append_assoc before inner after).symm

/-- **What is found in a node that a check visits is a segment of all that is found.** What is found
before stands before the node, and what is found after stands after it. -/
theorem segment_of_visits (hshape : WellShaped ctx.source root) (hlaid : Laid ctx.source root)
    (h : Visits ctx start root d s n) (hd : d ≤ ctx.policy.maxDepth) :
    ∃ before inner after,
      outcome ctx ctx.policy.maxDepth start root = .ok (before ++ inner ++ after) ∧
      outcome ctx (ctx.policy.maxDepth - d) s n = .ok inner ∧
      (∀ x ∈ before, x.stop ≤ ctx.source.place n.start) ∧
      ∀ x ∈ after, (ctx.source.place n.stop : Int) ≤ x.start := by
  induction h with
  | root =>
    obtain ⟨ds, hds⟩ := outcome_eq_ok hshape
    exact ⟨[], ds, [], by simpa using hds, hds, by simp, by simp⟩
  | @step d s t n c h hc ih =>
    obtain ⟨before, inner, after, hwhole, hinner, hbefore, hafter⟩ := ih (by omega)
    obtain ⟨above, hpath, -⟩ := visits_path h
    have hlaidn := hpath.laid hlaid
    obtain ⟨room, hroom⟩ : ∃ room, ctx.policy.maxDepth - d = room + 1 :=
      ⟨ctx.policy.maxDepth - d - 1, by omega⟩
    rw [hroom] at hc hinner
    obtain ⟨below, hbelow, -⟩ := reach_plan _ hc
    have hlaidc := hbelow.path.laid hlaidn
    have hinside := hbelow.path.inside hlaidn
    have hstart := Source.place_mono hlaidn.isBoundary.1 hlaidc.isBoundary.1 hinside.1
    have hstop := Source.place_mono hlaidc.isBoundary.2 hlaidn.isBoundary.2 hinside.2
    obtain ⟨before', inner', after', hnode, hpart, hbefore', hafter'⟩ :=
      segment_of_visit (wellShaped_of_visits hshape h) hlaidn hc
    obtain rfl : inner = before' ++ inner' ++ after' := Except.ok.inj (hinner.symm.trans hnode)
    refine ⟨before ++ before', inner', after' ++ after, ?_, ?_, ?_, ?_⟩
    · simpa only [List.append_assoc] using hwhole
    · rwa [show ctx.policy.maxDepth - (d + 1) = room by omega]
    · refine List.forall_mem_append.mpr ⟨fun x hx => ?_, fun x hx => (hbefore'.within x hx).2⟩
      have hx := hbefore x hx
      omega
    · refine List.forall_mem_append.mpr ⟨fun x hx => (hafter'.within x hx).1, fun x hx => ?_⟩
      have hx := hafter x hx
      omega

/-- Where all nodes cover some of the script, so do all diagnostics. -/
theorem lt_of_mem_outcome {ds : List Diagnostic} (hlaid : Laid ctx.source n)
    (hcov : n.all Node.covers) (hds : outcome ctx room s n = .ok ds) :
    ∀ x ∈ ds, x.start < x.stop := by
  obtain ⟨fs, hfs, rfl⟩ := (outcome_eq_ok_iff hlaid.placed).mp hds
  intro x hx
  obtain ⟨f, hf, rfl⟩ := List.mem_map.mp hx
  obtain ⟨⟨above, hpath⟩, -⟩ := findings_inside hfs f hf
  have hbounds := (hpath.laid hlaid).isBoundary
  have hlt : f.node.start < f.node.stop := by
    simpa [Node.covers] using (Node.all_iff.mp (hpath.all hcov)).1
  exact Int.ofNat_lt.mpr (Source.place_lt hbounds.1 hbounds.2 hlt)

end Segments

end Check

/-- Of diagnostics that cover some of the script, those between two places are the middle ones, if
the others stand before and after. -/
theorem filter_between {x y : Int} {before inner after : List Diagnostic}
    (hlt : ∀ d ∈ before ++ inner ++ after, d.start < d.stop)
    (hbefore : ∀ d ∈ before, d.stop ≤ x) (hinner : ∀ d ∈ inner, x ≤ d.start ∧ d.stop ≤ y)
    (hafter : ∀ d ∈ after, y ≤ d.start) :
    (before ++ inner ++ after).filter (fun d => x ≤ d.start ∧ d.stop ≤ y) = inner := by
  have hleft : before.filter (fun d => x ≤ d.start ∧ d.stop ≤ y) = [] := by
    refine List.filter_eq_nil_iff.mpr fun d hd => ?_
    have hx := hbefore d hd
    have hspan := hlt d (List.mem_append_left _ (List.mem_append_left _ hd))
    simp only [decide_eq_true_eq]
    omega
  have hright : after.filter (fun d => x ≤ d.start ∧ d.stop ≤ y) = [] := by
    refine List.filter_eq_nil_iff.mpr fun d hd => ?_
    have hy := hafter d hd
    have hspan := hlt d (List.mem_append_right _ hd)
    simp only [decide_eq_true_eq]
    omega
  have hmiddle : inner.filter (fun d => x ≤ d.start ∧ d.stop ≤ y) = inner :=
    List.filter_eq_self.mpr fun d hd => by simpa using hinner d hd
  rw [List.filter_append, List.filter_append, hleft, hmiddle, hright, List.append_nil,
    List.nil_append]

/-- **A check of a part of a script finds what a check of the whole script finds there.** Take a
well-shaped script that is laid out in order and whose nodes all cover some of it, and a node that
its check visits inside of `d` others. The nodes that enclose it are determined. Checked on its own,
in the scope that the functions among them make and with `d` levels less, it gives the diagnostics
of the whole script that lie within its span. They are a segment of all diagnostics; those before it
stand before the node, and those after it stand after the node. -/
theorem subtree_segment (script : Script) (policy : Policy) (allowed : List Text)
    (hshape : WellShaped script.source script.root) (hlaid : Laid script.source script.root)
    (hcov : script.root.all Node.covers) {d : Nat} {scope : Scope} {n : Node}
    (hvisit : Check.Visits ⟨script.source, allowed, policy⟩ {} script.root d scope n)
    (hd : d < policy.maxDepth) :
    ∃ above, script.root.Path above n ∧ (∀ other, script.root.Path other n → other = above) ∧
    ∃ before inner after, ∃ start stop : Nat, script.source.span n = .ok (start, stop) ∧
      (script.validate policy allowed script.root {}).1 = .ok (before ++ inner ++ after) ∧
      (script.validate
          { policy with maxDepth := policy.maxDepth - d, maxDepth_pos := Nat.sub_pos_of_lt hd }
          allowed n (.ofFrames (Check.Context.frames ⟨script.source, allowed, policy⟩ above))).1 =
        .ok inner ∧
      inner = (before ++ inner ++ after).filter
        (fun x => (start : Int) ≤ x.start ∧ x.stop ≤ (stop : Int)) ∧
      (∀ x ∈ before, x.stop ≤ start) ∧ ∀ x ∈ after, (stop : Int) ≤ x.start := by
  obtain ⟨above, hpath, rfl⟩ := Check.visits_path hvisit
  refine ⟨above, hpath, fun other hother => hother.unique hpath hlaid hcov, ?_⟩
  obtain ⟨before, inner, after, hwhole, hinner, hbefore, hafter⟩ :=
    Check.segment_of_visits hshape hlaid hvisit (Nat.le_of_lt hd)
  have hlaidn := hpath.laid hlaid
  refine ⟨before, inner, after, _, _, Source.span_of_places hlaidn.places, ?_, ?_, ?_, hbefore,
    hafter⟩
  · rwa [Script.validate, Check.validate_eq]
  · rw [Script.validate, Check.validate_eq]
    exact Check.outcome_withDepth.trans hinner
  · exact (filter_between (Check.lt_of_mem_outcome hlaid hcov hwhole) hbefore
      (Check.orderedIn_outcome hlaidn hinner).within hafter).symm

section Rows

open Ecma

/-- The tree of `[x,b]` in `[a,x=>[x,b],c]`. -/
def innerRow : Node :=
  inField (bare "array" 6 11 [bare "identifier" 7 8 [], bare "identifier" 9 10 []]) .body

/-- The function around it. -/
def rowFunction : Node :=
  bare "arrow_function" 3 11 [inField (bare "identifier" 3 4 []) .parameter, innerRow]

/-- The list around the function. -/
def outerRow : Node :=
  bare "array" 0 14 [bare "identifier" 1 2 [], rowFunction, bare "identifier" 12 13 []]

/-- The tree of `[a,x=>[x,b],c]`. -/
def rowScript : Script :=
  ⟨.ofChars "[a,x=>[x,b],c]".toList .codepoint,
    bare "program" 0 14 [bare "expression_statement" 0 14 [outerRow]]⟩

/-- The body of the function is visited inside of four others, with `x` bound. -/
theorem rowScript_visits_innerRow :
    Check.Visits ⟨rowScript.source, [], Policy.standard⟩ {} rowScript.root 4 ⟨[["x"]]⟩
      innerRow := by
  let Visited := Check.Visits ⟨rowScript.source, [], Policy.standard⟩ {} rowScript.root
  have hstatement : Visited 1 {} (bare "expression_statement" 0 14 [outerRow]) :=
    .step .root (List.mem_of_getElem? (i := 0) rfl)
  have houter : Visited 2 {} outerRow := .step hstatement (List.mem_of_getElem? (i := 0) rfl)
  have hfunction : Visited 3 {} rowFunction := .step houter (List.mem_of_getElem? (i := 1) rfl)
  exact .step hfunction (List.mem_of_getElem? (i := 0) rfl)

/-- Of the three names that are found in the script, one is found in the body of the function. -/
theorem rowScript_innerRow_segment : ∃ a b c : Text,
    (rowScript.validate Policy.standard [] rowScript.root {}).1 =
      .ok [⟨1, 2, a⟩, ⟨9, 10, b⟩, ⟨12, 13, c⟩] ∧
    ∃ above, rowScript.root.Path above innerRow ∧
      (rowScript.validate { Policy.standard with maxDepth := 96, maxDepth_pos := by decide } []
        innerRow
        (.ofFrames (Check.Context.frames ⟨rowScript.source, [], Policy.standard⟩ above))).1 =
      .ok [⟨9, 10, b⟩] := by
  obtain ⟨a, b, c, hnames⟩ : ∃ a b c : Text,
      (rowScript.validate Policy.standard [] rowScript.root {}).1 =
        .ok [⟨1, 2, a⟩, ⟨9, 10, b⟩, ⟨12, 13, c⟩] := ⟨_, _, _, rfl⟩
  obtain ⟨above, hpath, -, before, inner, after, start, stop, hspan, hwhole, hinner, hfilter, -⟩ :=
    subtree_segment rowScript Policy.standard [] (by decide) (by decide) (by decide)
      rowScript_visits_innerRow (by decide)
  cases hspan
  rw [← Except.ok.inj (hnames.symm.trans hwhole)] at hfilter
  exact ⟨a, b, c, hnames, above, hpath, hinner.trans (congrArg Except.ok hfilter)⟩

end Rows

end ScriptGate
