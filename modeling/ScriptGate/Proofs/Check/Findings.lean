import ScriptGate.Proofs.Check.Reach
import ScriptGate.Proofs.Check.SourceOrder
import ScriptGate.Proofs.Source.Units

/-!
# What a check finds

A diagnostic tells the places of a node in the unit of the source, and the node cannot be seen in it
any more. A finding keeps the node. The findings of a check do not depend on the unit, and where
all nodes of a tree stand between characters, the diagnostics of a check are the diagnostics of its
findings. So are the syntax errors of a tree.

## Main definitions

* `Finding`: a node and what is said about it; `Finding.diagnostic`: its diagnostic.
* `Check.findings`: what a check of a node finds; `Script.errorFindings`: the errors of a tree.

## Main results

* `Check.outcome_eq_findings`: a check gives the diagnostics of its findings.
* `Check.findings_inside`: all findings are about nodes inside the node that is checked.
* `Script.syntaxErrors_eq`: syntax errors are the diagnostics of the errors of a tree.
-/

namespace ScriptGate

/-- A node and what is said about it. -/
structure Finding where
  node : Node
  message : Text

/-- The diagnostic of a finding: the places of its node, in the unit of the source. -/
def Finding.diagnostic (s : Source) (f : Finding) : Diagnostic :=
  ⟨s.place f.node.start, s.place f.node.stop, f.message⟩

namespace Check

/-! ### Findings of a check -/

section Findings

variable (find : Scope → Node → Except Fault (List Finding))

/-- What one step finds. -/
def Step.finds : Step → Except Fault (List Finding)
  | .report n message => .ok [⟨n, message⟩]
  | .visit s n => find s n
  | .fail fault => .error fault

/-- What steps find, one after the other. -/
def collect : List Step → Except Fault (List Finding)
  | [] => .ok []
  | step :: rest => do
    let first ← step.finds find
    let others ← collect rest
    pure (first ++ others)

end Findings

/-- What a check of a node finds. -/
def findings (ctx : Context) : (room : Nat) → Scope → Node → Except Fault (List Finding)
  | 0, s, n => collect (fun _ _ => .ok []) (plan ctx s 0 n)
  | room + 1, s, n => collect (findings ctx room) (plan ctx s (room + 1) n)

/-- The diagnostics of findings. -/
def diagnosed (src : Source) : Except Fault (List Finding) → Except Fault (List Diagnostic)
  | .ok fs => .ok (fs.map (·.diagnostic src))
  | .error fault => .error fault

/-- The finding is about a node inside `n`, and says what may be said about it. -/
def Context.Concerns (ctx : Context) (n : Node) (f : Finding) : Prop :=
  (∃ above, n.Path above f.node) ∧ ctx.Tells f.node f.message

section Outcome

variable {ctx : Context} {s : Scope} {n : Node}

/-- A report gives the diagnostic of its finding. -/
theorem report_eq {message : Text} (h : ctx.source.places n) :
    ctx.report n message = .ok [Finding.diagnostic ctx.source ⟨n, message⟩] := by
  rw [Context.report, diagnostic, Source.span_of_places h]
  rfl

/-- Steps inside a node give the diagnostics of what they find, if visits do. -/
theorem perform_eq_collect {find : Scope → Node → Except Fault (List Diagnostic)}
    {found : Scope → Node → Except Fault (List Finding)} {steps : List Step}
    (hplaced : n.all ctx.source.places) (hreach : Reach ctx s n steps)
    (hfind : ∀ t m above, n.Path above m → find t m = diagnosed ctx.source (found t m)) :
    perform ctx find steps = diagnosed ctx.source (collect found steps) := by
  induction steps with
  | nil => rfl
  | cons step rest ih =>
    obtain ⟨hstep, hrest⟩ := List.forall_mem_cons.mp hreach
    have hfirst : step.result ctx find = diagnosed ctx.source (step.finds found) := by
      cases step with
      | report m message =>
        obtain ⟨⟨above, hpath⟩, -⟩ := hstep
        exact report_eq (Node.all_iff.mp (hpath.all hplaced)).1
      | visit t m =>
        obtain ⟨above, hroute, -⟩ := hstep
        exact hfind t m above hroute.path
      | fail fault => rfl
    rw [perform_cons, hfirst, ih hrest, collect]
    cases step.finds found with
    | error fault => rfl
    | ok first =>
      cases collect found rest with
      | error fault => rfl
      | ok others => exact congrArg Except.ok List.map_append.symm

/-- **A check gives the diagnostics of its findings.** -/
theorem outcome_eq_findings {room : Nat} (h : n.all ctx.source.places) :
    outcome ctx room s n = diagnosed ctx.source (findings ctx room s n) := by
  induction room generalizing s n with
  | zero => exact perform_eq_collect h reach_plan fun _ _ _ _ => rfl
  | succ room ih => exact perform_eq_collect h reach_plan fun _ _ _ hpath => ih (hpath.all h)

theorem collect_cons_eq_ok {found : Scope → Node → Except Fault (List Finding)} {step : Step}
    {rest : List Step} {fs : List Finding} (h : collect found (step :: rest) = .ok fs) :
    ∃ first others, step.finds found = .ok first ∧ collect found rest = .ok others ∧
      fs = first ++ others := by
  rw [collect] at h
  cases hfirst : step.finds found with
  | error fault => simp [hfirst, bind, Except.bind] at h
  | ok first =>
    cases hothers : collect found rest with
    | error fault => simp [hfirst, hothers, bind, Except.bind] at h
    | ok others =>
      refine ⟨first, others, rfl, rfl, ?_⟩
      simpa [hfirst, hothers, bind, Except.bind, pure, Except.pure] using h.symm

/-- Steps inside a node find what concerns it, if visits do. -/
theorem collect_inside {found : Scope → Node → Except Fault (List Finding)} {steps : List Step}
    {fs : List Finding} (hreach : Reach ctx s n steps)
    (hfound : ∀ t m gs, found t m = .ok gs → ∀ f ∈ gs, ctx.Concerns m f)
    (hfs : collect found steps = .ok fs) : ∀ f ∈ fs, ctx.Concerns n f := by
  induction steps generalizing fs with
  | nil =>
    cases hfs
    simp
  | cons step rest ih =>
    obtain ⟨hstep, hrest⟩ := List.forall_mem_cons.mp hreach
    obtain ⟨first, others, hfirst, hothers, rfl⟩ := collect_cons_eq_ok hfs
    refine List.forall_mem_append.mpr ⟨?_, ih hrest hothers⟩
    cases step with
    | report m message =>
      cases hfirst
      simpa [Context.Concerns, Step.Reaches] using hstep
    | visit t m =>
      intro f hf
      obtain ⟨above, hroute, -⟩ := hstep
      obtain ⟨⟨below, hbelow⟩, htells⟩ := hfound t m first hfirst f hf
      exact ⟨⟨above ++ below, hroute.path.trans hbelow⟩, htells⟩
    | fail fault => cases hfirst

/-- **All findings are about nodes inside the node that is checked**, and say what may be said
about them. -/
theorem findings_inside {room : Nat} {fs : List Finding} (h : findings ctx room s n = .ok fs) :
    ∀ f ∈ fs, ctx.Concerns n f := by
  induction room generalizing s n fs with
  | zero =>
    refine collect_inside reach_plan ?_ h
    rintro t m _ ⟨⟩
    simp
  | succ room ih => exact collect_inside reach_plan (fun t m gs hgs => ih hgs) h

/-- Where a check gives diagnostics, they are those of its findings. -/
theorem outcome_eq_ok_iff {room : Nat} {ds : List Diagnostic} (h : n.all ctx.source.places) :
    outcome ctx room s n = .ok ds ↔
      ∃ fs, findings ctx room s n = .ok fs ∧ ds = fs.map (·.diagnostic ctx.source) := by
  rw [outcome_eq_findings h]
  cases findings ctx room s n with
  | error fault => simp [diagnosed]
  | ok fs => simp [diagnosed, eq_comm]

end Outcome

/-! ### Findings do not depend on the unit -/

/-- The context in which places are told in another unit. -/
def Context.inUnit (ctx : Context) (u : OffsetUnit) : Context :=
  ⟨{ ctx.source with unit := u }, ctx.allowed, { ctx.policy with offsetUnit := u }⟩

section Units

variable {ctx : Context} {u : OffsetUnit} {room : Nat} {s : Scope} {n : Node}

theorem plan_inUnit : plan (ctx.inUnit u) s room n = plan ctx s room n := rfl

/-- **A check finds the same in every unit.** -/
theorem findings_inUnit : findings (ctx.inUnit u) room s n = findings ctx room s n := by
  induction room generalizing s n with
  | zero => rw [findings, findings, plan_inUnit]
  | succ room ih =>
    have hfind : findings (ctx.inUnit u) room = findings ctx room :=
      funext fun _ => funext fun _ => ih
    rw [findings, findings, plan_inUnit, hfind]

end Units

end Check

/-! ### Syntax errors -/

namespace Script

/-- The errors of a tree: its outermost error regions, or the tree as a whole if it shows none. -/
def errorFindings (s : Source) (root : Node) : List Finding :=
  match root.errorRegions with
  | [] => [⟨root, "Syntax error"⟩]
  | regions => regions.map fun n => ⟨n, (errorMessage s n).toOption.getD []⟩

variable {s : Source} {root : Node}

theorem exists_path_errorRegion {n : Node} (h : n ∈ root.errorRegions) :
    ∃ above, root.Path above n := by
  induction root using Node.tree_induction with
  | step root ih =>
    rw [Node.errorRegions_eq] at h
    split at h
    · obtain rfl := List.mem_singleton.mp h
      exact ⟨[], .here⟩
    · obtain ⟨c, hc, hn⟩ := List.mem_flatMap.mp h
      have hmem := (List.mem_filter.mp hc).1
      obtain ⟨above, hpath⟩ := ih c hmem hn
      exact ⟨root :: above, .down hmem hpath⟩

theorem errorFindings_ne_nil : errorFindings s root ≠ [] := by
  rw [errorFindings]
  split
  · simp
  next hregions => simpa using hregions

/-- The errors of a tree are inside it, and each is told as a syntax error. -/
theorem errorFindings_inside : ∀ f ∈ errorFindings s root,
    (∃ above, root.Path above f.node) ∧
      (f.message = "Syntax error" ∨ f.message = (errorMessage s f.node).toOption.getD []) := by
  intro f hf
  rw [errorFindings] at hf
  split at hf
  · obtain rfl := List.mem_singleton.mp hf
    exact ⟨⟨[], .here⟩, .inl rfl⟩
  · obtain ⟨n, hn, rfl⟩ := List.mem_map.mp hf
    exact ⟨exists_path_errorRegion hn, .inr rfl⟩

theorem mapM_errorRegions {ns : List Node} (h : ∀ n ∈ ns, s.places n) :
    ns.mapM (fun n => do let message ← errorMessage s n; Check.diagnostic s n message) =
      .ok ((ns.map fun n => (⟨n, (errorMessage s n).toOption.getD []⟩ : Finding)).map
        (·.diagnostic s)) := by
  induction ns with
  | nil => rfl
  | cons n ns ih =>
    obtain ⟨hn, hns⟩ := List.forall_mem_cons.mp h
    obtain ⟨message, hmessage⟩ := errorMessage_eq_ok hn
    rw [List.mapM_cons, ih hns, hmessage]
    simp only [bind, Except.bind, pure, Except.pure, diagnostic_eq hn, hmessage, List.map_cons]
    rfl

/-- **Syntax errors are the diagnostics of the errors of a tree.** -/
theorem syntaxErrors_eq (h : root.all s.places) :
    syntaxErrors s root = .ok ((errorFindings s root).map (·.diagnostic s)) := by
  have hplaces : ∀ n ∈ root.errorRegions, s.places n := fun n hn => by
    obtain ⟨above, hpath⟩ := exists_path_errorRegion hn
    exact (Node.all_iff.mp (hpath.all h)).1
  rw [syntaxErrors, errorFindings]
  cases hregions : root.errorRegions with
  | nil =>
    dsimp only
    rw [diagnostic_eq (Node.all_iff.mp h).1]
    rfl
  | cons n ns => exact mapM_errorRegions (hregions ▸ hplaces)

end Script

end ScriptGate
