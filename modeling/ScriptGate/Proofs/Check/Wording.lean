import ScriptGate.Proofs.Check.Findings
import ScriptGate.Proofs.Outcome
import ScriptGate.Proofs.Text.Plain
import ScriptGate.Proofs.Text.RoundTrip

/-!
# Messages consist of characters

A message quotes a script only where the script could be decoded, and what it quotes is cut, escaped
and put between other characters. Hence no message holds a lone surrogate, whatever the script is.

## Main definitions

* `Check.Context.Explains`: a diagnostic that says what may be said about a node of a tree.
* `Report.Legible`: a report that can be told.

## Main results

* `Check.explains_of_outcome`: a check explains what it finds.
* `Check.plain_of_outcome`, `Script.plain_errorFindings`: messages consist of characters.
* `checkScript_cases`: what the report of a script holds.
* `legible_of_checkScript`: every report can be told.
-/

namespace ScriptGate

theorem Template.plain_fill {t : Template} {thing : Text} (h : thing.Plain) :
    (t.fill thing).Plain :=
  ((Text.plain_ofString t.before).append h).append (Text.plain_ofString t.after)

/-- What can be read of a script consists of characters. -/
theorem Source.plain_text {s : Source} {n : Node} {t : Text} (h : s.text n = .ok t) : t.Plain := by
  rw [text, slice] at h
  cases hdecode : Utf8.decode ((s.bytes.drop n.start).take (n.stop - n.start)) with
  | error e => simp [hdecode, Except.map] at h
  | ok cs =>
    simp only [hdecode, Except.map, Except.ok.injEq] at h
    exact h ▸ Text.plain_ofChars cs

namespace Check

variable {ctx : Context} {s : Scope} {n : Node} {ds : List Diagnostic}

theorem message_of_diagnostic {src : Source} {message : Text} {d : Diagnostic}
    (h : diagnostic src n message = .ok d) : d.message = message := by
  obtain ⟨places, -, hplaces⟩ := bind_eq_ok h
  cases hplaces
  rfl

theorem plain_of_tells {message : Text} (h : ctx.Tells n message) : message.Plain := by
  cases h with
  | name _ htext => exact Template.plain_fill (Source.plain_text (mapError_eq_ok htext))
  | operator _ => exact Template.plain_fill (Text.plain_ofString _)
  | kind => exact Template.plain_fill (Text.plain_ofString _)
  | optionalChain => exact Template.plain_fill (Text.plain_ofString _)
  | callOf _ => exact Template.plain_fill (Text.plain_ofString _)
  | fixed _ => exact Text.plain_ofString _

theorem message_of_report {message : Text} (h : ctx.report n message = .ok ds) :
    ∀ d ∈ ds, d.message = message := by
  obtain ⟨d, hd, hone⟩ := bind_eq_ok h
  have hmessage := message_of_diagnostic hd
  cases hone
  simpa using hmessage

/-- The diagnostic says of a node inside `n` what may be said about it. -/
def Context.Explains (ctx : Context) (n : Node) (d : Diagnostic) : Prop :=
  ∃ above m, n.Path above m ∧ ctx.Tells m d.message

/-- What steps give explains nodes inside, if what their visits give does. -/
theorem explains_of_perform {find : Scope → Node → Except Fault (List Diagnostic)}
    {steps : List Step} (hreach : Reach ctx s n steps)
    (hfind : ∀ t m es, find t m = .ok es → ∀ d ∈ es, ctx.Explains m d)
    (h : perform ctx find steps = .ok ds) : ∀ d ∈ ds, ctx.Explains n d := by
  induction steps generalizing ds with
  | nil =>
    cases h
    simp
  | cons step rest ih =>
    obtain ⟨first, others, hfirst, hothers, rfl⟩ := perform_cons_eq_ok h
    obtain ⟨hstep, hrest⟩ := List.forall_mem_cons.mp hreach
    have hexplains : ∀ d ∈ first, ctx.Explains n d := by
      cases step with
      | report m message =>
        intro d hd
        obtain ⟨⟨above, hpath⟩, htells⟩ := hstep
        exact ⟨above, m, hpath, message_of_report hfirst d hd ▸ htells⟩
      | visit t m =>
        intro d hd
        obtain ⟨above, hroute, -⟩ := hstep
        obtain ⟨below, k, hpath, htells⟩ := hfind t m first hfirst d hd
        exact ⟨above ++ below, k, hroute.path.trans hpath, htells⟩
      | fail fault => cases hfirst
    intro d hd
    rcases List.mem_append.mp hd with hd | hd
    · exact hexplains d hd
    · exact ih hrest hothers d hd

/-- **A check explains what it finds**: each diagnostic is about a node of the tree, and says what
may be said about it. -/
theorem explains_of_outcome {room : Nat} (h : outcome ctx room s n = .ok ds) :
    ∀ d ∈ ds, ctx.Explains n d := by
  induction room generalizing s n ds with
  | zero => exact explains_of_perform reach_plan (fun _ _ _ hnone => by cases hnone; simp) h
  | succ room ih => exact explains_of_perform reach_plan (fun _ _ _ hm => ih hm) h

/-- **Messages of a check consist of characters**, whatever the tree is. -/
theorem plain_of_outcome {room : Nat} (h : outcome ctx room s n = .ok ds) :
    ∀ d ∈ ds, d.message.Plain := by
  intro d hd
  obtain ⟨_, _, -, htells⟩ := explains_of_outcome h d hd
  exact plain_of_tells htells

end Check

namespace Script

theorem plain_excerpt {t : Text} (h : t.Plain) : (excerpt t).Plain := by
  have hstrip := h.sublist t.strip_sublist
  rw [excerpt]
  split
  · exact (hstrip.sublist (List.take_sublist ..)).append (Text.plain_ofString _)
  · exact hstrip

theorem plain_errorMessage {s : Source} {n : Node} :
    Text.Plain ((errorMessage s n).toOption.getD []) := by
  rw [errorMessage]
  split
  · exact (Text.plain_ofString _).append (Text.plain_ofString n.kind).quoted
  · cases htext : s.text n with
    | error e => exact Text.plain_ofChars []
    | ok t =>
      simp only [Check.ofSource_ok, bind, Except.bind]
      split
      · exact Text.plain_ofString _
      · exact (Text.plain_ofString _).append (plain_excerpt (Source.plain_text htext)).quoted

/-- **Messages of syntax errors consist of characters.** -/
theorem plain_errorFindings {s : Source} {root : Node} :
    ∀ f ∈ errorFindings s root, f.message.Plain := by
  intro f hf
  rcases (errorFindings_inside f hf).2 with hmessage | hmessage
  · exact hmessage ▸ Text.plain_ofString _
  · exact hmessage ▸ plain_errorMessage

/-- The diagnostic belongs to the region: it has its span and the wording of its error. -/
def Reports (s : Source) (n : Node) (d : Diagnostic) : Prop :=
  ∃ message, errorMessage s n = .ok message ∧ Check.diagnostic s n message = .ok d

/-- The message of a region consists of characters. -/
theorem Reports.plain {s : Source} {n : Node} {d : Diagnostic} (h : Reports s n d) :
    d.message.Plain := by
  obtain ⟨message, hmessage, hd⟩ := h
  have hplain := plain_errorMessage (s := s) (n := n)
  rw [hmessage] at hplain
  rw [Check.message_of_diagnostic hd]
  exact hplain

/-- **The syntax errors of a tree belong to its regions**, one for each. Where none is found, there
is one over all of the tree. -/
theorem syntaxErrors_eq_ok {s : Source} {root : Node} {ds : List Diagnostic}
    (h : syntaxErrors s root = .ok ds) :
    (∃ d, Check.diagnostic s root "Syntax error" = .ok d ∧ ds = [d]) ∧ root.errorRegions = [] ∨
      List.Forall₂ (Reports s) root.errorRegions ds ∧ root.errorRegions ≠ [] := by
  rw [syntaxErrors] at h
  cases hregions : root.errorRegions with
  | nil =>
    rw [hregions] at h
    obtain ⟨d, hd, hone⟩ := bind_eq_ok h
    cases hone
    exact .inl ⟨⟨d, hd, rfl⟩, rfl⟩
  | cons n ns =>
    rw [hregions] at h
    exact .inr ⟨(forall₂_of_mapM h).imp fun _ _ hd => bind_eq_ok hd, List.cons_ne_nil n ns⟩

end Script

/-! ### Reports that can be told -/

/-- A report that can be told: a syntax error is told by a diagnostic, and messages consist of
characters. -/
structure Report.Legible (r : Report) : Prop where
  told : r.syntaxError → r.diagnostics ≠ []
  plain : ∀ d ∈ r.diagnostics, d.message.Plain

theorem Script.legible_of_syntaxErrors {s : Source} {root : Node} {ds : List Diagnostic}
    (h : syntaxErrors s root = .ok ds) : Report.Legible ⟨ds, true⟩ := by
  rcases syntaxErrors_eq_ok h with ⟨⟨d, hd, rfl⟩, -⟩ | ⟨hall, hregions⟩
  · refine ⟨by simp, fun e he => ?_⟩
    rw [List.mem_singleton.mp he, Check.message_of_diagnostic hd]
    exact Text.plain_ofString _
  · refine ⟨fun _ => ?_, fun d hd => ?_⟩
    · rintro rfl
      exact hregions (List.forall₂_nil_right_iff.mp hall)
    · obtain ⟨region, -, hregion⟩ := exists_of_mem_right hall hd
      exact hregion.plain

/-- **The report of a script** holds its syntax errors, or what the check of its tree gives. -/
theorem checkScript_cases {grammar : Grammar} {policy : Policy} {script : Text}
    {allowed : List Text} {report : Report}
    (h : checkScript grammar policy script allowed = .ok report) :
    ∃ chars ds, script = .ofChars chars ∧
      ((grammar chars).hasError = true ∧ report = ⟨ds, true⟩ ∧
          Script.syntaxErrors (.ofChars chars policy.offsetUnit) (grammar chars) = .ok ds ∨
        (grammar chars).hasError = false ∧ report = ⟨ds, false⟩ ∧
          Check.outcome ⟨.ofChars chars policy.offsetUnit, allowed, policy⟩ policy.maxDepth {}
            (grammar chars) = .ok ds) := by
  rw [checkScript] at h
  cases hscalars : Utf8.scalars 0 script with
  | error e =>
    rw [hscalars] at h
    cases h
  | ok chars =>
    rw [hscalars] at h
    dsimp only [Script.parse] at h
    cases herror : (grammar chars).hasError with
    | true =>
      rw [herror, if_pos rfl] at h
      cases herrors : Script.syntaxErrors (.ofChars chars policy.offsetUnit) (grammar chars) with
      | error fault =>
        rw [herrors] at h
        cases h
      | ok ds =>
        rw [herrors] at h
        cases h
        exact ⟨chars, ds, Utf8.scalars_eq_ok_iff.mp hscalars, .inl ⟨herror, rfl, herrors⟩⟩
    | false =>
      rw [herror, if_neg Bool.false_ne_true] at h
      dsimp only [Script.validate] at h
      rw [Check.validate_eq] at h
      obtain ⟨ds, houtcome, rfl⟩ := map_eq_ok h
      exact ⟨chars, ds, Utf8.scalars_eq_ok_iff.mp hscalars, .inr ⟨herror, rfl, houtcome⟩⟩

/-- **Every report can be told**, whatever tree the grammar gives. -/
theorem legible_of_checkScript {grammar : Grammar} {policy : Policy} {script : Text}
    {allowed : List Text} {report : Report}
    (h : checkScript grammar policy script allowed = .ok report) : report.Legible := by
  obtain ⟨chars, ds, -, ⟨-, rfl, herrors⟩ | ⟨-, rfl, houtcome⟩⟩ := checkScript_cases h
  · exact Script.legible_of_syntaxErrors herrors
  · exact ⟨by simp, Check.plain_of_outcome houtcome⟩

end ScriptGate
