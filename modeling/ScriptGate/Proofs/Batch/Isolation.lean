import ScriptGate.Ecma.Parser
import ScriptGate.Proofs.Batch.Pool
import ScriptGate.Proofs.Check.Spans
import ScriptGate.Proofs.Check.Totality
import ScriptGate.Proofs.Check.Wording

/-!
# The entries of a batch

Each script of a batch is checked on its own, so that an entry of the outcome depends on its own
script alone. This needs that every script has a report. A script that consists of characters has
one, with syntax errors or without, if the grammar gives it a tree that is marked as wrong or
well-shaped. A script with a lone surrogate has none, and then the batch has no outcome but the
failure of the first such script.

## Main definitions

* `Grammar.Serves`: what a check relies on about the tree of a script.

## Main results

* `checkScript_of_serves`: a script of characters has a report.
* `Batch.check_of_serves`: a batch of such scripts has a report for each.
* `Batch.entries_independent`: an entry depends on its own script alone, or the batch fails.
* `Batch.broken_script_fails_batch`: a batch that fails because of one script.
-/

namespace ScriptGate

/-- What a check relies on about the tree of a script: all its nodes stand between characters, and
it is marked as wrong or well-shaped. -/
structure Grammar.Serves (grammar : Grammar) (chars : List Char) : Prop where
  placed : (grammar chars).all (Source.ofChars chars .codepoint).places
  shaped : (grammar chars).hasError ∨
    WellShaped (Source.ofChars chars .codepoint) (grammar chars)

/-- A report on a script of a size: a syntax error is told by a diagnostic, messages consist of
characters, and places are not past the end of the script. -/
structure Report.Sensible (size : Nat) (r : Report) : Prop where
  told : r.syntaxError → r.diagnostics ≠ []
  plain : ∀ d ∈ r.diagnostics, d.message.Plain
  placed : ∀ d ∈ r.diagnostics, d.start.natAbs ≤ size ∧ d.stop.natAbs ≤ size

theorem Report.Sensible.legible {size : Nat} {r : Report} (h : r.Sensible size) : r.Legible :=
  ⟨h.told, h.plain⟩

/-- Findings that are told with characters at places in the script make a sensible report. -/
theorem Report.sensible_of_findings (s : Source) (fs : List Finding) (wrong : Bool)
    (hne : wrong → fs ≠ []) (h : ∀ f ∈ fs, s.places f.node ∧ f.message.Plain) :
    Sensible (s.unit.size s.chars) ⟨fs.map (·.diagnostic s), wrong⟩ where
  told hwrong := by simpa using hne hwrong
  plain d hd := by
    obtain ⟨f, hf, rfl⟩ := List.mem_map.mp hd
    exact (h f hf).2
  placed d hd := by
    obtain ⟨f, hf, rfl⟩ := List.mem_map.mp hd
    obtain ⟨hstart, hstop⟩ := Source.isBoundary_of_places (h f hf).1
    exact ⟨Source.place_le_size hstart, Source.place_le_size hstop⟩

section Script

variable {grammar : Grammar} {policy : Policy} {chars : List Char} {allowed : List Text}

/-- **A script of characters has a report**, if the grammar serves it. -/
theorem checkScript_of_serves (h : grammar.Serves chars) :
    ∃ report, checkScript grammar policy (Text.ofChars chars) allowed = .ok report ∧
      report.Sensible (policy.offsetUnit.size chars) := by
  have hplaced : (grammar chars).all (Source.ofChars chars policy.offsetUnit).places := h.placed
  have hinside {n : Node} (hn : ∃ above, (grammar chars).Path above n) :
      (Source.ofChars chars policy.offsetUnit).places n := by
    obtain ⟨above, hpath⟩ := hn
    exact (Node.all_iff.mp (hpath.all hplaced)).1
  rw [checkScript, Utf8.scalars_ofChars]
  dsimp only
  cases herror : (grammar chars).hasError with
  | true =>
    rw [Script.parse_of_hasError hplaced herror]
    refine ⟨_, rfl, Report.sensible_of_findings (.ofChars chars policy.offsetUnit) _ true
      (fun _ => Script.errorFindings_ne_nil) fun f hf => ?_⟩
    exact ⟨hinside (Script.errorFindings_inside f hf).1, Script.plain_errorFindings f hf⟩
  | false =>
    have hshaped : WellShaped (Source.ofChars chars policy.offsetUnit) (grammar chars) := by
      obtain ⟨hnamed, hshaped, -⟩ := h.shaped.resolve_left (by simp [herror])
      exact ⟨hnamed, hshaped, hplaced⟩
    obtain ⟨ds, hds⟩ : ∃ ds, Check.outcome
        ⟨.ofChars chars policy.offsetUnit, allowed, policy⟩ policy.maxDepth {} (grammar chars) =
        .ok ds := Check.outcome_eq_ok hshaped
    obtain ⟨fs, hfs, rfl⟩ := (Check.outcome_eq_ok_iff hplaced).mp hds
    rw [Script.parse_of_not_hasError herror]
    dsimp only [Script.validate]
    rw [Check.validate_eq, hds]
    refine ⟨_, rfl, Report.sensible_of_findings (.ofChars chars policy.offsetUnit) fs false
      (by simp) fun f hf => ?_⟩
    obtain ⟨hpath, htells⟩ := Check.findings_inside hfs f hf
    exact ⟨hinside hpath, Check.plain_of_tells htells⟩

/-- A script with a lone surrogate has no report. -/
theorem checkScript_of_isBroken {script : Text} (h : Record.isBroken script) :
    ∃ e, Utf8.scalars 0 script = .error e ∧
      checkScript grammar policy script allowed = .error (.unencodable e) := by
  cases hscalars : Utf8.scalars 0 script with
  | error e => exact ⟨e, rfl, by rw [checkScript, hscalars]⟩
  | ok cs =>
    obtain rfl := Utf8.scalars_eq_ok_iff.mp hscalars
    rw [Text.plain_iff_not_isBroken.mp (Text.plain_ofChars cs)] at h
    cases h

end Script

namespace Batch

variable {grammar : Grammar} {policy : Policy} {requests : List Request}

/-- The report of the script of a request alone. -/
def ReportOf (grammar : Grammar) (policy : Policy) (r : Request) (report : Report) : Prop :=
  checkScript grammar policy r.script r.allowedVariables = .ok report ∧
    report.Sensible (policy.offsetUnit.size r.script.toChars)

/-- **A batch of scripts of characters has a report for each**, that of the script alone. -/
theorem check_of_serves (hgrammar : ∀ r ∈ requests, ∃ chars, r.script = Text.ofChars chars ∧
      grammar.Serves chars) :
    ∃ reports, check grammar policy requests = .ok reports ∧
      List.Forall₂ (ReportOf grammar policy) requests reports := by
  refine mapM_eq_ok fun r hr => ?_
  obtain ⟨chars, hscript, hserves⟩ := hgrammar r hr
  rw [hscript, Text.toChars_ofChars]
  exact checkScript_of_serves hserves

theorem serves_of_not_isBroken
    (hgrammar : ∀ r ∈ requests, ∀ chars, r.script = Text.ofChars chars → grammar.Serves chars)
    (h : ∀ r ∈ requests, Record.isBroken r.script = false) :
    ∀ r ∈ requests, ∃ chars, r.script = Text.ofChars chars ∧ grammar.Serves chars := by
  intro r hr
  obtain ⟨chars, hchars⟩ := Text.plain_iff.mp (Text.plain_iff_not_isBroken.mpr (h r hr))
  exact ⟨chars, hchars, hgrammar r hr chars hchars⟩

/-- A batch with a lone surrogate in a script fails with the first such script. -/
theorem check_of_isBroken (hgrammar : ∀ chars, grammar.Serves chars)
    (hbroken : ∃ r ∈ requests, Record.isBroken r.script) :
    ∃ before r after e, requests = before ++ r :: after ∧
      (∀ x ∈ before, Record.isBroken x.script = false) ∧ Utf8.scalars 0 r.script = .error e ∧
      check grammar policy requests = .error (.unencodable e) := by
  obtain ⟨r, hfind⟩ := Option.isSome_iff_exists.mp (List.find?_isSome.mpr hbroken)
  obtain ⟨hr, before, after, rfl, hbefore⟩ := List.find?_eq_some_iff_append.mp hfind
  have hbefore : ∀ x ∈ before, Record.isBroken x.script = false := by simpa using hbefore
  obtain ⟨e, hscalars, hcheck⟩ : ∃ e, Utf8.scalars 0 r.script = .error e ∧
      checkScript grammar policy r.script r.allowedVariables = .error (.unencodable e) :=
    checkScript_of_isBroken hr
  obtain ⟨reports, hreports, -⟩ : ∃ reports, check grammar policy before = .ok reports ∧ _ :=
    check_of_serves (serves_of_not_isBroken (fun _ _ chars _ => hgrammar chars) hbefore)
  exact ⟨before, r, after, e, rfl, hbefore, hscalars, mapM_eq_error hreports hcheck⟩

/-- The requests with another script in one place. -/
def replaceScript (requests : List Request) (i : Nat) (script : Text) : List Request :=
  requests.modify i fun r => { r with script := script }

theorem not_isBroken_replaceScript {i : Nat} {script : Text}
    (h : ∀ r ∈ requests, Record.isBroken r.script = false)
    (hscript : Record.isBroken script = false) :
    ∀ r ∈ replaceScript requests i script, Record.isBroken r.script = false := by
  intro r hr
  obtain ⟨j, hj⟩ := List.getElem?_of_mem hr
  rw [replaceScript, List.getElem?_modify, Option.map_eq_map] at hj
  obtain ⟨x, hx, rfl⟩ := Option.map_eq_some_iff.mp hj
  split
  · exact hscript
  · exact h x (List.mem_of_getElem? hx)

/-- Where the requests are the same, so are the reports. -/
theorem getElem?_eq_of_reportOf {others : List Request} {reports reports' : List Report} {j : Nat}
    (h : List.Forall₂ (ReportOf grammar policy) requests reports)
    (h' : List.Forall₂ (ReportOf grammar policy) others reports')
    (hj : others[j]? = requests[j]?) : reports'[j]? = reports[j]? := by
  have hmap {rs : List Request} {reports : List Report}
      (h : List.Forall₂ (ReportOf grammar policy) rs reports) :
      rs.map (fun r => checkScript grammar policy r.script r.allowedVariables) =
        reports.map .ok := by
    rw [← List.forall₂_eq_eq_eq, List.forall₂_map_left_iff, List.forall₂_map_right_iff]
    exact h.imp fun _ _ hreport => hreport.1
  have hreport : (reports.map (Except.ok (ε := Check.Fault)))[j]? = (reports'.map .ok)[j]? := by
    rw [← hmap h, ← hmap h', List.getElem?_map, List.getElem?_map, hj]
  rw [List.getElem?_map, List.getElem?_map] at hreport
  cases hfirst : reports[j]? <;> cases hsecond : reports'[j]? <;> simp_all

/-- **An entry of a batch depends on its own script alone**, as long as all scripts consist of
characters: there is one report for each, however many workers are at it, and another script in one
place changes no entry but its own. If some script holds a lone surrogate there are no entries at
all: the batch fails with the first such script. -/
theorem entries_independent (grammar : Grammar) (hgrammar : ∀ chars, grammar.Serves chars)
    (policy : Policy) (workers : Int) (requests : List Request) :
    ((∀ r ∈ requests, Record.isBroken r.script = false) →
      ∃ reports, (∀ outcome, Yields grammar policy workers requests outcome ↔
          outcome = .ok reports) ∧
        reports.length = requests.length ∧
        ∀ (i : Nat) (script : Text), Record.isBroken script = false →
          ∃ others, (∀ outcome, Yields grammar policy workers (replaceScript requests i script)
              outcome ↔ outcome = .ok others) ∧
            others.length = requests.length ∧ ∀ j, j ≠ i → others[j]? = reports[j]?) ∧
    ((∃ r ∈ requests, Record.isBroken r.script) →
      ∃ before r after e, requests = before ++ r :: after ∧
        (∀ x ∈ before, Record.isBroken x.script = false) ∧ Utf8.scalars 0 r.script = .error e ∧
        ∀ outcome, Yields grammar policy workers requests outcome ↔
          outcome = .error (.unencodable e)) := by
  constructor
  · intro hplain
    obtain ⟨reports, hcheck, hreports⟩ : ∃ reports, check grammar policy requests = .ok reports ∧
        _ := check_of_serves (serves_of_not_isBroken (fun _ _ chars _ => hgrammar chars) hplain)
    refine ⟨reports, fun outcome => hcheck ▸ yields_iff, hreports.length_eq.symm,
      fun i script hscript => ?_⟩
    obtain ⟨others, hcheck', hothers⟩ : ∃ others,
        check grammar policy (replaceScript requests i script) = .ok others ∧ _ :=
      check_of_serves (serves_of_not_isBroken (fun _ _ chars _ => hgrammar chars)
        (not_isBroken_replaceScript hplain hscript))
    refine ⟨others, fun outcome => hcheck' ▸ yields_iff,
      hothers.length_eq.symm.trans (List.length_modify ..), fun j hj => ?_⟩
    exact getElem?_eq_of_reportOf hreports hothers (List.getElem?_modify_ne _ _ hj.symm)
  · intro hbroken
    obtain ⟨before, r, after, e, hsplit, hbefore, hscalars, hcheck⟩ : ∃ before r after e,
        _ ∧ _ ∧ _ ∧ check grammar policy requests = .error (.unencodable e) :=
      check_of_isBroken hgrammar hbroken
    exact ⟨before, r, after, e, hsplit, hbefore, hscalars, fun outcome => hcheck ▸ yields_iff⟩

section Payloads

open Ecma

/-- A grammar that knows the script `1`, finds a parenthesis that stands alone, and takes every
other script as wrong as a whole. -/
def digitGrammar : Grammar := fun chars =>
  if chars = ['1'] then bare "program" 0 1 [bare "expression_statement" 0 1 [bare "number" 0 1 []]]
  else if chars = [')'] then
    { bare "program" 0 1 [{ bare "ERROR" 0 1 [{ bare ")" 0 1 [] with isNamed := false }] with
      isError := true, hasError := true }] with hasError := true }
  else { bare "program" 0 0 [] with hasError := true }

theorem digitGrammar_serves (chars : List Char) : digitGrammar.Serves chars := by
  by_cases hone : chars = ['1']
  · subst hone
    exact ⟨by decide, by decide⟩
  by_cases hparen : chars = [')']
  · subst hparen
    exact ⟨by decide, by decide⟩
  have htree : digitGrammar chars = { bare "program" 0 0 [] with hasError := true } := by
    rw [digitGrammar, if_neg hone, if_neg hparen]
  have hzero : (Source.ofChars chars .codepoint).IsBoundary 0 := ⟨[], chars, rfl, rfl⟩
  refine ⟨?_, .inl (by rw [htree])⟩
  rw [htree]
  exact Node.all_iff.mpr ⟨by simpa [Source.places, bare] using hzero, by simp [bare]⟩

/-- Two requests for the script `1`. -/
def digitRequests : List Request := [⟨"1", []⟩, ⟨"1", []⟩]

/-- Two requests, of which the first is for half of a pair. -/
def brokenRequests : List Request := [⟨[.surrogate ⟨0x3D, by decide⟩], []⟩, ⟨"1", []⟩]

/-- With an unpaired parenthesis in place of the first script, the second entry is what it was; with
half of a pair in its place there is none. -/
theorem digitRequests_entries_independent :
    (∀ r ∈ digitRequests, Record.isBroken r.script = false) ∧
    (∃ reports others,
      (∀ outcome, Yields digitGrammar Policy.standard 4 digitRequests outcome ↔
        outcome = .ok reports) ∧
      (∀ outcome, Yields digitGrammar Policy.standard 4 (replaceScript digitRequests 0 ")")
        outcome ↔ outcome = .ok others) ∧
      others.length = 2 ∧ others[1]? = reports[1]?) ∧
    ∃ e, ∀ outcome, Yields digitGrammar Policy.standard 4 brokenRequests outcome ↔
      outcome = .error (.unencodable e) := by
  have hplain : ∀ r ∈ digitRequests, Record.isBroken r.script = false := by decide
  obtain ⟨reports, hreports, -, hothers⟩ := (entries_independent digitGrammar digitGrammar_serves
    Policy.standard 4 digitRequests).1 hplain
  obtain ⟨others, hyields, hlength, hsame⟩ := hothers 0 ")" (by decide)
  obtain ⟨before, r, after, e, -, -, -, hfails⟩ := (entries_independent digitGrammar
    digitGrammar_serves Policy.standard 4 brokenRequests).2 ⟨_, List.mem_cons_self .., by decide⟩
  exact ⟨hplain, ⟨reports, others, hreports, hyields, hlength, hsame 1 (by decide)⟩, e, hfails⟩

/-- A payload with these requests can be read, but there is no report for its second script, which
has one if the first script is another. -/
theorem broken_script_fails_batch :
    (parse .builtIn
        "[\x7b\"script\": \"\\ud83d\"\x7d, \x7b\"script\": \"1\"\x7d]".toList).toOption =
      some brokenRequests ∧
    (∀ chars, digitGrammar.Serves chars) ∧
    Yields digitGrammar Policy.standard 1 brokenRequests (.error (.unencodable ⟨0, 1, 0xD83D⟩)) ∧
    Yields digitGrammar Policy.standard 1 (replaceScript brokenRequests 0 "1") (.ok [{}, {}]) :=
  ⟨by decide +kernel, digitGrammar_serves, yields_iff.mpr rfl, yields_iff.mpr rfl⟩

end Payloads

end Batch

end ScriptGate
