import ScriptGate.Proofs.Batch.Isolation
import ScriptGate.Proofs.Json.Indented

/-!
# The answer to a batch

The answer is one line of JSON text. Read again, it is an array with an entry for each request, in
order, and each entry holds what the script of its request gives alone: an entry is empty if and
only if the script is accepted.

## Main definitions

* `Batch.EntryOf`: the entry that belongs to a request.

## Main results

* `Report.portable_toJson`, `Batch.portable_response`: diagnostics are written and read back.
* `Batch.answer_decodes`: the answer holds the entry that belongs to each request.
-/

namespace ScriptGate

open Json (fits Portable Written)

variable {limit : Option Nat}

/-- A smaller number has no more digits. -/
theorem Json.fits_of_le {m : Nat} {n : Int} (hm : fits limit m) (h : n.natAbs ≤ m) :
    fits limit n := by
  cases limit with
  | none => rfl
  | some k =>
    have hlength : (Nat.toDigits 10 m).length ≤ k := by simpa [fits] using hm
    have hk : 0 < k := Nat.lt_of_lt_of_le Nat.length_toDigits_pos hlength
    have hlt := (Nat.length_toDigits_le_iff (by decide) hk).mp hlength
    simpa [fits] using (Nat.length_toDigits_le_iff (by decide) hk).mpr (Nat.lt_of_le_of_lt h hlt)

/-- A diagnostic is written and read back. -/
theorem Diagnostic.portable_toJson {d : Diagnostic} (hstart : fits limit d.start)
    (hstop : fits limit d.stop) (hmessage : d.message.Plain) : Portable limit d.toJson := by
  refine .object (List.cons_ne_nil _ _) ?_ rfl ?_
  · simp only [List.forall_mem_cons]
    exact ⟨Text.plain_ofString _, Text.plain_ofString _, Text.plain_ofString _, by simp⟩
  · simp only [List.forall_mem_cons]
    exact ⟨.int hstart, .int hstop, .string hmessage, by simp⟩

namespace Report

variable {report : Report}

/-- The diagnostics of a report are written and read back, if their places do not have too many
digits. -/
theorem portable_toJson (h : report.Legible)
    (hfits : ∀ d ∈ report.diagnostics, fits limit d.start ∧ fits limit d.stop) :
    Portable limit report.toJson := by
  refine .array fun v hv => ?_
  obtain ⟨d, hd, rfl⟩ := List.mem_map.mp hv
  exact Diagnostic.portable_toJson (hfits d hd).1 (hfits d hd).2 (h.plain d hd)

theorem Sensible.fits {size : Nat} (h : report.Sensible size) (hfits : fits limit size) :
    ∀ d ∈ report.diagnostics, Json.fits limit d.start ∧ Json.fits limit d.stop := fun d hd =>
  ⟨Json.fits_of_le hfits (h.placed d hd).1, Json.fits_of_le hfits (h.placed d hd).2⟩

/-- **A report has no diagnostics if and only if the script is accepted**: a syntax error is always
told. -/
theorem toJson_eq_nil_iff (h : report.Legible) : report.toJson = .array [] ↔ report.accepted := by
  have htold : report.diagnostics = [] → report.syntaxError = false := fun hnil => by
    simpa using fun hwrong => h.told hwrong hnil
  simpa [toJson, accepted] using htold

end Report

namespace Batch

variable {grammar : Grammar} {policy : Policy} {requests : List Request}

/-- The entry that belongs to a request: the records of the diagnostics that its script gives alone.
It is empty if and only if the script is accepted. -/
def EntryOf (grammar : Grammar) (policy : Policy) (r : Request) (entry : Json.Value) : Prop :=
  ∃ report, checkScript grammar policy r.script r.allowedVariables = .ok report ∧
    entry = .array (report.diagnostics.map fun d =>
      .object [("start", .int d.start), ("end", .int d.stop), ("message", .string d.message)]) ∧
    (entry = .array [] ↔ report.accepted)

theorem entryOf_toJson {r : Request} {report : Report} (h : ReportOf grammar policy r report) :
    EntryOf grammar policy r report.toJson :=
  ⟨report, h.1, rfl, Report.toJson_eq_nil_iff h.2.legible⟩

/-- The reports of a batch are written and read back. -/
theorem portable_response {reports : List Report} (h : ∀ report ∈ reports, report.Legible)
    (hfits : ∀ report ∈ reports, ∀ d ∈ report.diagnostics, fits limit d.start ∧ fits limit d.stop) :
    Portable limit (response reports) := by
  refine .array fun v hv => ?_
  obtain ⟨report, hreport, rfl⟩ := List.mem_map.mp hv
  exact Report.portable_toJson (h report hreport) (hfits report hreport)

theorem written_response {reports : List Report}
    (h : List.Forall₂ (ReportOf grammar policy) requests reports)
    (hfits : ∀ r ∈ requests, fits limit (2 * r.script.length : Nat)) :
    Written limit (response reports) := by
  have hof (report : Report) (hreport : report ∈ reports) : report.Legible ∧
      ∀ d ∈ report.diagnostics, fits limit d.start ∧ fits limit d.stop := by
    obtain ⟨r, hr, hof⟩ := exists_of_mem_right h hreport
    have hsize := policy.offsetUnit.size_le r.script.toChars
    rw [Text.length_toChars] at hsize
    exact ⟨hof.2.legible, hof.2.fits (Json.fits_of_le (hfits r hr) hsize)⟩
  exact (portable_response (fun report hr => (hof report hr).1)
    fun report hr => (hof report hr).2).written

/-- **The answer to a batch of scripts of characters is JSON text with an entry for each request**,
in order: the records of the diagnostics that the script of the request gives alone. The number of
workers makes no difference. A reader that limits the digits of a number needs that no script is so
long that a place in it has more digits. -/
theorem answer_decodes (rules : Rules) (grammar : Grammar) (policy : Policy) (payload : List Char)
    (requests : List Request) (hparse : parse rules payload = .ok requests)
    (hplain : ∀ r ∈ requests, Record.isBroken r.script = false)
    (hgrammar : ∀ r ∈ requests, ∀ chars, r.script = Text.ofChars chars → grammar.Serves chars) :
    ∃ (text : List Char) (entries : List Json.Value),
      (∀ workers outcome, Answers rules grammar policy workers payload outcome ↔
        outcome = .ok (Text.ofChars text)) ∧
      Json.readWithin none text = .ok (.array entries) ∧
      ((∀ r ∈ requests, fits (some Numeral.maxDigits) (2 * r.script.length : Nat)) →
        Json.read text = .ok (.array entries)) ∧
      List.Forall₂ (EntryOf grammar policy) requests entries := by
  obtain ⟨reports, hcheck, hreports⟩ : ∃ reports, check grammar policy requests = .ok reports ∧ _ :=
    check_of_serves (serves_of_not_isBroken hgrammar hplain)
  have hunlimited : Written none (response reports) := written_response hreports fun _ _ => rfl
  obtain ⟨text, hwrite⟩ := Text.plain_iff.mp hunlimited.plain
  refine ⟨text, reports.map Report.toJson, fun workers outcome => ?_, hunlimited.readWithin hwrite,
    fun hshort => ?_, ?_⟩
  · have hanswer : answer rules grammar policy payload = .ok (Text.ofChars text) := by
      rw [answer, Batch.reports, hparse, ← hwrite]
      simp only [Except.mapError, bind, Except.bind]
      rw [hcheck]
      rfl
    rw [answers_iff, hanswer]
  · have hlimited : Written (some Numeral.maxDigits) (response reports) :=
      written_response hreports hshort
    exact hlimited.readWithin hwrite
  · rw [List.forall₂_map_right_iff]
    exact hreports.imp fun _ _ h => entryOf_toJson h

section Payload

open Ecma

/-- A grammar that also knows a name of one letter past the first plane. -/
def letterGrammar : Grammar := fun chars =>
  if chars = ['𝑥'] then
    bare "program" 0 4 [bare "expression_statement" 0 4 [bare "identifier" 0 4 []]]
  else digitGrammar chars

theorem letterGrammar_serves (chars : List Char) : letterGrammar.Serves chars := by
  by_cases hletter : chars = ['𝑥']
  · subst hletter
    exact ⟨by decide, by decide⟩
  · have htree : letterGrammar chars = digitGrammar chars := if_neg hletter
    obtain ⟨hplaced, hshaped⟩ := digitGrammar_serves chars
    exact ⟨htree ▸ hplaced, htree ▸ hshaped⟩

/-- A payload with a number, a parenthesis alone and a name. -/
def letterPayload : List Char :=
  "[\x7b\"script\": \"1\"\x7d, \x7b\"script\": \")\"\x7d, \x7b\"script\": \"𝑥\"\x7d]".toList

/-- The requests of the payload. -/
def letterRequests : List Request := [⟨"1", []⟩, ⟨")", []⟩, ⟨"𝑥", []⟩]

theorem parse_letterPayload : parse .builtIn letterPayload = .ok letterRequests :=
  eq_ok_of_toOption (by decide +kernel)

/-- The number is accepted and its entry is empty. The other entries tell a syntax error and a name
that is not allowed, which is recovered from the escapes of a pair. -/
theorem letterPayload_answer_decodes :
    parse .builtIn letterPayload = .ok letterRequests ∧
    (∀ r ∈ letterRequests, Record.isBroken r.script = false) ∧
    ∃ text, (∀ workers outcome,
        Answers .builtIn letterGrammar Policy.standard workers letterPayload outcome ↔
          outcome = .ok (Text.ofChars text)) ∧
      Json.read text = .ok (.array [.array [],
        .array [.object [("start", .int 0), ("end", .int 1),
          ("message", .string "Syntax error: unexpected ')'")]],
        .array [.object [("start", .int 0), ("end", .int 2),
          ("message", .string "unidetified: 𝑥")]]]) := by
  have hplain : ∀ r ∈ letterRequests, Record.isBroken r.script = false := by decide
  obtain ⟨text, entries, hanswers, -, hread, hentries⟩ := answer_decodes .builtIn letterGrammar
    Policy.standard letterPayload letterRequests parse_letterPayload hplain
    fun _ _ chars _ => letterGrammar_serves chars
  have hshort : ∀ r ∈ letterRequests,
      fits (some Numeral.maxDigits) (2 * r.script.length : Nat) := by decide
  refine ⟨parse_letterPayload, hplain, text, hanswers, (hread hshort).trans ?_⟩
  obtain _ | ⟨⟨first, hfirst, rfl, -⟩, _ | ⟨⟨second, hsecond, rfl, -⟩,
    _ | ⟨⟨third, hthird, rfl, -⟩, _ | _⟩⟩⟩ := hentries
  obtain rfl := Except.ok.inj (hfirst.symm.trans (eq_ok_of_toOption (a := {}) (by decide +kernel)))
  obtain rfl := Except.ok.inj (hsecond.symm.trans (eq_ok_of_toOption
    (a := ⟨[⟨0, 1, "Syntax error: unexpected ')'"⟩], true⟩) (by decide +kernel)))
  obtain rfl := Except.ok.inj (hthird.symm.trans (eq_ok_of_toOption
    (a := ⟨[⟨0, 2, "unidetified: 𝑥"⟩], false⟩) (by decide +kernel)))
  rfl

end Payload

end Batch

end ScriptGate
