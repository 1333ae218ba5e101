import ScriptGate.Proofs.Check.Spans
import ScriptGate.Proofs.Check.Wording
import ScriptGate.Proofs.Syntax.Regions

/-!
# Syntax errors are the outermost regions

A script is refused if its tree is flagged as wrong, and the regions of the tree are told. If the
flags tell the truth, it is refused if and only if there is a region, and there is one diagnostic
for each outermost region, in the order in which a walk from the root meets them. Whether the flags
tell the truth or not, a script that is refused is told at least one syntax error.

## Main results

* `Script.errorMessage_head`: every syntax error is called one.
* `Script.reports_of_flagged`: the syntax errors of a tree belong to its outermost regions.
* `Script.parse_reports_outermost`: scripts are refused for their outermost regions.
-/

namespace ScriptGate.Script

variable {s : Source} {root n : Node} {d : Diagnostic} {ds : List Diagnostic}

/-! ### Every syntax error is called one -/

theorem errorMessage_head {message : Text} (h : errorMessage s n = .ok message) :
    ("Syntax error" : Text) <+: message := by
  rw [errorMessage] at h
  split at h
  · exact ⟨_, Except.ok.inj h⟩
  · obtain ⟨t, -, h⟩ := bind_eq_ok h
    dsimp only at h
    split at h
    · exact ⟨_, Except.ok.inj h⟩
    · exact ⟨_, Except.ok.inj h⟩

theorem Reports.head (h : Reports s n d) : ("Syntax error" : Text) <+: d.message := by
  obtain ⟨message, hmessage, hd⟩ := h
  rw [Check.message_of_diagnostic hd]
  exact errorMessage_head hmessage

/-- The syntax errors of a tree are called so, whatever its flags are. -/
theorem head_of_syntaxErrors (h : syntaxErrors s root = .ok ds) :
    ∀ d ∈ ds, ("Syntax error" : Text) <+: d.message := by
  intro d hd
  rcases syntaxErrors_eq_ok h with ⟨⟨e, he, rfl⟩, -⟩ | ⟨hall, -⟩
  · have hmessage : d.message = ("Syntax error" : Text) := by
      rw [List.mem_singleton.mp hd]
      exact Check.message_of_diagnostic he
    simp [hmessage]
  · obtain ⟨region, -, hregion⟩ := exists_of_mem_right hall hd
    exact hregion.head

/-! ### Syntax errors belong to outermost regions -/

/-- **The syntax errors of a tree whose flags tell the truth belong to its outermost regions**, one
for each, in the same order. -/
theorem reports_of_flagged (hflagged : root.Flagged) (herror : root.hasError)
    (h : syntaxErrors s root = .ok ds) :
    List.Forall₂ (fun a d => ∃ n, root.at? a = some n ∧ n.isRegion ∧ Reports s n d)
      (root.outermost.map (·.1)) ds := by
  have hregions := Node.errorRegions_of_flagged hflagged
  rcases syntaxErrors_eq_ok h with ⟨-, hnone⟩ | ⟨hall, -⟩
  · -- The tree is flagged, so that there is a region, and one above it that is outermost.
    obtain ⟨a, n, hn, hregion⟩ := (hflagged [] root rfl).mp herror
    obtain ⟨b, -, houter⟩ := Node.exists_isOutermost hn hregion
    have hmem := Node.mem_map_fst_outermost.mpr houter
    rw [hregions, List.map_eq_nil_iff] at hnone
    rw [hnone] at hmem
    cases hmem
  · rw [hregions, List.forall₂_map_left_iff] at hall
    have hat : ∀ x ∈ root.outermost, root.at? x.1 = some x.2 ∧ x.2.isRegion := by
      intro x hx
      obtain ⟨houter, hm⟩ := Node.mem_outermost.mp hx
      obtain ⟨n, hn, hregion⟩ := houter.region
      exact ⟨hm, Option.some.inj (hm.symm.trans hn) ▸ hregion⟩
    refine List.forall₂_map_left_iff.mpr (((List.forall₂_and_left _ _).mpr ⟨hat, hall⟩).imp ?_)
    rintro x d ⟨⟨hx, hregion⟩, hd⟩
    exact ⟨x.2, hx, hregion, hd⟩

/-! ### Scripts that are refused -/

variable {grammar : Grammar} {chars : List Char} {unit : OffsetUnit}

/-- A script is refused with the syntax errors of its tree, if this is flagged as wrong. -/
theorem parse_eq_syntaxError {failure : SyntaxFailure}
    (h : parse grammar chars unit = .error (.syntaxError failure)) :
    (grammar chars).hasError ∧
      syntaxErrors (.ofChars chars unit) (grammar chars) = .ok failure.diagnostics := by
  rw [parse] at h
  split at h
  next herror =>
    refine ⟨herror, ?_⟩
    split at h
    next ds hds =>
      cases h
      exact hds
    next => cases h
  next => cases h

/-- **Scripts are refused for their outermost regions.** Let the nodes of a tree stand between
characters, and its flags tell the truth. Then the script is refused if and only if the tree has a
region, and the diagnostics belong to the outermost regions: there is one for each, in the order in
which a walk from the root meets them. Whatever the flags are, a script whose tree is flagged is
refused, with at least one diagnostic, and every one is called a syntax error. -/
theorem parse_reports_outermost (grammar : Grammar) (chars : List Char) (unit : OffsetUnit) :
    ((grammar chars).all (Source.ofChars chars unit).places → (grammar chars).Flagged →
      ((∃ failure, parse grammar chars unit = .error (.syntaxError failure)) ↔
        ∃ a n, (grammar chars).at? a = some n ∧ n.isRegion) ∧
      ((∀ a n, (grammar chars).at? a = some n → n.isRegion = false) →
        parse grammar chars unit = .ok ⟨.ofChars chars unit, grammar chars⟩) ∧
      ∀ failure, parse grammar chars unit = .error (.syntaxError failure) →
        ∃ addresses : List (List Nat),
          (∀ a, a ∈ addresses ↔ (grammar chars).IsOutermost a) ∧
          addresses.Pairwise (List.Lex (· < ·)) ∧
          (∀ a n, (grammar chars).at? a = some n → n.isRegion → ∃ b ∈ addresses, b <+: a) ∧
          (∀ a ∈ addresses, ∀ b ∈ addresses, a <+: b → a = b) ∧
          List.Forall₂ (fun a d => ∃ n, (grammar chars).at? a = some n ∧ n.isRegion ∧
            Reports (.ofChars chars unit) n d) addresses failure.diagnostics) ∧
    ((grammar chars).hasError →
      ((grammar chars).all (Source.ofChars chars unit).places →
        ∃ failure, parse grammar chars unit = .error (.syntaxError failure)) ∧
      ∀ failure, parse grammar chars unit = .error (.syntaxError failure) →
        failure.diagnostics ≠ [] ∧
          ∀ d ∈ failure.diagnostics, ("Syntax error" : Text) <+: d.message) := by
  constructor
  · intro hplaces hflagged
    have hroot := hflagged [] (grammar chars) rfl
    refine ⟨⟨fun ⟨failure, hfailure⟩ => hroot.mp (parse_eq_syntaxError hfailure).1, fun hregion =>
      ⟨_, parse_of_hasError hplaces (hroot.mpr hregion)⟩⟩, fun hclear => ?_, ?_⟩
    · refine parse_of_not_hasError (Bool.eq_false_iff.mpr fun herror => ?_)
      obtain ⟨a, n, hn, hregion⟩ := hroot.mp herror
      rw [hclear a n hn] at hregion
      cases hregion
    · intro failure hfailure
      obtain ⟨herror, hds⟩ := parse_eq_syntaxError hfailure
      have hmem (a : List Nat) := Node.mem_map_fst_outermost (n := grammar chars) (a := a)
      refine ⟨(grammar chars).outermost.map (·.1), hmem,
        List.pairwise_map.mpr (Node.pairwise_outermost _), fun a n hn hregion => ?_,
        fun a ha b hb => ((hmem a).mp ha).eq_of_initial ((hmem b).mp hb),
        reports_of_flagged hflagged herror hds⟩
      obtain ⟨b, hb, houter⟩ := Node.exists_isOutermost hn hregion
      exact ⟨b, (hmem b).mpr houter, hb⟩
  · intro herror
    refine ⟨fun hplaces => ⟨_, parse_of_hasError hplaces herror⟩, fun failure hfailure => ?_⟩
    have hds := (parse_eq_syntaxError hfailure).2
    exact ⟨(legible_of_syntaxErrors hds).told rfl, head_of_syntaxErrors hds⟩

/-- The tree of `)a(`, where a parenthesis is out of place and another one is missing. Below the
first there is a missing token too. -/
def strayTree : Node :=
  let missing := fun kind place =>
    { Ecma.bare kind place place [] with isMissing := true, hasError := true }
  { Ecma.bare "program" 0 3 [
      { Ecma.bare "ERROR" 0 1 [missing "identifier" 1] with isError := true, hasError := true },
      { Ecma.bare "call_expression" 1 3 [Ecma.bare "identifier" 1 2 [], missing ")" 3]
        with hasError := true }]
    with hasError := true }

/-- Of the three regions of the tree, the two outermost are told, in their order. Under flags that
do not tell the truth, a tree without regions is refused as well. -/
theorem strayTree_reports :
    (∃ failure, parse (fun _ => strayTree) ")a(".toList .utf16 = .error (.syntaxError failure) ∧
      failure.diagnostics = [⟨0, 1, "Syntax error: unexpected ')'"⟩,
        ⟨3, 3, "Syntax error: missing ')'"⟩] ∧
      ∃ addresses : List (List Nat), (∀ a, a ∈ addresses ↔ strayTree.IsOutermost a) ∧
        List.Forall₂ (fun a d => ∃ n, strayTree.at? a = some n ∧ n.isRegion ∧
          Reports (.ofChars ")a(".toList .utf16) n d) addresses failure.diagnostics) ∧
    parse (fun _ => Ecma.bare "program" 0 1 []) "a".toList .utf16 =
      .ok ⟨.ofChars "a".toList .utf16, Ecma.bare "program" 0 1 []⟩ ∧
    ∃ failure, parse (fun _ => { Ecma.bare "program" 0 1 [] with hasError := true }) "a".toList
        .utf16 = .error (.syntaxError failure) ∧ failure.diagnostics ≠ [] ∧
      ∀ d ∈ failure.diagnostics, ("Syntax error" : Text) <+: d.message := by
  refine ⟨?_, ?_, ?_⟩
  · have hstray := parse_reports_outermost (fun _ => strayTree) ")a(".toList .utf16
    obtain ⟨failure, hfailure⟩ := (hstray.2 rfl).1 (by decide)
    obtain ⟨addresses, hmem, -, -, -, hreports⟩ := (hstray.1 (by decide) (by decide)).2.2 _ hfailure
    refine ⟨failure, hfailure, ?_, addresses, hmem, hreports⟩
    cases hfailure
    rfl
  · refine ((parse_reports_outermost (fun _ => Ecma.bare "program" 0 1 []) "a".toList .utf16).1
      (by decide) (by decide)).2.1 ?_
    have hclear : (Ecma.bare "program" 0 1 []).all (!·.isRegion) := by decide
    exact fun a n hn => by simpa using Node.all_iff_at?.mp hclear a n hn
  · have hflag := (parse_reports_outermost
      (fun _ => { Ecma.bare "program" 0 1 [] with hasError := true }) "a".toList .utf16).2 rfl
    obtain ⟨failure, hfailure⟩ := hflag.1 (by decide)
    exact ⟨failure, hfailure, hflag.2 failure hfailure⟩

end ScriptGate.Script
