import ScriptGate.Proofs.Check.Findings

/-!
# Diagnostics point at the text that they are about

The places of a diagnostic are those of a node, and a reader who cuts the script there sees the text
of the node. A name that nothing allows is quoted in its message, and it is what is cut. In the
other unit the places differ, but the messages and the texts that are cut are the same.

## Main definitions

* `Source.spans`: a node that stands between characters and does not end before it begins.
* `Diagnostic.cut`: what a diagnostic points at; `Diagnostic.reading`: its message along with this.
* `Diagnostic.Marks`: a diagnostic that points at a node.

## Main results

* `Check.text_of_tells`: a message that quotes a name is about a node with this text.
* `Finding.marks`: the diagnostic of a finding points at its node.
* `diagnostics_point_at_text`: all diagnostics point at nodes, in either unit.
-/

namespace ScriptGate

/-- The node stands between characters, and does not end before it begins. -/
def Source.spans (s : Source) (n : Node) : Bool := s.places n && n.start ≤ n.stop

namespace Diagnostic

/-- What a diagnostic points at: the script between its places. -/
def cut (u : OffsetUnit) (chars : List Char) (d : Diagnostic) : Option (List Char) :=
  u.slice chars d.start.toNat d.stop.toNat

/-- What a reader takes from a diagnostic: its message, and what it points at. -/
def reading (u : OffsetUnit) (chars : List Char) (d : Diagnostic) : Text × Option (List Char) :=
  (d.message, d.cut u chars)

/-- The diagnostic points at a node: it has its span, which lies in the script, and what it points
at is the text of the node. If the message says that a name is not allowed, it points at this
name. -/
structure Marks (s : Source) (n : Node) (d : Diagnostic) : Prop where
  span : ∃ start stop : Nat, s.span n = .ok (start, stop) ∧ d.start = start ∧ d.stop = stop
  within : 0 ≤ d.start ∧ d.start ≤ d.stop ∧ d.stop ≤ s.unit.size s.chars
  text : ∃ cs, d.cut s.unit s.chars = some cs ∧ s.text n = .ok (Text.ofChars cs)
  name : ∀ name, d.message = Check.identifierTemplate.fill name →
    ∃ cs, d.cut s.unit s.chars = some cs ∧ name = Text.ofChars cs

end Diagnostic

/-! ### Messages that quote a name -/

/-- A message begins like its template. -/
theorem Template.take_fill {t : Template} {thing : Text} {k : Nat}
    (h : k ≤ (t.before : Text).length) : (t.fill thing).take k = (t.before : Text).take k := by
  rw [fill, List.append_assoc, List.take_append_of_le_length h]

namespace Check

variable {ctx : Context} {n : Node} {name message : Text}

theorem identifierTemplate_injective {a b : Text}
    (h : identifierTemplate.fill a = identifierTemplate.fill b) : a = b :=
  List.append_cancel_left (List.append_cancel_right h)

theorem take_of_mem_fixedMessages :
    ∀ message ∈ fixedMessages, (message : Text).take 3 ≠ ("uni" : Text) := by
  decide

/-- **A message that quotes a name is about a node with this text.** No other message begins like
it. -/
theorem text_of_tells (h : ctx.Tells n message) (hname : message = identifierTemplate.fill name) :
    ctx.text n = .ok name := by
  have htake : message.take 3 = ("uni" : Text) := by
    rw [hname, Template.take_fill (by decide)]
    rfl
  have hother {t : Template} {thing : Text} (hlen : 3 ≤ (t.before : Text).length)
      (ht : (t.before : Text).take 3 ≠ ("uni" : Text)) : message ≠ t.fill thing := fun h =>
    ht (by rwa [h, Template.take_fill hlen] at htake)
  cases h with
  | name _ htext => rwa [identifierTemplate_injective hname] at htext
  | operator _ => exact absurd rfl (hother (by decide) (by decide))
  | kind => exact absurd rfl (hother (by decide) (by decide))
  | optionalChain => exact absurd rfl (hother (by decide) (by decide))
  | callOf _ => exact absurd rfl (hother (by decide) (by decide))
  | fixed hmem => exact absurd htake (take_of_mem_fixedMessages _ hmem)

end Check

/-- The wording of a syntax error begins like no message that quotes a name. -/
theorem Script.errorMessage_ne_fill {s : Source} {n : Node} {name : Text} :
    (errorMessage s n).toOption.getD [] ≠ Check.identifierTemplate.fill name := by
  have hhead (rest : Text) : ("Syntax error" : Text) ++ rest ≠ Check.identifierTemplate.fill name :=
    fun h => by cases h
  rw [errorMessage]
  split
  · exact hhead _
  · cases s.text n with
    | error e => exact fun h => by cases h
    | ok t =>
      simp only [Check.ofSource_ok, bind, Except.bind]
      split
      · exact hhead _
      · exact hhead _

/-! ### Findings point at their nodes -/

namespace Source

variable {s : Source} {n : Node}

theorem spans_iff : s.spans n ↔ s.places n ∧ n.start ≤ n.stop := by simp [spans]

theorem all_places_of_spans (h : n.all s.spans) : n.all s.places := by
  induction n using Node.tree_induction with
  | step n ih =>
    obtain ⟨hn, hchildren⟩ := Node.all_iff.mp h
    exact Node.all_iff.mpr ⟨(spans_iff.mp hn).1, fun c hc => ih c hc (hchildren c hc)⟩

end Source

namespace Finding

variable {s : Source} {f : Finding} {u : OffsetUnit}

/-- What the diagnostic of a finding points at is the text of the node. -/
theorem cut_diagnostic (h : s.spans f.node) : ∃ cs,
    (f.diagnostic s).cut s.unit s.chars = some cs ∧ s.text f.node = .ok (Text.ofChars cs) := by
  obtain ⟨hplaces, hle⟩ := Source.spans_iff.mp h
  obtain ⟨hstart, hstop⟩ := Source.isBoundary_of_places hplaces
  obtain ⟨cs, htext, hcut⟩ := Source.slice_eq hstart hstop hle
  exact ⟨cs, hcut, htext⟩

/-- **The diagnostic of a finding points at its node.** -/
theorem marks (h : s.spans f.node)
    (hname : ∀ name, f.message = Check.identifierTemplate.fill name → s.text f.node = .ok name) :
    (f.diagnostic s).Marks s f.node where
  span := ⟨_, _, Source.span_of_places (Source.spans_iff.mp h).1, rfl, rfl⟩
  within := by
    obtain ⟨hplaces, hle⟩ := Source.spans_iff.mp h
    obtain ⟨hstart, hstop⟩ := Source.isBoundary_of_places hplaces
    exact ⟨Int.natCast_nonneg _, Int.ofNat_le.mpr (Source.place_mono hstart hstop hle),
      Int.ofNat_le.mpr (Source.place_le_size hstop)⟩
  text := cut_diagnostic h
  name name hmessage := by
    obtain ⟨cs, hcut, htext⟩ := cut_diagnostic h
    rw [hname name hmessage] at htext
    exact ⟨cs, hcut, Except.ok.inj htext⟩

/-- In the other unit a reader takes the same from a finding. -/
theorem reading_unit (h : s.spans f.node) :
    (f.diagnostic s).reading s.unit s.chars =
      (f.diagnostic { s with unit := u }).reading u s.chars := by
  obtain ⟨cs, hcut, htext⟩ := cut_diagnostic h
  obtain ⟨ds, hcut', htext'⟩ :=
    cut_diagnostic (s := { s with unit := u }) (f := f) h
  have hchars : Text.ofChars cs = Text.ofChars ds :=
    Except.ok.inj (htext.symm.trans htext')
  obtain rfl : cs = ds := (List.map_inj_right fun _ _ h => CodePoint.char.inj h).mp hchars
  rw [Diagnostic.reading, Diagnostic.reading, hcut, hcut']
  rfl

theorem map_reading_unit {fs : List Finding} (h : ∀ f ∈ fs, s.spans f.node) :
    (fs.map (·.diagnostic s)).map (·.reading s.unit s.chars) =
      (fs.map (·.diagnostic { s with unit := u })).map (·.reading u s.chars) := by
  rw [List.map_map, List.map_map]
  exact List.map_congr_left fun f hf => reading_unit (h f hf)

end Finding

namespace Check

variable {ctx : Context} {room : Nat} {s : Scope} {n : Node}

/-- What a check finds points at nodes inside the node that is checked. -/
theorem marks_outcome {ds : List Diagnostic} (h : n.all ctx.source.spans)
    (hds : outcome ctx room s n = .ok ds) :
    ∀ d ∈ ds, ∃ m above, n.Path above m ∧ d.Marks ctx.source m := by
  obtain ⟨fs, hfs, rfl⟩ := (outcome_eq_ok_iff (Source.all_places_of_spans h)).mp hds
  intro d hd
  obtain ⟨f, hf, rfl⟩ := List.mem_map.mp hd
  obtain ⟨⟨above, hpath⟩, htells⟩ := findings_inside hfs f hf
  have hspans := (Node.all_iff.mp (hpath.all h)).1
  refine ⟨f.node, above, hpath, Finding.marks hspans fun name hname => ?_⟩
  obtain ⟨t, ht⟩ := Source.text_of_places (Source.spans_iff.mp hspans).1
  have htext := text_of_tells htells hname
  rw [Context.text, ht, ofSource_ok] at htext
  exact ht.trans (congrArg Except.ok (Except.ok.inj htext))

variable (ctx) in
/-- In another unit a reader takes the same from a check. -/
theorem reading_outcome {u : OffsetUnit} (h : n.all ctx.source.spans) :
    (outcome (ctx.inUnit u) room s n).map (List.map (·.reading u ctx.source.chars)) =
      (outcome ctx room s n).map (List.map (·.reading ctx.source.unit ctx.source.chars)) := by
  have hunit : n.all (ctx.inUnit u).source.spans := h
  rw [outcome_eq_findings (Source.all_places_of_spans h),
    outcome_eq_findings (Source.all_places_of_spans hunit), findings_inUnit]
  cases hfs : findings ctx room s n with
  | error fault => rfl
  | ok fs =>
    refine congrArg Except.ok (Finding.map_reading_unit fun f hf => ?_).symm
    obtain ⟨⟨above, hpath⟩, -⟩ := findings_inside hfs f hf
    exact (Node.all_iff.mp (hpath.all h)).1

end Check

namespace Script

variable {s : Source} {root : Node}

theorem spans_errorFindings (h : root.all s.spans) :
    ∀ f ∈ errorFindings s root, s.spans f.node := fun f hf => by
  obtain ⟨⟨above, hpath⟩, -⟩ := errorFindings_inside f hf
  exact (Node.all_iff.mp (hpath.all h)).1

/-- Syntax errors point at nodes of the tree. -/
theorem marks_errorFindings (h : root.all s.spans) :
    ∀ d ∈ (errorFindings s root).map (·.diagnostic s),
      ∃ m above, root.Path above m ∧ d.Marks s m := by
  intro d hd
  obtain ⟨f, hf, rfl⟩ := List.mem_map.mp hd
  obtain ⟨⟨above, hpath⟩, hmessage⟩ := errorFindings_inside f hf
  refine ⟨f.node, above, hpath, Finding.marks (spans_errorFindings h f hf) fun name hname => ?_⟩
  rcases hmessage with hmessage | hmessage
  · cases hmessage.symm.trans hname
  · exact absurd (hmessage.symm.trans hname) errorMessage_ne_fill

/-- A tree with errors gives its syntax errors. -/
theorem parse_of_hasError {grammar : Grammar} {chars : List Char} {unit : OffsetUnit}
    (h : (grammar chars).all (Source.ofChars chars unit).places)
    (herror : (grammar chars).hasError) :
    parse grammar chars unit = .error (.syntaxError
      ⟨(errorFindings (.ofChars chars unit) (grammar chars)).map
        (·.diagnostic (.ofChars chars unit))⟩) := by
  simp only [parse, herror, if_true, syntaxErrors_eq h]

theorem parse_of_not_hasError {grammar : Grammar} {chars : List Char} {unit : OffsetUnit}
    (h : (grammar chars).hasError = false) :
    parse grammar chars unit = .ok ⟨.ofChars chars unit, grammar chars⟩ := by
  simp only [parse, h, Bool.false_eq_true, if_false]

/-- In another unit a reader takes the same from the check of a node. -/
theorem reading_validate {chars : List Char} {policy : Policy} {allowed : List Text} {n : Node}
    {scope : Scope} {u v : OffsetUnit} (h : n.all (Source.ofChars chars u).spans) :
    (validate ⟨.ofChars chars u, root⟩ { policy with offsetUnit := u } allowed n scope).1.map
        (List.map (·.reading u chars)) =
      (validate ⟨.ofChars chars v, root⟩ { policy with offsetUnit := v } allowed n scope).1.map
        (List.map (·.reading v chars)) := by
  simp only [validate, Check.validate_eq]
  exact (Check.reading_outcome
    ⟨.ofChars chars u, allowed, { policy with offsetUnit := u }⟩ h).symm

end Script

/-- In another unit a reader takes the same from the report of a script. -/
theorem reading_checkScript {grammar : Grammar} {policy : Policy} {chars : List Char}
    {allowed : List Text} {u v : OffsetUnit}
    (h : (grammar chars).all (Source.ofChars chars u).spans) :
    (checkScript grammar { policy with offsetUnit := u } (Text.ofChars chars) allowed).map
        (fun r => (r.syntaxError, r.diagnostics.map (·.reading u chars))) =
      (checkScript grammar { policy with offsetUnit := v } (Text.ofChars chars) allowed).map
        fun r => (r.syntaxError, r.diagnostics.map (·.reading v chars)) := by
  have hv : (grammar chars).all (Source.ofChars chars v).spans := h
  rw [checkScript, checkScript, Utf8.scalars_ofChars]
  dsimp only
  cases herror : (grammar chars).hasError with
  | true =>
    rw [Script.parse_of_hasError (Source.all_places_of_spans h) herror,
      Script.parse_of_hasError (Source.all_places_of_spans hv) herror]
    have hreading := Finding.map_reading_unit (u := v) (Script.spans_errorFindings h)
    exact congrArg (fun readings => Except.ok (true, readings)) hreading
  | false =>
    have hmap (w : OffsetUnit) (x : Except Check.Fault (List Diagnostic)) :
        (x.map fun ds => (⟨ds, false⟩ : Report)).map
            (fun r => (r.syntaxError, r.diagnostics.map (·.reading w chars))) =
          (x.map (List.map (·.reading w chars))).map fun readings => (false, readings) := by
      cases x <;> rfl
    rw [Script.parse_of_not_hasError herror, Script.parse_of_not_hasError herror]
    dsimp only
    rw [hmap, hmap, Script.reading_validate h]

/-- **Diagnostics point at the text that they are about, in either unit.** If all nodes of a tree
stand between characters and none ends before it begins, then every diagnostic of a check has the
span of a node and points at its text, and so does every syntax error; and a reader who takes the
places of one script in two units sees the same messages and the same texts, in the same order. -/
theorem diagnostics_point_at_text :
    (∀ (script : Script) (policy : Policy) (allowed : List Text) (n : Node) (scope : Scope)
        (ds : List Diagnostic), n.all script.source.spans →
      (script.validate policy allowed n scope).1 = .ok ds →
      ∀ d ∈ ds, ∃ m above, n.Path above m ∧ d.Marks script.source m) ∧
    (∀ (grammar : Grammar) (chars : List Char) (unit : OffsetUnit),
      (grammar chars).all (Source.ofChars chars unit).spans → (grammar chars).hasError →
      ∃ failure, Script.parse grammar chars unit = .error (.syntaxError failure) ∧
        ∀ d ∈ failure.diagnostics, ∃ m above, (grammar chars).Path above m ∧
          d.Marks (.ofChars chars unit) m) ∧
    (∀ (chars : List Char) (root : Node) (policy : Policy) (allowed : List Text) (n : Node)
        (scope : Scope) (u v : OffsetUnit), n.all (Source.ofChars chars u).spans →
      (Script.validate ⟨.ofChars chars u, root⟩ { policy with offsetUnit := u } allowed n
          scope).1.map (List.map (·.reading u chars)) =
        (Script.validate ⟨.ofChars chars v, root⟩ { policy with offsetUnit := v } allowed n
          scope).1.map (List.map (·.reading v chars))) ∧
    ∀ (grammar : Grammar) (policy : Policy) (chars : List Char) (allowed : List Text)
        (u v : OffsetUnit), (grammar chars).all (Source.ofChars chars u).spans →
      (checkScript grammar { policy with offsetUnit := u } (Text.ofChars chars) allowed).map
          (fun r => (r.syntaxError, r.diagnostics.map (·.reading u chars))) =
        (checkScript grammar { policy with offsetUnit := v } (Text.ofChars chars) allowed).map
          fun r => (r.syntaxError, r.diagnostics.map (·.reading v chars)) := by
  refine ⟨?_, ?_, fun _ _ _ _ _ _ _ _ => Script.reading_validate,
    fun _ _ _ _ _ _ => reading_checkScript⟩
  · intro script policy allowed n scope ds h hds
    rw [Script.validate, Check.validate_eq] at hds
    exact Check.marks_outcome h hds
  · intro grammar chars unit h herror
    exact ⟨_, Script.parse_of_hasError (Source.all_places_of_spans h) herror,
      Script.marks_errorFindings h⟩

/-- Past a character of two units, the first diagnostic of a check still points at `a`; those of a
script with errors point at its two parentheses; and in code points the places are others, but a
reader sees the same. -/
theorem sumTree_errorTree_point :
    let chars := ['"', '😀', '"', '+', 'a', '.', 'b']
    let policy := fun u => { Policy.standard with offsetUnit := u }
    (∃ a b : Text,
      (Script.validate ⟨.ofChars chars .utf16, sumTree⟩ Policy.standard [] sumTree {}).1 =
        .ok [⟨5, 6, a⟩, ⟨7, 8, b⟩] ∧
      ∃ m above, sumTree.Path above m ∧
        Diagnostic.Marks (.ofChars chars .utf16) m ⟨5, 6, a⟩) ∧
    (∃ failure, Script.parse (fun _ => errorTree) ")(".toList .utf16 =
        .error (.syntaxError failure) ∧ failure.diagnostics.length = 2 ∧
      ∀ d ∈ failure.diagnostics, ∃ m above, errorTree.Path above m ∧
        d.Marks (.ofChars ")(".toList .utf16) m) ∧
    (∃ a b : Text, checkScript (fun _ => sumTree) (policy .codepoint) (Text.ofChars chars) [] =
        .ok ⟨[⟨4, 5, a⟩, ⟨6, 7, b⟩], false⟩ ∧
      (checkScript (fun _ => sumTree) (policy .utf16) (Text.ofChars chars) []).map
          (fun r => (r.syntaxError, r.diagnostics.map (·.reading .utf16 chars))) =
        .ok (false, [(a, some ['a']), (b, some ['b'])])) := by
  intro chars policy
  refine ⟨⟨_, _, rfl, ?_⟩, ?_, ?_⟩
  · exact diagnostics_point_at_text.1 ⟨.ofChars chars .utf16, sumTree⟩ Policy.standard [] sumTree {}
      _ (by decide) rfl _ (List.mem_cons_self ..)
  · obtain ⟨failure, hfailure, hpoint⟩ :=
      diagnostics_point_at_text.2.1 (fun _ => errorTree) ")(".toList .utf16 (by decide) rfl
    refine ⟨failure, hfailure, ?_, hpoint⟩
    cases hfailure
    rfl
  · obtain ⟨a, b, hcode⟩ : ∃ a b : Text, checkScript (fun _ => sumTree) (policy .codepoint)
        (Text.ofChars chars) [] = .ok ⟨[⟨4, 5, a⟩, ⟨6, 7, b⟩], false⟩ := ⟨_, _, rfl⟩
    have hunits := diagnostics_point_at_text.2.2.2 (fun _ => sumTree) Policy.standard chars []
      .codepoint .utf16 (by decide)
    refine ⟨a, b, hcode, hunits.symm.trans ?_⟩
    dsimp only [policy] at hcode
    rw [hcode]
    rfl

end ScriptGate
