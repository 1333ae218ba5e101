import ScriptGate.Proofs.Check.Wording
import ScriptGate.Proofs.Json.Token
import ScriptGate.Proofs.Text.Avoiding
import ScriptGate.Ecma.Parser

/-!
# The lines of a report

The report of one script is `OK`, or has one line for each diagnostic: its two places and its
message. A line can be read back, since the places are numerals and the message is all that follows
the colon. It stays one line because whatever a message quotes of an error region is escaped, and
because the names and kinds that it quotes as they are hold no line feed.

## Main definitions

* `Text.OneLine`: a text without line feeds.
* `Source.namesOneLine`: what a report may quote of a node as it is holds no line feed.
* `Report.readLine?`: the diagnostic that a line tells.

## Main results

* `Check.oneLine_of_outcome`, `Script.oneLine_of_syntaxErrors`: messages are lines.
* `Report.readLine?_line`: the line of a diagnostic is read back.
* `Report.lines_decode`: the report of a script has one line for each diagnostic, which tells it.
-/

namespace ScriptGate

/-- The text holds no line feed. -/
abbrev Text.OneLine (t : Text) : Prop := t.Avoids '\n'

/-! ### Messages on one line -/

/-- What a report may quote of a node as it is, its kind and, of a name, its text, holds no line
feed. -/
def Source.namesOneLine (s : Source) (n : Node) : Bool :=
  (n.kind : Text).OneLine ∧ (n.kind ∈ Check.nameKinds → (s.text n).toOption.all (·.OneLine))

namespace Check

variable {ctx : Context} {n : Node}

theorem oneLine_fixedMessages : ∀ message ∈ fixedMessages, (message : Text).OneLine := by
  decide +kernel

theorem oneLine_kind (h : n.all ctx.source.namesOneLine) : (n.kind : Text).OneLine := by
  have hn := (Node.all_iff.mp h).1
  simp only [Source.namesOneLine, decide_eq_true_eq] at hn
  exact hn.1

/-- What is said about a node is one line, if what may be quoted below it is. -/
theorem oneLine_of_tells {message : Text} (hlines : n.all ctx.source.namesOneLine)
    (h : ctx.Tells n message) : message.OneLine := by
  cases h with
  | @name name hkind htext =>
    have hname : name.OneLine := by
      have hn := (Node.all_iff.mp hlines).1
      simp only [Source.namesOneLine, decide_eq_true_eq, mapError_eq_ok htext] at hn
      exact of_decide_eq_true (hn.2 hkind)
    exact .append (.append (by decide) hname) (by decide)
  | operator hoperator =>
    exact .append (.append (by decide) (oneLine_kind ((Node.Path.child? hoperator).all hlines)))
      (by decide)
  | kind => exact .append (.append (by decide) (oneLine_kind hlines)) (by decide)
  | optionalChain => decide
  | @callOf function hfunction =>
    obtain ⟨_, hwrappers, -⟩ := function.exists_path_unwrap
    have hkind := oneLine_kind (((Node.Path.child? hfunction).trans hwrappers).all hlines)
    have hcall : Text.ofString ("call of " ++ function.unwrap.kind) =
        ("call of " : Text) ++ (function.unwrap.kind : Text) := by
      simp [Text.ofString, Text.ofChars]
    exact .append (.append (by decide) (hcall ▸ .append (by decide) hkind)) (by decide)
  | fixed hfixed => exact oneLine_fixedMessages _ hfixed

/-- **The messages of a check are lines**, if the names and kinds of the tree are. -/
theorem oneLine_of_outcome {room : Nat} {s : Scope} {ds : List Diagnostic}
    (hlines : n.all ctx.source.namesOneLine) (h : outcome ctx room s n = .ok ds) :
    ∀ d ∈ ds, d.message.OneLine := by
  intro d hd
  obtain ⟨_, m, hpath, htells⟩ := explains_of_outcome h d hd
  exact oneLine_of_tells (hpath.all hlines) htells

end Check

namespace Script

variable {s : Source} {n : Node}

theorem oneLine_of_errorMessage {message : Text} (h : errorMessage s n = .ok message) :
    message.OneLine := by
  rw [errorMessage] at h
  split at h
  · cases h
    exact .append (by decide) (Text.avoids_quoted _)
  · obtain ⟨t, -, h⟩ := bind_eq_ok h
    dsimp only at h
    split at h
    · cases h
      decide
    · cases h
      exact .append (by decide) (Text.avoids_quoted _)

/-- **The messages of syntax errors are lines**, whatever the tree is. -/
theorem oneLine_of_syntaxErrors {ds : List Diagnostic} (h : syntaxErrors s n = .ok ds) :
    ∀ d ∈ ds, d.message.OneLine := by
  intro d hd
  rcases syntaxErrors_eq_ok h with ⟨⟨e, he, rfl⟩, -⟩ | ⟨hall, -⟩
  · rw [List.mem_singleton.mp hd, Check.message_of_diagnostic he]
    decide
  · obtain ⟨region, -, message, hmessage, hdiagnostic⟩ := exists_of_mem_right hall hd
    rw [Check.message_of_diagnostic hdiagnostic]
    exact oneLine_of_errorMessage hmessage

end Script

/-! ### Reading lines -/

namespace Report

/-- The integer that characters begin with, and the characters after it. -/
def readInt? (cs : List Char) : Option (Int × List Char) :=
  match Json.number none ⟨0, cs⟩ with
  | .ok (.int n, cursor) => some (n, cursor.rest)
  | _ => none

/-- The diagnostic that a line tells: its places, with a dash between them, and after a colon and a
blank its message. -/
def readLine? (t : Text) : Option Diagnostic := do
  let (start, rest) ← readInt? t.toChars
  let rest ← ['-'].isPrefixOf? rest
  let (stop, rest) ← readInt? rest
  let message ← [':', ' '].isPrefixOf? rest
  some ⟨start, stop, t.drop (t.length - message.length)⟩

theorem readInt?_ofInt (n : Int) {rest : List Char} (h : Json.Ends rest) :
    readInt? ((Text.ofInt n).toChars ++ rest) = some (n, rest) := by
  rw [readInt?, Json.number_ofInt h rfl]

/-- **The line of a diagnostic is read back.** -/
theorem readLine?_line (d : Diagnostic) : readLine? (line d) = some d := by
  have hchars : (line d).toChars = (Text.ofInt d.start).toChars ++
      '-' :: ((Text.ofInt d.stop).toChars ++ ':' :: ' ' :: d.message.toChars) := by
    simp only [line, Text.toChars_append, List.append_assoc]
    rfl
  have hdrop : (line d).drop ((line d).length - d.message.toChars.length) = d.message := by
    rw [line, Text.length_toChars, List.length_append, Nat.add_sub_cancel]
    exact List.drop_left
  have hdash : Json.Ends ('-' :: ((Text.ofInt d.stop).toChars ++ ':' :: ' ' ::
      d.message.toChars)) := by simp [Json.Ends]
  have hcolon : Json.Ends (':' :: ' ' :: d.message.toChars) := by simp [Json.Ends]
  simp only [readLine?, hchars, readInt?_ofInt _ hdash, readInt?_ofInt _ hcolon,
    Option.bind_eq_bind, Option.bind_some, List.isPrefixOf?, BEq.rfl, if_true, hdrop]

theorem line_injective {d e : Diagnostic} (h : line d = line e) : d = e :=
  Option.some.inj (by rw [← readLine?_line d, h, readLine?_line])

theorem oneLine_line {d : Diagnostic} (h : d.message.OneLine) : (line d).OneLine := by
  have hint (n : Int) : (Text.ofInt n).OneLine := Text.avoids_ofInt (by decide) (by decide) n
  exact .append (.append (.append (.append (hint _) (by decide)) (hint _)) (by decide)) h

variable {r : Report}

/-- A report that is not that of an accepted script has the lines of its diagnostics. -/
theorem splitOn_lines (hlegible : r.Legible) (hlines : ∀ d ∈ r.diagnostics, d.message.OneLine)
    (h : r.accepted = false) : r.lines.splitOn (.char '\n') = r.diagnostics.map line := by
  have htold : r.diagnostics ≠ [] := by
    by_cases hwrong : r.syntaxError
    · exact hlegible.told hwrong
    · simpa [accepted, hwrong] using h
  have hone : ∀ l ∈ r.diagnostics.map line, .char '\n' ∉ l := by
    intro l hl
    obtain ⟨d, hd, rfl⟩ := List.mem_map.mp hl
    exact oneLine_line (hlines d hd)
  rw [lines, h, if_neg Bool.false_ne_true]
  exact List.splitOn_intercalate _ hone (by simpa using htold)

/-- Only the report of an accepted script is `OK`. -/
theorem lines_eq_iff (hlegible : r.Legible) (hlines : ∀ d ∈ r.diagnostics, d.message.OneLine) :
    r.lines = "OK" ↔ r.accepted := by
  refine ⟨fun hok => ?_, fun h => by rw [lines, if_pos h]⟩
  refine Bool.of_not_eq_false fun h => ?_
  have hsplit := splitOn_lines hlegible hlines h
  rw [hok] at hsplit
  -- The word is one line, but not that of a diagnostic.
  obtain ⟨d, hd⟩ : ∃ d, line d = "OK" := by
    have hmem : ("OK" : Text) ∈ r.diagnostics.map line := hsplit ▸ by decide
    exact (List.mem_map.mp hmem).imp fun _ => And.right
  have hread := readLine?_line d
  rw [hd] at hread
  cases hread

/-- **The report of a script has one line for each diagnostic, which tells it.** Let the names and
kinds of the tree hold no line feed, unless the tree has errors, where they may hold anything. Then
the report is `OK` if and only if the script is accepted. Otherwise its lines are read as the
diagnostics, one after the other, and no line is that of another diagnostic. -/
theorem lines_decode {grammar : Grammar} {policy : Policy} {script : Text} {allowed : List Text}
    (h : checkScript grammar policy script allowed = .ok r)
    (hnames : ∀ chars, script = .ofChars chars → (grammar chars).hasError = false →
      (grammar chars).all (Source.ofChars chars policy.offsetUnit).namesOneLine) :
    (r.lines = "OK" ↔ r.accepted) ∧
      (r.accepted = false →
        (r.lines.splitOn (.char '\n')).map readLine? = r.diagnostics.map some ∧
        ∀ (k : Nat) (d : Diagnostic),
          (r.lines.splitOn (.char '\n'))[k]? = some (line d) ↔ r.diagnostics[k]? = some d) := by
  have hlegible := legible_of_checkScript h
  have hlines : ∀ d ∈ r.diagnostics, d.message.OneLine := by
    obtain ⟨chars, ds, hchars, ⟨-, rfl, herrors⟩ | ⟨hclear, rfl, houtcome⟩⟩ := checkScript_cases h
    · exact Script.oneLine_of_syntaxErrors herrors
    · refine Check.oneLine_of_outcome ?_ houtcome
      exact hnames chars hchars hclear
  refine ⟨lines_eq_iff hlegible hlines, fun hrejected => ?_⟩
  rw [splitOn_lines hlegible hlines hrejected]
  constructor
  · rw [List.map_map]
    exact List.map_congr_left fun d _ => readLine?_line d
  · intro k d
    rw [List.getElem?_map, Option.map_eq_some_iff]
    constructor
    · rintro ⟨e, he, hline⟩
      rwa [← line_injective hline]
    · exact fun hd => ⟨d, hd, rfl⟩

/-- Text that would look like the end of one line and the whole of another. -/
def forgedScript : Text := ")\n0-1: unidetified: x"

/-- Its tree, where all of it is one error region. -/
def forgedTree : Node :=
  { Ecma.bare "program" 0 21 [{ Ecma.bare "ERROR" 0 21 [] with isError := true, hasError := true }]
    with hasError := true }

/-- Two names on lines of their own. -/
def namesTree : Node :=
  Ecma.bare "program" 0 3
    [Ecma.bare "expression_statement" 0 1 [Ecma.bare "identifier" 0 1 []],
     Ecma.bare "expression_statement" 2 3 [Ecma.bare "identifier" 2 3 []]]

/-- The report of the region. -/
def forgedReport : Report :=
  ⟨[⟨0, 21, "Syntax error: unexpected ')\\n0-1: unidetified: ...'"⟩], true⟩

/-- The region is told on one line, and the two names on two. -/
theorem forgedTree_namesTree_lines :
    (checkScript (fun _ => forgedTree) .standard forgedScript [] = .ok forgedReport ∧
      (forgedReport.lines.splitOn (.char '\n')).map readLine? =
        forgedReport.diagnostics.map some) ∧
    ∃ r, checkScript (fun _ => namesTree) .standard "x\ny" [] = .ok r ∧
      (r.lines.splitOn (.char '\n')).map readLine? =
        [some ⟨0, 1, "unidetified: x"⟩, some ⟨2, 3, "unidetified: y"⟩] := by
  constructor
  · have hreport : checkScript (fun _ => forgedTree) .standard forgedScript [] =
        .ok forgedReport := eq_ok_of_toOption (by decide +kernel)
    have hlines := (lines_decode hreport fun _ _ hclear => by cases hclear).2 rfl
    exact ⟨hreport, hlines.1⟩
  · have hreport : checkScript (fun _ => namesTree) .standard "x\ny" [] =
        .ok ⟨[⟨0, 1, "unidetified: x"⟩, ⟨2, 3, "unidetified: y"⟩], false⟩ :=
      eq_ok_of_toOption (by decide +kernel)
    have hnames (chars : List Char) (hchars : ("x\ny" : Text) = .ofChars chars) :
        namesTree.all (Source.ofChars chars Policy.standard.offsetUnit).namesOneLine := by
      rw [← Text.toChars_ofChars chars, ← hchars]
      decide +kernel
    have hlines := ((lines_decode hreport fun chars hchars _ => hnames chars hchars).2 rfl).1
    exact ⟨_, hreport, hlines⟩

end Report

end ScriptGate
